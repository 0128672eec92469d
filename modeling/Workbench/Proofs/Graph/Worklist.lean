import Mathlib.Data.List.Nodup
import Workbench.Proofs.Graph.Components
import Workbench.Proofs.Graph.Discovery

/-!
# Searches turn by turn

A walk says what is visited. Here the same search is told as the loop it is: a
turn takes the first vertex of the queue and offers whatever the arcs that leave
it lead to, and a vertex that is offered enters the queue unless it is marked.
The queue can grow from turn to turn. It is drained all the same, as a turn
takes one vertex from the queue and each one that it adds has paid with an arc
that leads to nothing new any more (`pending_lt_of_turn?`).

A search keeps a log of what has entered the queue and of what has been taken
from it. What has entered was not marked when the search began, is marked now,
and has been taken or waits (`Sound`); so nothing enters twice, neither in one
search nor in several that share their marks, and after the last turn all that
has entered has been taken. `Drains.taken_eq` says that this is the walk.
-/

namespace Workbench

namespace Arcs

/-- A walk asks of the marks only what is marked. -/
theorem walk_congr {α : Type} [DecidableEq α] {arcs : Arcs α}
    {seen seen' queue : List α} (h : ∀ a, a ∈ seen ↔ a ∈ seen') :
    arcs.walk seen queue = arcs.walk seen' queue := by
  induction seen, queue using walk.induct arcs generalizing seen' with
  | case1 => rw [walk_nil, walk_nil]
  | case2 seen a queue new =>
      rename_i ih
      have hnew : fresh seen' (arcs.heads a) = new :=
        fresh_congr fun b _ => (h b).symm
      rw [walk_cons, walk_cons, hnew, ih fun b => ?_]
      rw [List.mem_append, List.mem_append, h]

theorem walks_congr {arcs : Arcs Uuid} {seen seen' starts : List Uuid}
    (h : ∀ a, a ∈ seen ↔ a ∈ seen') :
    arcs.walks seen starts = arcs.walks seen' starts := by
  induction starts generalizing seen seen' with
  | nil => rfl
  | cons start rest ih =>
      by_cases hstart : start ∈ seen
      · rw [walks_cons_of_mem hstart,
          walks_cons_of_mem ((h start).1 hstart), ih h]
      · have hwalk : arcs.walk (start :: seen) [start] =
            arcs.walk (start :: seen') [start] :=
          walk_congr fun a => by rw [List.mem_cons, List.mem_cons, h]
        rw [walks_cons_of_not_mem hstart,
          walks_cons_of_not_mem fun hseen => hstart ((h start).2 hseen), hwalk,
          ih fun a => ?_]
        rw [List.mem_append, List.mem_append, h]

end Arcs

open Arcs

/-- A search under way: the vertices marked, the queue, and what has entered the
queue and what has been taken from it so far. -/
structure Worklist (α : Type) where
  seen : List α
  queue : List α
  entered : List α
  taken : List α

namespace Worklist

variable {α : Type} [DecidableEq α] {arcs : Arcs α}
  {w next last : Worklist α} {n : Nat}
  {marks : List α}

/-- Nothing is queued yet. -/
def marked (marks : List α) : Worklist α := ⟨marks, [], [], []⟩

/-- Marks the vertex and puts it at the end of the queue, unless it is marked
already. -/
def offer (w : Worklist α) (a : α) : Worklist α :=
  if w.seen.contains a then w
  else { w with
    seen := a :: w.seen, queue := w.queue ++ [a], entered := w.entered ++ [a] }

/-- Takes the first vertex of the queue and offers the heads of its arcs. -/
def turn? (arcs : Arcs α) (w : Worklist α) : Option (Worklist α) :=
  match w.queue with
  | [] => none
  | a :: queue =>
      some ((arcs.heads a).foldl offer
        { w with queue, taken := w.taken ++ [a] })

/-- After so many turns the queue is empty, and the search is left as told. -/
inductive Drains (arcs : Arcs α) : Worklist α → Nat → Worklist α → Prop
  | done {w : Worklist α} (h : w.turn? arcs = none) : Drains arcs w 0 w
  | turn {w next last : Worklist α} {n : Nat} (h : w.turn? arcs = some next)
      (rest : Drains arcs next n last) : Drains arcs w (n + 1) last

/-- Searches from one start after another, which share their marks; a start that
is marked by then is passed over. Told are the number of turns of all of them
and how each is left. -/
inductive Searches (arcs : Arcs α) :
    List α → List α → Nat → List (Worklist α) → Prop
  | nil {marks : List α} : Searches arcs marks [] 0 []
  | skip {marks starts : List α} {start : α} {n : Nat}
      {runs : List (Worklist α)}
      (h : start ∈ marks) (rest : Searches arcs marks starts n runs) :
      Searches arcs marks (start :: starts) n runs
  | search {marks starts : List α} {start : α} {n m : Nat} {last : Worklist α}
      {runs : List (Worklist α)} (h : start ∉ marks)
      (drained : Drains arcs ((marked marks).offer start) n last)
      (rest : Searches arcs last.seen starts m runs) :
      Searches arcs marks (start :: starts) (n + m) (last :: runs)

theorem turn?_eq_none_iff : w.turn? arcs = none ↔ w.queue = [] := by
  unfold turn?
  split
  · next hqueue => simp [hqueue]
  · next a queue hqueue => simp [hqueue]

/-- Of the vertices offered those enter that are new, each at its first
place. -/
theorem foldl_offer (candidates : List α) (w : Worklist α) :
    candidates.foldl offer w =
      { seen := (fresh w.seen candidates).reverse ++ w.seen
        queue := w.queue ++ fresh w.seen candidates
        entered := w.entered ++ fresh w.seen candidates
        taken := w.taken } := by
  induction candidates generalizing w with
  | nil => simp [fresh]
  | cons a rest ih =>
      rw [List.foldl_cons, ih, fresh, offer]
      split <;> simp

/-- What a turn does. -/
theorem turn?_eq_some_iff :
    w.turn? arcs = some next ↔ ∃ a queue, w.queue = a :: queue ∧
      next =
        { seen := (fresh w.seen (arcs.heads a)).reverse ++ w.seen
          queue := queue ++ fresh w.seen (arcs.heads a)
          entered := w.entered ++ fresh w.seen (arcs.heads a)
          taken := w.taken ++ [a] } := by
  unfold turn?
  split
  · next hqueue => simp [hqueue]
  · next a queue hqueue =>
      rw [foldl_offer, Option.some.injEq]
      simp only [hqueue, List.cons.injEq]
      refine ⟨fun h => ⟨a, queue, ⟨rfl, rfl⟩, h.symm⟩, fun h => ?_⟩
      obtain ⟨b, others, ⟨rfl, rfl⟩, hnext⟩ := h
      exact hnext.symm

/-! ## The turns end -/

/-- How many turns there can be yet: for every vertex that waits, and for every
arc that leads to a vertex without a mark. -/
def pending (arcs : Arcs α) (w : Worklist α) : Nat :=
  w.queue.length + arcs.unexplored w.seen

theorem pending_lt_of_turn? (h : w.turn? arcs = some next) :
    next.pending arcs < w.pending arcs := by
  obtain ⟨a, queue, hqueue, rfl⟩ := turn?_eq_some_iff.1 h
  have hpaid := length_fresh_add_unexplored_le (arcs.heads a) w.seen fun b hb =>
    ⟨a, mem_of_mem_heads hb⟩
  have horder :
      arcs.unexplored ((fresh w.seen (arcs.heads a)).reverse ++ w.seen) =
      arcs.unexplored (fresh w.seen (arcs.heads a) ++ w.seen) :=
    List.countP_congr fun x _ => by simp
  simp only [pending, hqueue, horder, List.length_append, List.length_cons]
  omega

theorem exists_drains (arcs : Arcs α) (w : Worklist α) :
    ∃ n last, Drains arcs w n last := by
  induction hpending : w.pending arcs using Nat.strongRecOn generalizing w with
  | _ pending ih =>
      cases hturn : w.turn? arcs with
      | none => exact ⟨0, w, .done hturn⟩
      | some next =>
          obtain ⟨n, last, hrest⟩ :=
            ih _ (hpending ▸ pending_lt_of_turn? hturn) next rfl
          exact ⟨n + 1, last, .turn hturn hrest⟩

/-- There is one way only to drain a queue. -/
theorem Drains.unique {m : Nat} {other : Worklist α} (h : Drains arcs w n last)
    (h' : Drains arcs w m other) : n = m ∧ last = other := by
  induction h generalizing m with
  | done hnone =>
      cases h' with
      | done => exact ⟨rfl, rfl⟩
      | turn hturn => rw [hnone] at hturn; cases hturn
  | turn hturn _ ih =>
      cases h' with
      | done hnone => rw [hnone] at hturn; cases hturn
      | turn hturn' hrest =>
          rw [hturn, Option.some.injEq] at hturn'
          obtain ⟨rfl, rfl⟩ := ih (hturn' ▸ hrest)
          exact ⟨rfl, rfl⟩

theorem exists_searches (arcs : Arcs α) (marks starts : List α) :
    ∃ n runs, Searches arcs marks starts n runs := by
  induction starts generalizing marks with
  | nil => exact ⟨0, [], .nil⟩
  | cons start rest ih =>
      by_cases hstart : start ∈ marks
      · obtain ⟨n, runs, hrest⟩ := ih marks
        exact ⟨n, runs, .skip hstart hrest⟩
      · obtain ⟨n, last, hdrains⟩ :=
          exists_drains arcs ((marked marks).offer start)
        obtain ⟨m, runs, hrest⟩ := ih last.seen
        exact ⟨n + m, last :: runs, .search hstart hdrains hrest⟩

/-! ## The log -/

/-- What has entered has been taken or waits, none twice; it was not among the
first marks, and together with them it is what is marked. -/
structure Sound (marks : List α) (w : Worklist α) : Prop where
  entered_eq : w.entered = w.taken ++ w.queue
  nodup : w.entered.Nodup
  mem_seen_iff : ∀ a, a ∈ w.seen ↔ a ∈ w.entered ∨ a ∈ marks
  unmarked : ∀ a ∈ w.entered, a ∉ marks

omit [DecidableEq α] in
theorem sound_marked (marks : List α) : (marked marks).Sound marks where
  entered_eq := rfl
  nodup := .nil
  mem_seen_iff a := by simp [marked]
  unmarked a ha := by cases ha

/-- What is offered enters behind everything else and had no mark. -/
theorem Sound.foldl_offer (h : w.Sound marks) (candidates : List α) :
    (candidates.foldl offer w).Sound marks := by
  rw [Worklist.foldl_offer]
  have hnew : ∀ a ∈ fresh w.seen candidates, a ∉ w.entered ∧ a ∉ marks := by
    intro a ha
    have hnot := (mem_fresh.1 ha).2
    rwa [h.mem_seen_iff, not_or] at hnot
  refine ⟨?_, ?_, fun a => ?_, fun a ha => ?_⟩
  · simp only [h.entered_eq, List.append_assoc]
  · refine List.nodup_append.2
      ⟨h.nodup, nodup_fresh .., fun a ha b hb heq => ?_⟩
    exact (hnew b hb).1 (heq ▸ ha)
  · simp only [List.mem_append, List.mem_reverse, h.mem_seen_iff]
    tauto
  · rcases List.mem_append.1 ha with ha | ha
    · exact h.unmarked a ha
    · exact (hnew a ha).2

theorem Sound.turn? (h : w.Sound marks) (hturn : w.turn? arcs = some next) :
    next.Sound marks := by
  unfold Worklist.turn? at hturn
  split at hturn
  · cases hturn
  · next a queue hqueue =>
      obtain rfl := Option.some.inj hturn
      have htaken : Sound marks { w with queue, taken := w.taken ++ [a] } :=
        ⟨by simp [h.entered_eq, hqueue], h.nodup, h.mem_seen_iff, h.unmarked⟩
      exact htaken.foldl_offer _

theorem Drains.sound (h : Drains arcs w n last) (hsound : w.Sound marks) :
    last.Sound marks := by
  induction h with
  | done => exact hsound
  | turn hturn _ ih => exact ih (hsound.turn? hturn)

theorem Drains.queue_eq_nil (h : Drains arcs w n last) : last.queue = [] := by
  induction h with
  | done hnone => exact turn?_eq_none_iff.1 hnone
  | turn _ _ ih => exact ih

theorem Drains.taken_eq_entered (h : Drains arcs w n last)
    (hsound : w.Sound marks) : last.taken = last.entered := by
  rw [(h.sound hsound).entered_eq, h.queue_eq_nil, List.append_nil]

/-- Every turn takes one vertex. -/
theorem Drains.length_taken (h : Drains arcs w n last) :
    last.taken.length = w.taken.length + n := by
  induction h with
  | done => rfl
  | turn hturn _ ih =>
      obtain ⟨a, queue, -, rfl⟩ := turn?_eq_some_iff.1 hturn
      rw [ih, List.length_append, List.length_singleton]
      omega

/-- What enters later is the head of an arc. -/
theorem Drains.forall_entered {holds : α → Prop} (h : Drains arcs w n last)
    (harcs : ∀ a b, (a, b) ∈ arcs → holds b) (hw : ∀ a ∈ w.entered, holds a) :
    ∀ a ∈ last.entered, holds a := by
  induction h with
  | done => exact hw
  | turn hturn _ ih =>
      obtain ⟨a, queue, -, rfl⟩ := turn?_eq_some_iff.1 hturn
      refine ih fun b hb => ?_
      rcases List.mem_append.1 hb with hb | hb
      · exact hw b hb
      · exact harcs a b (mem_of_mem_heads (mem_fresh.1 hb).1)

/-! ## What is taken is the walk -/

theorem Drains.taken_eq (h : Drains arcs w n last) :
    last.taken = w.taken ++ arcs.walk w.seen w.queue := by
  induction h with
  | done hnone => rw [turn?_eq_none_iff.1 hnone, walk_nil, List.append_nil]
  | @turn w next last n hturn _ ih =>
      obtain ⟨a, queue, hqueue, rfl⟩ := turn?_eq_some_iff.1 hturn
      have hsame : arcs.walk ((fresh w.seen (arcs.heads a)).reverse ++ w.seen)
            (queue ++ fresh w.seen (arcs.heads a)) =
          arcs.walk (fresh w.seen (arcs.heads a) ++ w.seen)
            (queue ++ fresh w.seen (arcs.heads a)) :=
        walk_congr fun b => by simp
      rw [ih, hsame, hqueue, walk_cons, List.append_assoc]
      rfl

/-! ## Several starts -/

section

variable {starts : List α} {runs : List (Worklist α)}

/-- A start is marked and is all that is queued. -/
theorem offer_marked {start : α} (h : start ∉ marks) :
    (marked marks).offer start = ⟨start :: marks, [start], [start], []⟩ := by
  rw [offer, if_neg (by simpa [marked] using h)]
  rfl

theorem sound_offer_marked (marks : List α) (start : α) :
    ((marked marks).offer start).Sound marks :=
  (sound_marked marks).foldl_offer [start]

theorem Searches.drained (h : Searches arcs marks starts n runs) :
    ∀ run ∈ runs, run.queue = [] ∧ run.taken = run.entered := by
  induction h with
  | nil => exact List.forall_mem_nil _
  | skip _ _ ih => exact ih
  | @search marks starts start _ _ _ _ _ hdrains _ ih =>
      refine List.forall_mem_cons.2 ⟨⟨hdrains.queue_eq_nil, ?_⟩, ih⟩
      exact hdrains.taken_eq_entered (sound_offer_marked marks start)

/-- No vertex enters that is marked, and none enters twice: a later search finds
the marks of those before it. -/
theorem Searches.nodup (h : Searches arcs marks starts n runs) :
    (runs.flatMap (·.entered)).Nodup ∧
      ∀ a ∈ runs.flatMap (·.entered), a ∉ marks := by
  induction h with
  | nil => exact ⟨.nil, List.forall_mem_nil _⟩
  | skip _ _ ih => exact ih
  | @search marks starts start _ _ _ _ _ hdrains _ ih =>
      have hsound := hdrains.sound (sound_offer_marked marks start)
      obtain ⟨hnodup, hunmarked⟩ := ih
      rw [List.flatMap_cons]
      refine ⟨List.nodup_append.2 ⟨hsound.nodup, hnodup,
        fun a ha b hb heq => ?_⟩, fun a ha => ?_⟩
      · exact hunmarked b hb ((hsound.mem_seen_iff b).2 (.inl (heq ▸ ha)))
      · rcases List.mem_append.1 ha with ha | ha
        · exact hsound.unmarked a ha
        · exact fun hmarks =>
            hunmarked a ha ((hsound.mem_seen_iff a).2 (.inr hmarks))

/-- Every start that is not marked enters, in its own search or in an earlier
one. -/
theorem Searches.covers (h : Searches arcs marks starts n runs) :
    ∀ a ∈ starts, a ∈ marks ∨ a ∈ runs.flatMap (·.entered) := by
  induction h with
  | nil => exact List.forall_mem_nil _
  | skip hstart _ ih => exact List.forall_mem_cons.2 ⟨.inl hstart, ih⟩
  | @search marks starts start _ _ _ _ hstart hdrains _ ih =>
      have hsound := hdrains.sound (sound_offer_marked marks start)
      have htaken := hdrains.taken_eq
      rw [offer_marked hstart,
        hdrains.taken_eq_entered (sound_offer_marked marks start)] at htaken
      refine List.forall_mem_cons.2 ⟨.inr ?_, fun a ha => ?_⟩
      · rw [List.flatMap_cons, htaken]
        exact List.mem_append_left _
          (mem_walk_of_mem_queue (List.mem_cons_self ..))
      · rw [List.flatMap_cons, List.mem_append]
        rcases ih a ha with h | h
        · exact ((hsound.mem_seen_iff a).1 h).elim (.inr ∘ .inl) .inl
        · exact .inr (.inr h)

theorem Searches.forall_entered {holds : α → Prop}
    (h : Searches arcs marks starts n runs)
    (harcs : ∀ a b, (a, b) ∈ arcs → holds b) (hstarts : ∀ a ∈ starts, holds a) :
    ∀ a ∈ runs.flatMap (·.entered), holds a := by
  induction h with
  | nil => exact List.forall_mem_nil _
  | skip _ _ ih => exact ih (List.forall_mem_cons.1 hstarts).2
  | search hstart hdrains _ ih =>
      obtain ⟨hfirst, hrest⟩ := List.forall_mem_cons.1 hstarts
      rw [List.flatMap_cons]
      intro a ha
      rcases List.mem_append.1 ha with ha | ha
      · refine hdrains.forall_entered harcs (fun b hb => ?_) a ha
        rw [offer_marked hstart] at hb
        exact List.mem_singleton.1 hb ▸ hfirst
      · exact ih hrest a ha

/-- The turns of all searches together are as many as the vertices that
enter. -/
theorem Searches.turns_eq (h : Searches arcs marks starts n runs) :
    n = (runs.flatMap (·.entered)).length := by
  induction h with
  | nil => rfl
  | skip _ _ ih => exact ih
  | @search marks starts start _ _ _ _ hstart hdrains _ ih =>
      have hlength := hdrains.length_taken
      rw [hdrains.taken_eq_entered (sound_offer_marked marks start),
        offer_marked hstart, List.length_nil] at hlength
      rw [List.flatMap_cons, List.length_append, ← ih, hlength]
      omega

end

/-- What the searches take are the walks. -/
theorem Searches.taken_eq {arcs : Arcs Uuid} {marks starts : List Uuid}
    {runs : List (Worklist Uuid)} (h : Searches arcs marks starts n runs) :
    runs.map (·.taken) = arcs.walks marks starts := by
  induction h with
  | nil => rfl
  | skip hstart _ ih => rw [walks_cons_of_mem hstart, ih]
  | @search marks starts start _ _ last _ hstart hdrains _ ih =>
      have hsound := hdrains.sound (sound_offer_marked marks start)
      have hwalk := hdrains.taken_eq
      rw [offer_marked hstart, List.nil_append] at hwalk
      rw [walks_cons_of_not_mem hstart, List.map_cons, ih, hwalk, ← hwalk,
        walks_congr fun a => ?_]
      rw [hsound.mem_seen_iff,
        hdrains.taken_eq_entered (sound_offer_marked marks start),
        List.mem_append]

end Worklist

end Workbench
