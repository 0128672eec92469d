import Mathlib.Data.List.Basic
import Mathlib.Logic.Relation
import Workbench.Graph.Walk

/-!
# What a walk visits

A walk visits each vertex once and visits exactly what its queue reaches along
arcs whose heads have not been seen. Neither half needs an invariant between the
queue and the vertices seen: soundness follows the recursion, and completeness
says that the walk is closed under the arcs to vertices not seen, so that
whatever such arcs reach from the queue is caught.

The walks of interest start at one vertex that is itself marked as seen. Marking
it makes no difference to what is reached, as a path that comes back to its
start can be cut short; so `mem_walk_start_iff` speaks only of the vertices
marked before.
-/

namespace Workbench.Arcs

variable {α : Type} [DecidableEq α] {arcs : Arcs α}

/-- An arc to a vertex that has not been seen. -/
def Opens (arcs : Arcs α) (seen : List α) (a b : α) : Prop :=
  (a, b) ∈ arcs ∧ b ∉ seen

/-- Reached along arcs to vertices that have not been seen. -/
def Reaches (arcs : Arcs α) (seen : List α) : α → α → Prop :=
  Relation.ReflTransGen (arcs.Opens seen)

omit [DecidableEq α] in
theorem Reaches.mono {seen seen' : List α} {a b : α} (h : arcs.Reaches seen a b)
    (hsub : ∀ x ∈ seen', x ∈ seen) : arcs.Reaches seen' a b := by
  induction h with
  | refl => exact .refl
  | tail _ hopen ih => exact ih.tail ⟨hopen.1, fun hb => hopen.2 (hsub _ hb)⟩

@[simp]
theorem mem_heads {a b : α} : b ∈ arcs.heads a ↔ (a, b) ∈ arcs := by
  refine ⟨mem_of_mem_heads, fun h => ?_⟩
  simp only [heads, List.mem_map, List.mem_filter, beq_iff_eq]
  exact ⟨(a, b), ⟨h, rfl⟩, rfl⟩

@[simp]
theorem mem_fresh {candidates seen : List α} {b : α} :
    b ∈ fresh seen candidates ↔ b ∈ candidates ∧ b ∉ seen := by
  induction candidates generalizing seen with
  | nil => simp [fresh]
  | cons c rest ih =>
      by_cases hc : c ∈ seen
      · rw [fresh, if_pos (by simpa using hc), ih, List.mem_cons]
        refine ⟨?_, ?_⟩
        · exact fun h => ⟨.inr h.1, h.2⟩
        · intro h
          obtain ⟨rfl | hb, hnot⟩ := h
          · exact absurd hc hnot
          · exact ⟨hb, hnot⟩
      · rw [fresh, if_neg (by simpa using hc), List.mem_cons, ih, List.mem_cons,
          List.mem_cons]
        by_cases hbc : b = c
        · subst hbc
          simp [hc]
        · simp [hbc]

theorem nodup_fresh (seen candidates : List α) :
    (fresh seen candidates).Nodup := by
  induction candidates generalizing seen with
  | nil => exact .nil
  | cons c rest ih =>
      rw [fresh]
      split
      · exact ih seen
      · refine List.nodup_cons.2 ⟨fun h => ?_, ih (c :: seen)⟩
        exact (mem_fresh.1 h).2 (List.mem_cons_self ..)

@[simp]
theorem walk_nil {seen : List α} : arcs.walk seen [] = [] := by rw [walk]

theorem walk_cons {seen queue : List α} {a : α} :
    arcs.walk seen (a :: queue) =
      a :: arcs.walk (fresh seen (arcs.heads a) ++ seen)
        (queue ++ fresh seen (arcs.heads a)) := by
  rw [walk]

/-! ## Soundness and completeness -/

theorem mem_walk_of_mem_queue {seen queue : List α} {a : α} (h : a ∈ queue) :
    a ∈ arcs.walk seen queue := by
  induction seen, queue using walk.induct arcs with
  | case1 => cases h
  | case2 seen b queue new ih =>
      rw [walk_cons]
      rcases List.mem_cons.1 h with rfl | h
      · exact List.mem_cons_self ..
      · exact List.mem_cons_of_mem _ (ih (List.mem_append_left _ h))

/-- What is visited is reached from the queue without entering a vertex seen
before. -/
theorem exists_reaches_of_mem_walk {seen queue : List α} {v : α}
    (h : v ∈ arcs.walk seen queue) : ∃ a ∈ queue, arcs.Reaches seen a v := by
  induction seen, queue using walk.induct arcs with
  | case1 => simp at h
  | case2 seen a queue new ih =>
      rw [walk_cons] at h
      rcases List.mem_cons.1 h with rfl | h
      · exact ⟨v, List.mem_cons_self .., .refl⟩
      · obtain ⟨b, hb, hpath⟩ := ih h
        have hpath : arcs.Reaches seen b v :=
          hpath.mono fun _ => List.mem_append_right _
        rcases List.mem_append.1 hb with hb | hb
        · exact ⟨b, List.mem_cons_of_mem _ hb, hpath⟩
        · -- A vertex that enters the queue now is entered by an arc from the
          -- visited one.
          obtain ⟨harc, hnot⟩ := mem_fresh.1 hb
          exact ⟨a, List.mem_cons_self .., .head ⟨mem_heads.1 harc, hnot⟩ hpath⟩

/-- A walk follows every arc that leads from a visited vertex to one not seen
before. -/
theorem mem_walk_of_opens {seen queue : List α} {a b : α}
    (ha : a ∈ arcs.walk seen queue) (hopen : arcs.Opens seen a b) :
    b ∈ arcs.walk seen queue := by
  induction seen, queue using walk.induct arcs with
  | case1 => simp at ha
  | case2 seen c queue new ih =>
      have hqueued : b ∈ new → b ∈ arcs.walk seen (c :: queue) := by
        intro hnew
        rw [walk_cons]
        exact List.mem_cons_of_mem _
          (mem_walk_of_mem_queue (List.mem_append_right _ hnew))
      by_cases hnew : b ∈ new
      · exact hqueued hnew
      · rw [walk_cons] at ha
        rcases List.mem_cons.1 ha with rfl | ha
        · exact hqueued (mem_fresh.2 ⟨mem_heads.2 hopen.1, hopen.2⟩)
        · have hnot : b ∉ new ++ seen := by
            simp only [List.mem_append, not_or]
            exact ⟨hnew, hopen.2⟩
          rw [walk_cons]
          exact List.mem_cons_of_mem _ (ih ha ⟨hopen.1, hnot⟩)

/-- A walk from one vertex visits what that vertex reaches. -/
theorem mem_walk_start_iff {seen : List α} {a v : α} :
    v ∈ arcs.walk (a :: seen) [a] ↔ arcs.Reaches seen a v := by
  refine ⟨?_, ?_⟩
  · intro h
    obtain ⟨b, hb, hpath⟩ := exists_reaches_of_mem_walk h
    obtain rfl : b = a := by simpa using hb
    exact hpath.mono fun _ => List.mem_cons_of_mem _
  · intro hpath
    induction hpath with
    | refl => exact mem_walk_of_mem_queue (List.mem_cons_self ..)
    | @tail _ c _ hopen ih =>
        by_cases hc : c = a
        · subst hc
          exact mem_walk_of_mem_queue (List.mem_cons_self ..)
        · have hnot : c ∉ a :: seen := by
            simp only [List.mem_cons, not_or]
            exact ⟨hc, hopen.2⟩
          exact mem_walk_of_opens ih ⟨hopen.1, hnot⟩

/-! ## Each vertex once -/

/-- What is visited stood in the queue or had not been seen. -/
theorem mem_queue_or_not_mem_seen {seen queue : List α} {v : α}
    (h : v ∈ arcs.walk seen queue) : v ∈ queue ∨ v ∉ seen := by
  obtain ⟨a, ha, hpath⟩ := exists_reaches_of_mem_walk h
  cases hpath with
  | refl => exact .inl ha
  | tail _ hopen => exact .inr hopen.2

/-- A walk whose queue is marked as seen visits no vertex twice. -/
theorem nodup_walk {seen queue : List α} (hqueue : queue.Nodup)
    (hseen : ∀ a ∈ queue, a ∈ seen) : (arcs.walk seen queue).Nodup := by
  induction seen, queue using walk.induct arcs with
  | case1 => simp
  | case2 seen a queue new ih =>
      obtain ⟨ha, hqueue⟩ := List.nodup_cons.1 hqueue
      have hmarked : ∀ b ∈ queue, b ∈ seen :=
        fun b hb => hseen b (List.mem_cons_of_mem _ hb)
      have hnew : ∀ b ∈ new, b ∉ seen := fun b hb => (mem_fresh.1 hb).2
      rw [walk_cons]
      refine List.nodup_cons.2 ⟨fun hagain => ?_, ih ?_ ?_⟩
      · rcases mem_queue_or_not_mem_seen hagain with h | h
        · rcases List.mem_append.1 h with h | h
          · exact ha h
          · exact hnew a h (hseen a (List.mem_cons_self ..))
        · exact h (List.mem_append_right _ (hseen a (List.mem_cons_self ..)))
      · refine List.nodup_append.2 ⟨hqueue, nodup_fresh .., ?_⟩
        intro b hb c hc heq
        exact hnew c hc (hmarked c (heq ▸ hb))
      · intro b hb
        rcases List.mem_append.1 hb with hb | hb
        · exact List.mem_append_right _ (hmarked b hb)
        · exact List.mem_append_left _ hb

/-! ## Other names for the vertices -/

section

variable {β : Type} [DecidableEq β] {f : α → β}

/-- The arcs with every vertex under another name. -/
def relabel (f : α → β) (arcs : Arcs α) : Arcs β := arcs.map (Prod.map f f)

variable (hf : Function.Injective f)

include hf

theorem heads_relabel (a : α) :
    (arcs.relabel f).heads (f a) = (arcs.heads a).map f := by
  have hsource : (fun arc : β × β => arc.1 == f a) ∘ Prod.map f f =
      fun arc => arc.1 == a :=
    funext fun arc => hf.beq_eq
  rw [heads, relabel, List.filter_map, hsource, heads, List.map_map,
    List.map_map]
  rfl

theorem fresh_map (seen candidates : List α) :
    fresh (seen.map f) (candidates.map f) = (fresh seen candidates).map f := by
  induction candidates generalizing seen with
  | nil => rfl
  | cons a rest ih =>
      have hseen : (seen.map f).contains (f a) = seen.contains a := by
        rw [Bool.eq_iff_iff, List.contains_iff_mem, List.contains_iff_mem,
          List.mem_map_of_injective hf]
      rw [List.map_cons, fresh, fresh, hseen]
      split
      · exact ih seen
      · rw [List.map_cons, ← ih (a :: seen), List.map_cons]

/-- A walk goes by what is the same vertex and what is another, and by nothing
else. -/
theorem walk_relabel (seen queue : List α) :
    (arcs.relabel f).walk (seen.map f) (queue.map f) =
      (arcs.walk seen queue).map f := by
  induction seen, queue using walk.induct arcs with
  | case1 => simp
  | case2 seen a queue new ih =>
      rw [List.map_append, List.map_append] at ih
      rw [List.map_cons, walk_cons, walk_cons, heads_relabel hf, fresh_map hf,
        List.map_cons, ih]

end

end Workbench.Arcs
