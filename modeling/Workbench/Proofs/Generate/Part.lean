import Mathlib.Data.List.Nodup
import Mathlib.Logic.Relation
import Workbench.Proofs.Workflow.Lookup

/-!
# Parts of a generated workflow

A generated workflow is put together from parts. A part is described here by the
calls that made it, as a tree, and from the tree everything about it can be read
off: the identifiers of its nodes in the order in which they were created, its
edges, its entry and exit, and the loops that were made in it with the body of
each.

What makes bodies nest is that a part is left only from its exit, which has no
edge yet: `exit_free`. An edge that is added later starts at the exit of some
part, and the exit of a part is in none of the bodies within
(`exit_not_mem_body`). So when a body is finished, one edge leads on from its
exit to the end of its loop, and no other edge will ever leave it:
`leaves_body`. All this needs the identifiers to be distinct.
-/

namespace Workbench

/-- A part of a generated workflow by the call that made it. A chain of segments
is linked from the left. -/
inductive Part
  | action (id : Uuid)
  | branch (fork yes no join : Uuid)
  | loop (head tail : Uuid) (body : Part) (after : Uuid)
  | link (first second : Part)

/-- A loop with the part that was made for its body. -/
structure Round where
  head : Uuid
  tail : Uuid
  body : Part

/-- What loops and edges see of a node. Unless more is said, it is an enabled
action. -/
structure Mark where
  id : Uuid
  isLoop : Bool := false
  closes? : Option Uuid := none
  category : StepCategory := .action
  ports : List (Option Port) := [none]
  enabled : Bool := true

/-- The mark of an enabled node for a step. -/
def Step.mark (step : Step) (id : Uuid) : Mark where
  id := id
  isLoop := step.isLoop
  closes? := step.closes?
  category := step.category
  ports := step.ports

def Node.mark (node : Node) : Mark :=
  { node.step.mark node.id with enabled := node.enabled }

/-- The mark of a node where the flow divides. -/
def Mark.fork (id : Uuid) : Mark :=
  { id, category := .controlFlow, ports := [some .ifTrue, some .ifFalse] }

@[simp]
theorem Step.id_mark (step : Step) (id : Uuid) : (step.mark id).id = id := rfl

@[simp]
theorem Node.id_mark (node : Node) : node.mark.id = node.id := rfl

@[simp]
theorem Node.closes?_mark (node : Node) : node.mark.closes? = node.closes? :=
  rfl

@[simp]
theorem Mark.id_fork (id : Uuid) : (Mark.fork id).id = id := rfl

/-- The marks of the head and the end of a loop. -/
def Mark.ofLoop (head tail : Uuid) : List Mark :=
  [{ id := head, isLoop := true, category := .controlFlow,
      ports := [some .loopBody, some .loopDone] },
    { id := tail, closes? := some head, category := .controlFlow }]

namespace Part

def entry : Part → Uuid
  | action id => id
  | branch fork _ _ _ => fork
  | loop head _ _ _ => head
  | link first _ => first.entry

def exit : Part → Uuid
  | action id => id
  | branch _ _ _ join => join
  | loop _ _ _ after => after
  | link _ second => second.exit

/-- The identifiers of the nodes in the order in which they were created. -/
def ids : Part → List Uuid
  | action id => [id]
  | branch fork yes no join => [fork, yes, no, join]
  | loop head tail body after => head :: tail :: (body.ids ++ [after])
  | link first second => first.ids ++ second.ids

def marks : Part → List Mark
  | action id => [{ id }]
  | branch fork yes no join =>
      [.fork fork, { id := yes }, { id := no }, { id := join }]
  | loop head tail body after =>
      Mark.ofLoop head tail ++ body.marks ++ [{ id := after }]
  | link first second => first.marks ++ second.marks

def edges : Part → List Edge
  | action _ => []
  | branch fork yes no join =>
      [⟨fork, yes, some .ifTrue⟩, ⟨fork, no, some .ifFalse⟩, ⟨yes, join, none⟩,
        ⟨no, join, none⟩]
  | loop head tail body after =>
      ⟨tail, head, none⟩ :: body.edges ++
        [⟨head, body.entry, some .loopBody⟩] ++
        [⟨body.exit, tail, none⟩] ++ [⟨head, after, some .loopDone⟩]
  | link first second =>
      first.edges ++ second.edges ++ [⟨first.exit, second.entry, none⟩]

/-- The loops made in the part, in the order of their heads. -/
def rounds : Part → List Round
  | action _ => []
  | branch _ _ _ _ => []
  | loop head tail body _ => ⟨head, tail, body⟩ :: body.rounds
  | link first second => first.rounds ++ second.rounds

/-- Each node with the loops whose bodies were in the making when it was
created, the outermost first, if the given ones were when the part was begun. -/
def places (running : List Uuid) : Part → List (Uuid × List Uuid)
  | action id => [(id, running)]
  | branch fork yes no join =>
      [(fork, running), (yes, running), (no, running), (join, running)]
  | loop head tail body after =>
      (head, running) :: (tail, running) ::
        (body.places (running ++ [head]) ++ [(after, running)])
  | link first second => first.places running ++ second.places running

/-- How deep loops are nested. -/
def nesting : Part → Nat
  | action _ => 0
  | branch _ _ _ _ => 0
  | loop _ _ body _ => body.nesting + 1
  | link first second => max first.nesting second.nesting

def Joins (part : Part) (a b : Uuid) : Prop :=
  ∃ edge ∈ part.edges, edge.source = a ∧ edge.target = b

variable {part : Part} {round : Round} {edge : Edge}

/-! ## Identifiers -/

theorem map_id_marks (part : Part) : part.marks.map (·.id) = part.ids := by
  induction part with
  | action | branch => rfl
  | loop head tail body after ih => simp [marks, Mark.ofLoop, ids, ih]
  | link first second ih₁ ih₂ => simp [marks, ids, ih₁, ih₂]

theorem entry_mem_ids (part : Part) : part.entry ∈ part.ids := by
  induction part with
  | action | branch | loop => simp [entry, ids]
  | link first second ih₁ ih₂ => simp [entry, ids, ih₁]

theorem exit_mem_ids (part : Part) : part.exit ∈ part.ids := by
  induction part with
  | action | branch | loop => simp [exit, ids]
  | link first second ih₁ ih₂ => simp [exit, ids, ih₂]

theorem nodup_loop {head tail after : Uuid} {body : Part}
    (h : (loop head tail body after).ids.Nodup) :
    head ≠ tail ∧ head ∉ body.ids ∧ head ≠ after ∧ tail ∉ body.ids ∧
      tail ≠ after ∧ after ∉ body.ids ∧ body.ids.Nodup := by
  simp only [ids, List.nodup_cons, List.mem_cons, List.mem_append,
    List.not_mem_nil, or_false, not_or, List.nodup_append',
    List.disjoint_singleton] at h
  obtain ⟨⟨hne, hhead, hafter⟩, ⟨htail, hlast⟩, hbody, -, hout⟩ := h
  exact ⟨hne, hhead, hafter, htail, hlast, hout, hbody⟩

theorem nodup_link {first second : Part} (h : (link first second).ids.Nodup) :
    first.ids.Nodup ∧ second.ids.Nodup ∧ first.ids.Disjoint second.ids :=
  List.nodup_append'.1 h

/-! ## Edges -/

theorem mem_edges_branch {fork yes no join : Uuid} :
    edge ∈ (branch fork yes no join).edges ↔
      edge = ⟨fork, yes, some .ifTrue⟩ ∨ edge = ⟨fork, no, some .ifFalse⟩ ∨
        edge = ⟨yes, join, none⟩ ∨ edge = ⟨no, join, none⟩ := by
  simp [edges]

theorem mem_edges_loop {head tail after : Uuid} {body : Part} :
    edge ∈ (loop head tail body after).edges ↔
      edge = ⟨tail, head, none⟩ ∨ edge ∈ body.edges ∨
        edge = ⟨head, body.entry, some .loopBody⟩ ∨
        edge = ⟨body.exit, tail, none⟩ ∨
        edge = ⟨head, after, some .loopDone⟩ := by
  simp [edges]

theorem mem_edges_link {first second : Part} :
    edge ∈ (link first second).edges ↔
      edge ∈ first.edges ∨ edge ∈ second.edges ∨
        edge = ⟨first.exit, second.entry, none⟩ := by
  simp [edges]

theorem ends_mem_ids (h : edge ∈ part.edges) :
    edge.source ∈ part.ids ∧ edge.target ∈ part.ids := by
  induction part with
  | action => simp [edges] at h
  | branch =>
      rcases mem_edges_branch.1 h with rfl | rfl | rfl | rfl <;> simp [ids]
  | loop head tail body after ih =>
      rcases mem_edges_loop.1 h with rfl | hbody | rfl | rfl | rfl
      · simp [ids]
      · simp [ids, ih hbody]
      · simp [ids, entry_mem_ids]
      · simp [ids, exit_mem_ids]
      · simp [ids]
  | link first second ih₁ ih₂ =>
      rcases mem_edges_link.1 h with hfirst | hsecond | rfl
      · simp [ids, ih₁ hfirst]
      · simp [ids, ih₂ hsecond]
      · simp [ids, entry_mem_ids, exit_mem_ids]

/-- No edge leaves the exit, so one can be added. -/
theorem exit_free (hids : part.ids.Nodup) (h : edge ∈ part.edges) :
    edge.source ≠ part.exit := by
  induction part with
  | action => simp [edges] at h
  | branch fork yes no join =>
      simp only [ids, List.nodup_cons, List.mem_cons, List.not_mem_nil,
        or_false, not_or] at hids
      rcases mem_edges_branch.1 h with rfl | rfl | rfl | rfl <;>
        simp [exit, hids]
  | loop head tail body after ih =>
      obtain ⟨hne, hhead, hafter, htail, hlast, hout, hbody⟩ := nodup_loop hids
      rcases mem_edges_loop.1 h with rfl | hedge | rfl | rfl | rfl
      · exact hlast
      · exact ne_of_mem_of_not_mem (ends_mem_ids hedge).1 hout
      · exact hafter
      · exact ne_of_mem_of_not_mem body.exit_mem_ids hout
      · exact hafter
  | link first second ih₁ ih₂ =>
      obtain ⟨hfirst, hsecond, hdisjoint⟩ := nodup_link hids
      have hout : second.exit ∉ first.ids :=
        fun h => hdisjoint h second.exit_mem_ids
      rcases mem_edges_link.1 h with hedge | hedge | rfl
      · exact ne_of_mem_of_not_mem (ends_mem_ids hedge).1 hout
      · exact ih₂ hsecond hedge
      · exact ne_of_mem_of_not_mem first.exit_mem_ids hout

theorem reaches_mono {other : Part} {a b : Uuid}
    (h : Relation.ReflTransGen part.Joins a b)
    (hsub : ∀ edge ∈ part.edges, edge ∈ other.edges) :
    Relation.ReflTransGen other.Joins a b := by
  refine Relation.ReflTransGen.mono (fun c d hjoin => ?_) a b h
  obtain ⟨edge, hedge, hends⟩ := hjoin
  exact ⟨edge, hsub edge hedge, hends⟩

/-- All of a part can be reached from its entry. -/
theorem reaches_of_mem_ids {v : Uuid} (hv : v ∈ part.ids) :
    Relation.ReflTransGen part.Joins part.entry v := by
  induction part generalizing v with
  | action id =>
      obtain rfl : v = id := by simpa [ids] using hv
      exact .refl
  | branch fork yes no join =>
      have hyes : (branch fork yes no join).Joins fork yes :=
        ⟨_, mem_edges_branch.2 (.inl rfl), rfl, rfl⟩
      have hno : (branch fork yes no join).Joins fork no :=
        ⟨_, mem_edges_branch.2 (.inr (.inl rfl)), rfl, rfl⟩
      have hjoin : (branch fork yes no join).Joins yes join :=
        ⟨_, mem_edges_branch.2 (.inr (.inr (.inl rfl))), rfl, rfl⟩
      simp only [ids, List.mem_cons, List.not_mem_nil, or_false] at hv
      rcases hv with rfl | rfl | rfl | rfl
      · exact .refl
      · exact .single hyes
      · exact .single hno
      · exact (Relation.ReflTransGen.single hyes).tail hjoin
  | loop head tail body after ih =>
      have hentry : (loop head tail body after).Joins head body.entry :=
        ⟨_, mem_edges_loop.2 (.inr (.inr (.inl rfl))), rfl, rfl⟩
      have hexit : (loop head tail body after).Joins body.exit tail :=
        ⟨_, mem_edges_loop.2 (.inr (.inr (.inr (.inl rfl)))), rfl, rfl⟩
      have hafter : (loop head tail body after).Joins head after :=
        ⟨_, mem_edges_loop.2 (.inr (.inr (.inr (.inr rfl)))), rfl, rfl⟩
      have hbody : ∀ w ∈ body.ids,
          Relation.ReflTransGen (loop head tail body after).Joins head w :=
        fun w hw =>
        .head hentry
          (reaches_mono (ih hw) fun _ h => mem_edges_loop.2 (.inr (.inl h)))
      simp only [ids, List.mem_cons, List.mem_append, List.not_mem_nil,
        or_false] at hv
      rcases hv with rfl | rfl | hv | rfl
      · exact .refl
      · exact (hbody _ body.exit_mem_ids).tail hexit
      · exact hbody v hv
      · exact .single hafter
  | link first second ih₁ ih₂ =>
      have hjoin : (link first second).Joins first.exit second.entry :=
        ⟨_, mem_edges_link.2 (.inr (.inr rfl)), rfl, rfl⟩
      have hfirst : ∀ w ∈ first.ids,
          Relation.ReflTransGen (link first second).Joins first.entry w :=
        fun w hw =>
        reaches_mono (ih₁ hw) fun _ h => mem_edges_link.2 (.inl h)
      rcases List.mem_append.1 hv with hv | hv
      · exact hfirst v hv
      · have hsecond :
            Relation.ReflTransGen (link first second).Joins second.entry v :=
          reaches_mono (ih₂ hv) fun _ h => mem_edges_link.2 (.inr (.inl h))
        exact ((hfirst _ first.exit_mem_ids).tail hjoin).trans hsecond

/-! ## Loops in a part -/

theorem sublist_ids (h : round ∈ part.rounds) :
    (round.head :: round.tail :: round.body.ids).Sublist part.ids := by
  induction part with
  | action | branch => simp [rounds] at h
  | loop head tail body after ih =>
      rcases List.mem_cons.1 h with rfl | h
      · exact ((List.sublist_append_left _ _).cons_cons _).cons_cons _
      · exact (((ih h).trans (List.sublist_append_left _ _)).cons _).cons _
  | link first second ih₁ ih₂ =>
      rcases List.mem_append.1 h with h | h
      · exact (ih₁ h).trans (List.sublist_append_left _ _)
      · exact (ih₂ h).trans (List.sublist_append_right _ _)

theorem mem_ids_of_mem_body {v : Uuid} (h : round ∈ part.rounds)
    (hv : v ∈ round.body.ids) : v ∈ part.ids :=
  (sublist_ids h).subset (List.mem_cons_of_mem _ (List.mem_cons_of_mem _ hv))

theorem head_mem_ids (h : round ∈ part.rounds) : round.head ∈ part.ids :=
  (sublist_ids h).subset (List.mem_cons_self ..)

theorem nodup_round (hids : part.ids.Nodup) (h : round ∈ part.rounds) :
    round.head ≠ round.tail ∧ round.head ∉ round.body.ids ∧
      round.tail ∉ round.body.ids ∧
      round.body.ids.Nodup := by
  have hnodup := hids.sublist (sublist_ids h)
  simp only [List.nodup_cons, List.mem_cons, not_or] at hnodup
  obtain ⟨⟨hne, hhead⟩, htail, hbody⟩ := hnodup
  exact ⟨hne, hhead, htail, hbody⟩

theorem exit_not_mem_body (hids : part.ids.Nodup) (h : round ∈ part.rounds) :
    part.exit ∉ round.body.ids := by
  induction part with
  | action | branch => simp [rounds] at h
  | loop head tail body after ih =>
      obtain ⟨_, _, _, _, _, hout, _⟩ := nodup_loop hids
      rcases List.mem_cons.1 h with rfl | h
      · exact hout
      · exact fun hmem => hout (mem_ids_of_mem_body h hmem)
  | link first second ih₁ ih₂ =>
      obtain ⟨_, hsecond, hdisjoint⟩ := nodup_link hids
      rcases List.mem_append.1 h with h | h
      · exact fun hmem =>
          hdisjoint (mem_ids_of_mem_body h hmem) second.exit_mem_ids
      · exact ih₂ hsecond h

/-- An edge that leaves a node of a body leads to the body or to the end of the
loop. -/
theorem leaves_body (hids : part.ids.Nodup) (h : round ∈ part.rounds)
    (hedge : edge ∈ part.edges) (hsource : edge.source ∈ round.body.ids) :
    edge.target ∈ round.body.ids ∨ edge.target = round.tail := by
  induction part with
  | action | branch => simp [rounds] at h
  | loop head tail body after ih =>
      obtain ⟨_, hhead, _, htail, _, _, hbody⟩ := nodup_loop hids
      have hinner : ∀ {v}, v ∈ round.body.ids → v ∈ body.ids := by
        rcases List.mem_cons.1 h with rfl | h
        · exact id
        · exact mem_ids_of_mem_body h
      rcases mem_edges_loop.1 hedge with rfl | hedge | rfl | rfl | rfl
      · exact absurd (hinner hsource) htail
      · rcases List.mem_cons.1 h with rfl | h
        · exact .inl (ends_mem_ids hedge).2
        · exact ih hbody h hedge
      · exact absurd (hinner hsource) hhead
      · rcases List.mem_cons.1 h with rfl | h
        · exact .inr rfl
        · exact absurd hsource (exit_not_mem_body hbody h)
      · exact absurd (hinner hsource) hhead
  | link first second ih₁ ih₂ =>
      obtain ⟨hfirst, hsecond, hdisjoint⟩ := nodup_link hids
      rcases List.mem_append.1 h with h | h
      · rcases mem_edges_link.1 hedge with hedge | hedge | rfl
        · exact ih₁ hfirst h hedge
        · exact absurd (ends_mem_ids hedge).1
            (hdisjoint (mem_ids_of_mem_body h hsource))
        · exact absurd hsource (exit_not_mem_body hfirst h)
      · have hout : edge.source ∉ first.ids := fun hmem =>
          hdisjoint hmem (mem_ids_of_mem_body h hsource)
        rcases mem_edges_link.1 hedge with hedge | hedge | rfl
        · exact absurd (ends_mem_ids hedge).1 hout
        · exact ih₂ hsecond h hedge
        · exact absurd first.exit_mem_ids hout

theorem mem_edges_of_body (h : round ∈ part.rounds)
    (hedge : edge ∈ round.body.edges) : edge ∈ part.edges := by
  induction part with
  | action | branch => simp [rounds] at h
  | loop head tail body after ih =>
      rcases List.mem_cons.1 h with rfl | h
      · exact mem_edges_loop.2 (.inr (.inl hedge))
      · exact mem_edges_loop.2 (.inr (.inl (ih h)))
  | link first second ih₁ ih₂ =>
      rcases List.mem_append.1 h with h | h
      · exact mem_edges_link.2 (.inl (ih₁ h))
      · exact mem_edges_link.2 (.inr (.inl (ih₂ h)))

theorem body_edge_mem (h : round ∈ part.rounds) :
    (⟨round.head, round.body.entry, some .loopBody⟩ : Edge) ∈ part.edges := by
  induction part with
  | action | branch => simp [rounds] at h
  | loop head tail body after ih =>
      rcases List.mem_cons.1 h with rfl | h
      · exact mem_edges_loop.2 (.inr (.inr (.inl rfl)))
      · exact mem_edges_loop.2 (.inr (.inl (ih h)))
  | link first second ih₁ ih₂ =>
      rcases List.mem_append.1 h with h | h
      · exact mem_edges_link.2 (.inl (ih₁ h))
      · exact mem_edges_link.2 (.inr (.inl (ih₂ h)))

theorem target_of_body_edge (hids : part.ids.Nodup) (h : round ∈ part.rounds)
    (hedge : edge ∈ part.edges) (hsource : edge.source = round.head)
    (hport : edge.port = some .loopBody) : edge.target = round.body.entry := by
  induction part with
  | action | branch => simp [rounds] at h
  | loop head tail body after ih =>
      obtain ⟨hne, hhead, _, htail, _, _, hbody⟩ := nodup_loop hids
      rcases mem_edges_loop.1 hedge with rfl | hedge | rfl | rfl | rfl
      · cases hport
      · rcases List.mem_cons.1 h with rfl | h
        · exact absurd hsource
            (ne_of_mem_of_not_mem (ends_mem_ids hedge).1 hhead)
        · exact ih hbody h hedge
      · rcases List.mem_cons.1 h with rfl | h
        · rfl
        · exact absurd hsource.symm
            (ne_of_mem_of_not_mem (head_mem_ids h) hhead)
      · cases hport
      · cases hport
  | link first second ih₁ ih₂ =>
      obtain ⟨hfirst, hsecond, hdisjoint⟩ := nodup_link hids
      rcases mem_edges_link.1 hedge with hedge | hedge | rfl
      · rcases List.mem_append.1 h with h | h
        · exact ih₁ hfirst h hedge
        · exact absurd (head_mem_ids h)
            (hdisjoint (hsource ▸ (ends_mem_ids hedge).1))
      · rcases List.mem_append.1 h with h | h
        · exact absurd (hsource ▸ (ends_mem_ids hedge).1)
            (hdisjoint (head_mem_ids h))
        · exact ih₂ hsecond h hedge
      · cases hport

/-! ## Marks -/

theorem heads_eq (part : Part) :
    (part.marks.filter (·.isLoop)).map (·.id) = part.rounds.map (·.head) := by
  induction part with
  | action | branch => rfl
  | loop head tail body after ih => simp [marks, Mark.ofLoop, rounds, ih]
  | link first second ih₁ ih₂ => simp [marks, rounds, ih₁, ih₂]

theorem nodup_heads (hids : part.ids.Nodup) :
    (part.rounds.map (·.head)).Nodup := by
  rw [← heads_eq]
  rw [← map_id_marks] at hids
  exact hids.sublist (List.filter_sublist.map _)

theorem exists_closes_iff {head tail : Uuid} :
    (∃ mark ∈ part.marks, mark.closes? = some head ∧ mark.id = tail) ↔
      ∃ round ∈ part.rounds, round.head = head ∧ round.tail = tail := by
  induction part with
  | action | branch => simp [marks, Mark.fork, rounds]
  | loop head tail body after ih =>
      simp [marks, Mark.ofLoop, rounds, or_and_right, exists_or, ih]
  | link first second ih₁ ih₂ =>
      simp [marks, rounds, or_and_right, exists_or, ih₁, ih₂]

/-! ## How bodies nest -/

/-- Of two loops in a part the later one lies in the body of the other or clear
of it. -/
theorem pairwise_rounds (hids : part.ids.Nodup) :
    part.rounds.Pairwise fun a b =>
      (b.head :: b.tail :: b.body.ids).Sublist a.body.ids ∨
        a.body.ids.Disjoint b.body.ids := by
  induction part with
  | action | branch => exact .nil
  | loop head tail body after ih =>
      obtain ⟨_, _, _, _, _, _, hbody⟩ := nodup_loop hids
      exact .cons (fun _ h => .inl (sublist_ids h)) (ih hbody)
  | link first second ih₁ ih₂ =>
      obtain ⟨hfirst, hsecond, hdisjoint⟩ := nodup_link hids
      refine List.pairwise_append.2
        ⟨ih₁ hfirst, ih₂ hsecond, fun a ha b hb => .inr ?_⟩
      exact fun v hva hvb =>
        hdisjoint (mem_ids_of_mem_body ha hva) (mem_ids_of_mem_body hb hvb)

theorem nested_or_disjoint {a b : Round} (hids : part.ids.Nodup)
    (ha : a ∈ part.rounds) (hb : b ∈ part.rounds) (hne : a ≠ b) :
    a.body.ids.Disjoint b.body.ids ∨
      (b.head :: b.tail :: b.body.ids).Sublist a.body.ids ∨
      (a.head :: a.tail :: a.body.ids).Sublist b.body.ids := by
  have hpairwise := List.pairwise_iff_getElem.1 (pairwise_rounds hids)
  obtain ⟨i, hi, rfl⟩ := List.getElem_of_mem ha
  obtain ⟨j, hj, rfl⟩ := List.getElem_of_mem hb
  rcases Nat.lt_trichotomy i j with hlt | rfl | hlt
  · rcases hpairwise i j hi hj hlt with hsub | hdisjoint
    · exact .inr (.inl hsub)
    · exact .inl hdisjoint
  · exact absurd rfl hne
  · rcases hpairwise j i hj hi hlt with hsub | hdisjoint
    · exact .inr (.inr hsub)
    · exact .inl fun v hv hw => hdisjoint hw hv

/-- The loops whose bodies contain the node. -/
def around (part : Part) (v : Uuid) : List Uuid :=
  (part.rounds.filter fun round => decide (v ∈ round.body.ids)).map (·.head)

theorem around_eq_nil {v : Uuid} (hv : v ∉ part.ids) : part.around v = [] := by
  rw [around, List.map_eq_nil_iff, List.filter_eq_nil_iff]
  intro round h
  simpa using fun hmem => hv (mem_ids_of_mem_body h hmem)

/-- The loops in the making when a node is created are those whose bodies
contain it. -/
theorem places_eq (hids : part.ids.Nodup) (running : List Uuid) :
    part.places running =
      part.ids.map fun v => (v, running ++ part.around v) := by
  induction part generalizing running with
  | action => simp [places, ids, around, rounds]
  | branch => simp [places, ids, around, rounds]
  | loop head tail body after ih =>
      obtain ⟨_, hhead, _, htail, _, hout, hbody⟩ := nodup_loop hids
      have houter : ∀ {v},
          v ∉ body.ids → (loop head tail body after).around v = [] := by
        intro v hv
        have hinner := around_eq_nil hv
        rw [around] at hinner ⊢
        simpa [rounds, hv] using hinner
      have hinner : ∀ {v}, v ∈ body.ids →
          (loop head tail body after).around v = head :: body.around v := by
        intro v hv
        simp [around, rounds, hv]
      simp [places, ids, ih hbody, houter hhead, houter htail, houter hout]
      exact fun v hv => (hinner hv).symm
  | link first second ih₁ ih₂ =>
      obtain ⟨hfirst, hsecond, hdisjoint⟩ := nodup_link hids
      have happend : ∀ v,
          (link first second).around v = first.around v ++ second.around v := by
        simp [around, rounds]
      rw [places, ih₁ hfirst, ih₂ hsecond, ids, List.map_append]
      congr 1
      · refine List.map_congr_left fun v hv => ?_
        rw [happend, around_eq_nil (hdisjoint hv), List.append_nil]
      · refine List.map_congr_left fun v hv => ?_
        rw [happend, around_eq_nil (fun h => hdisjoint h hv), List.nil_append]

theorem length_places_le {running now : List Uuid} {v : Uuid}
    (h : (v, now) ∈ part.places running) :
    now.length ≤ running.length + part.nesting := by
  induction part generalizing running with
  | action =>
      obtain ⟨-, rfl⟩ : v = _ ∧ now = running := by simpa [places] using h
      omega
  | branch =>
      have hnow : now = running := by
        simp only [places, List.mem_cons, List.not_mem_nil, or_false,
          Prod.mk.injEq] at h
        rcases h with ⟨-, h⟩ | ⟨-, h⟩ | ⟨-, h⟩ | ⟨-, h⟩ <;> exact h
      rw [hnow]
      omega
  | loop head tail body after ih =>
      rw [nesting]
      simp only [places, List.mem_cons, List.mem_append, List.not_mem_nil,
        or_false, Prod.mk.injEq] at h
      rcases h with ⟨-, rfl⟩ | ⟨-, rfl⟩ | h | ⟨-, rfl⟩
      · omega
      · omega
      · have hle := ih h
        rw [List.length_append, List.length_singleton] at hle
        omega
      · omega
  | link first second ih₁ ih₂ =>
      rw [nesting]
      rcases List.mem_append.1 h with h | h
      · exact Nat.le_trans (ih₁ h) (by omega)
      · exact Nat.le_trans (ih₂ h) (by omega)

end Part

end Workbench
