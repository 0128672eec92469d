import Mathlib.Data.Finset.Card
import Workbench.Proofs.Graph.Groups
import Workbench.Proofs.Graph.Worklist
import Workbench.Proofs.Loops.Order

/-!
# How long the searches of a workflow take

Two things are searched for with a queue: the body of a loop, and the sets of
enabled nodes that hang together. Neither search asks anything of the workflow.
Edges may form cycles, lead from a node to itself or to no node at all, and be
listed any number of times: what has entered the queue has not been marked
before, so the turns of a search are at most as many as the identifiers it can
meet. A body search meets targets of edges only, and the searches for groups
meet enabled nodes only, and all of them. Where fewer than two nodes are enabled
there is no group to search for; what is said of the searches holds then too.
-/

namespace Workbench.Workflow

variable {workflow : Workflow} {loopId : Uuid}

/-- The search for the body of a loop before its first turn: the head is marked,
and the entry, if there is one and it is not the head, is all that is queued. -/
def bodySearch (workflow : Workflow) (loopId : Uuid) : Worklist Uuid :=
  match workflow.bodyEntry? loopId with
  | none => .marked [loopId]
  | some entry => (Worklist.marked [loopId]).offer entry

theorem sound_bodySearch (workflow : Workflow) (loopId : Uuid) :
    (workflow.bodySearch loopId).Sound [loopId] := by
  unfold bodySearch
  split
  · exact Worklist.sound_marked _
  · exact Worklist.sound_offer_marked ..

/-- The walk starts as the search does. -/
theorem bodyWalk_eq (workflow : Workflow) (loopId : Uuid) :
    workflow.bodyWalk loopId =
      (workflow.arcsWithin loopId).walk (workflow.bodySearch loopId).seen
        (workflow.bodySearch loopId).queue := by
  cases hentry : workflow.bodyEntry? loopId with
  | none =>
      simp only [bodyWalk, bodySearch, hentry]
      rw [Worklist.marked, Arcs.walk_nil]
  | some entry =>
      simp only [bodyWalk, bodySearch, hentry]
      by_cases hhead : entry = loopId
      · have hnothing : (Worklist.marked [loopId]).offer entry =
            .marked [loopId] := by
          simp [Worklist.offer, Worklist.marked, hhead]
        rw [if_pos hhead, hnothing, Worklist.marked, Arcs.walk_nil]
      · rw [if_neg hhead, Worklist.offer_marked (by simpa using hhead)]

theorem taken_bodySearch (workflow : Workflow) (loopId : Uuid) :
    (workflow.bodySearch loopId).taken = [] := by
  unfold bodySearch
  split
  · rfl
  · rw [Worklist.offer]
    split <;> rfl

/-- What is queued at first is the target of an edge. -/
theorem exists_edge_of_mem_entered {id : Uuid}
    (h : id ∈ (workflow.bodySearch loopId).entered) :
    ∃ edge ∈ workflow.edges, edge.target = id := by
  unfold bodySearch at h
  split at h
  · cases h
  · next entry hentry =>
      rw [Worklist.offer] at h
      split at h
      · cases h
      · obtain rfl := List.mem_singleton.1 h
        obtain ⟨before, edge, after, hedges, _, htarget, _⟩ :=
          bodyEntry?_eq_some_iff.1 hentry
        exact ⟨edge, by simp [hedges], htarget⟩

/-- The search for a body comes to an end after so many turns: no identifier has
been queued twice, and the body is what has been taken from the queue, without
the boundary. -/
structure BodySearched (workflow : Workflow) (loopId : Uuid) (turns : Nat)
    (last : Worklist Uuid) : Prop where
  drains : Worklist.Drains (workflow.arcsWithin loopId)
    (workflow.bodySearch loopId) turns last
  queue_eq_nil : last.queue = []
  nodup : last.entered.Nodup
  taken_eq : last.taken = last.entered
  turns_eq : turns = last.taken.length
  turns_le : turns ≤ (workflow.edges.map (·.target)).toFinset.card
  body_eq : (workflow.loopBody loopId).toList =
    last.taken.filter fun id => workflow.boundary? loopId != some id

/-- The searches for what hangs together come to an end after so many turns in
all: every enabled identifier has been queued once by one of them, and what each
has taken is all that hangs together with an enabled node. Along the arcs of the
workflow these are its components. -/
structure GroupsSearched (workflow : Workflow) (arcs : Arcs Uuid) (turns : Nat)
    (runs : List (Worklist Uuid)) : Prop where
  searches :
    Worklist.Searches arcs [] (workflow.enabledNodes.map (·.id)) turns runs
  drained : ∀ run ∈ runs, run.queue = [] ∧ run.taken = run.entered
  entered_once : ∀ id,
    workflow.IsEnabled id → (runs.flatMap (·.entered)).count id = 1
  turns_eq : turns = (runs.flatMap (·.taken)).length
  turns_eq_card : turns = (workflow.enabledNodes.map (·.id)).toFinset.card
  taken_eq : runs.map (·.taken) =
    arcs.walks [] (workflow.enabledNodes.map (·.id))
  together : ∀ run ∈ runs, ∃ start, workflow.IsEnabled start ∧
    ∀ v, v ∈ run.taken ↔ workflow.HangTogether start v
  components_eq : arcs = workflow.enabledArcs →
    runs.map (·.taken) = workflow.components

theorem bodySearched_of_drains {turns : Nat} {last : Worklist Uuid}
    (h : Worklist.Drains (workflow.arcsWithin loopId)
      (workflow.bodySearch loopId) turns last) :
    workflow.BodySearched loopId turns last := by
  have hsound := sound_bodySearch workflow loopId
  have hnodup := (h.sound hsound).nodup
  have htaken := h.taken_eq_entered hsound
  have hturns : turns = last.taken.length := by
    rw [h.length_taken, taken_bodySearch, List.length_nil, Nat.zero_add]
  have htarget : ∀ id ∈ last.entered, ∃ edge ∈ workflow.edges,
      edge.target = id := by
    refine h.forall_entered (fun a b harc => ?_) fun id =>
      exists_edge_of_mem_entered
    obtain ⟨⟨edge, hedge, -, htarget⟩, -⟩ := mem_arcsWithin.1 harc
    exact ⟨edge, hedge, htarget⟩
  refine ⟨h, h.queue_eq_nil, hnodup, htaken, hturns, ?_, ?_⟩
  · rw [hturns, htaken, ← List.toFinset_card_of_nodup hnodup]
    refine Finset.card_le_card fun id hid => ?_
    rw [List.mem_toFinset] at hid ⊢
    exact List.mem_map.2 (htarget id hid)
  · have hwalk := h.taken_eq
    rw [taken_bodySearch, List.nil_append, ← bodyWalk_eq] at hwalk
    rw [toList_loopBody, hwalk]

theorem groupsSearched_of_searches {arcs : Arcs Uuid}
    (harcs : workflow.EnabledArcs arcs) {turns : Nat}
    {runs : List (Worklist Uuid)}
    (h : Worklist.Searches arcs []
      (workflow.enabledNodes.map (·.id)) turns runs) :
    workflow.GroupsSearched arcs turns runs := by
  obtain ⟨hnodup, -⟩ := h.nodup
  have henabled : ∀ id, id ∈ runs.flatMap (·.entered) ↔
      id ∈ workflow.enabledNodes.map (·.id) := by
    refine fun id => ⟨fun hid => ?_, fun hid => ?_⟩
    · refine h.forall_entered (fun a b harc => ?_) (fun _ ha => ha) id hid
      exact isEnabled_iff.1 ((harcs a b).1 harc).2.1
    · exact (h.covers id hid).resolve_left List.not_mem_nil
  have htaken : runs.flatMap (·.taken) = runs.flatMap (·.entered) :=
    List.flatMap_congr fun run hrun => (h.drained run hrun).2
  refine ⟨h, h.drained, fun id hid => ?_, htaken ▸ h.turns_eq, ?_, h.taken_eq,
    fun run hrun => ?_, fun hown => ?_⟩
  · exact List.count_eq_one_of_mem hnodup
      ((henabled id).2 (isEnabled_iff.1 hid))
  · rw [h.turns_eq, ← List.toFinset_card_of_nodup hnodup]
    refine congrArg Finset.card (Finset.ext fun id => ?_)
    rw [List.mem_toFinset, List.mem_toFinset, henabled]
  · have hwalk : run.taken ∈ arcs.walks [] (workflow.enabledNodes.map (·.id)) :=
      h.taken_eq ▸ List.mem_map_of_mem hrun
    obtain ⟨start, hstart, htogether, -⟩ :=
      exists_start_of_mem_walks harcs hwalk
    exact ⟨start, hstart, htogether⟩
  · rw [h.taken_eq, hown, components]

/-- Both searches end on every workflow: the search for the body of any loop,
after no more turns than edges have different targets; and the searches for
groups, in whatever order they follow the edges between enabled nodes, after as
many turns as there are enabled identifiers. -/
theorem searches_end (workflow : Workflow) :
    (∀ loopId, ∃ turns last, workflow.BodySearched loopId turns last) ∧
      ∀ arcs, workflow.EnabledArcs arcs → ∃ turns runs,
        workflow.GroupsSearched arcs turns runs := by
  refine ⟨fun loopId => ?_, fun arcs harcs => ?_⟩
  · obtain ⟨turns, last, hdrains⟩ :=
      Worklist.exists_drains (workflow.arcsWithin loopId)
        (workflow.bodySearch loopId)
    exact ⟨turns, last, bodySearched_of_drains hdrains⟩
  · obtain ⟨turns, runs, hsearches⟩ :=
      Worklist.exists_searches arcs [] (workflow.enabledNodes.map (·.id))
    exact ⟨turns, runs, groupsSearched_of_searches harcs hsearches⟩

/-- A loop whose action leads to itself and back to the head, by one edge twice,
and to no node at all; a disabled action, and two nodes with one identifier. -/
def tangle : Workflow where
  id := .ofNat 0
  name := "tangle"
  nodes :=
    [{ id := .ofNat 1, name := "loop"
       step := .loop { exitCondition := ⟨"x", .isEmpty, .null⟩ } },
      { id := .ofNat 2, name := "act", step := .typeText {} },
      { id := .ofNat 3, name := "off", enabled := false, step := .typeText {} },
      { id := .ofNat 4, name := "End", step := .endLoop ⟨.ofNat 1⟩ },
      { id := .ofNat 2, name := "again", step := .typeText {} }]
  edges :=
    [⟨.ofNat 1, .ofNat 2, some .loopBody⟩, ⟨.ofNat 2, .ofNat 2, none⟩,
      ⟨.ofNat 2, .ofNat 1, none⟩, ⟨.ofNat 2, .ofNat 1, none⟩,
      ⟨.ofNat 2, .ofNat 9, none⟩, ⟨.ofNat 2, .ofNat 4, none⟩,
      ⟨.ofNat 4, .ofNat 3, none⟩]

theorem tangle_searches_end :
    (∃ turns last, tangle.BodySearched (.ofNat 1) turns last ∧ turns ≤ 5) ∧
      ∃ runs, tangle.GroupsSearched tangle.enabledArcs 3 runs := by
  obtain ⟨hbody, hgroups⟩ := searches_end tangle
  obtain ⟨turns, last, hlast⟩ := hbody (.ofNat 1)
  obtain ⟨total, runs, hruns⟩ :=
    hgroups tangle.enabledArcs (enabledArcs_enabledArcs tangle)
  refine ⟨⟨turns, last, hlast, hlast.turns_le.trans (by decide +kernel)⟩, runs,
    ?_⟩
  have htotal : total = 3 := hruns.turns_eq_card.trans (by decide +kernel)
  exact htotal ▸ hruns

end Workbench.Workflow
