import Mathlib.Data.List.Pairwise
import Workbench.Proofs.Workflow.Edit
import Workbench.Proofs.Workflow.Sound

/-!
# Editing keeps edges attached and ports single

An edge is attached if both its ends are nodes, and a port is single if at most
one edge leaves from it. Every editing operation keeps both, whatever the
identifiers are that it is given: an identifier may be used twice, a node may
change into another step, and a node removed may have shared its identifier with
one that stays.

Most operations only take edges away, or nodes that no remaining edge touches,
and for them `Wired.of_sublist` is the whole argument. Only `addEdge` brings an
edge in, and it looks at the ends and clears the port first.

For the check this leaves one thing that can be wrong with an edge: that its
source has no such port.
-/

namespace Workbench

namespace Workflow

variable {workflow : Workflow}

/-- Every edge has both its ends in the workflow, and no two edges share a
port. -/
structure Wired (workflow : Workflow) : Prop where
  source_exists : ∀ edge ∈ workflow.edges, workflow.contains edge.source = true
  target_exists : ∀ edge ∈ workflow.edges, workflow.contains edge.target = true
  port_single :
    workflow.edges.Pairwise fun a b => ¬ (a.source = b.source ∧ a.port = b.port)

theorem Sound.wired (h : workflow.Sound) : workflow.Wired where
  source_exists edge hedge := (h.contains_ends edge hedge).1
  target_exists edge hedge := (h.contains_ends edge hedge).2
  port_single := h.port_single

theorem Wired.eq_of_same_port (h : workflow.Wired) {a b : Edge}
    (ha : a ∈ workflow.edges) (hb : b ∈ workflow.edges)
    (hsource : a.source = b.source) (hport : a.port = b.port) : a = b := by
  by_contra hne
  have : Std.Symm fun a b : Edge => ¬ (a.source = b.source ∧ a.port = b.port) :=
    ⟨fun _ _ hdiffer hsame => hdiffer ⟨hsame.1.symm, hsame.2.symm⟩⟩
  exact h.port_single.forall ha hb hne ⟨hsource, hport⟩

theorem wired_of_edges_eq_nil (h : workflow.edges = []) : workflow.Wired := by
  refine ⟨?_, ?_, ?_⟩
  · rw [h]
    exact fun _ hedge => absurd hedge List.not_mem_nil
  · rw [h]
    exact fun _ hedge => absurd hedge List.not_mem_nil
  · rw [h]
    exact .nil

/-- Where no edge is new and the ends of those that stay are still there,
nothing can go wrong. -/
theorem Wired.of_sublist (h : workflow.Wired) {other : Workflow}
    (hsub : other.edges.Sublist workflow.edges)
    (hends : ∀ edge ∈ other.edges, workflow.contains edge.source = true →
      workflow.contains edge.target = true →
      other.contains edge.source = true ∧ other.contains edge.target = true) :
    other.Wired := by
  have hboth : ∀ edge ∈ other.edges,
      other.contains edge.source = true ∧
        other.contains edge.target = true := by
    intro edge hedge
    have hbefore := hsub.subset hedge
    exact hends edge hedge (h.source_exists edge hbefore)
      (h.target_exists edge hbefore)
  refine ⟨?_, ?_, h.port_single.sublist hsub⟩
  · exact fun edge hedge => (hboth edge hedge).1
  · exact fun edge hedge => (hboth edge hedge).2

/-- Nodes may change as long as the identifiers stay. -/
theorem Wired.of_ids_eq (h : workflow.Wired) {other : Workflow}
    (hedges : other.edges = workflow.edges)
    (hids : other.nodes.map (·.id) = workflow.nodes.map (·.id)) :
    other.Wired := by
  apply h.of_sublist
  · rw [hedges]
  · intro edge _ hsource htarget
    rw [contains_of_ids_eq hids, contains_of_ids_eq hids]
    exact ⟨hsource, htarget⟩

/-! ## One operation -/

theorem Wired.addNode (h : workflow.Wired) (node : Node) :
    (workflow.addNode node).Wired := by
  apply h.of_sublist
  · exact List.Sublist.refl _
  · intro edge _ hsource htarget
    exact ⟨contains_addNode.2 (.inl hsource), contains_addNode.2 (.inl htarget)⟩

theorem Wired.addEdge (h : workflow.Wired) (edge : Edge) :
    (workflow.addEdge edge).2.Wired := by
  cases hadmits : workflow.admits edge with
  | false => rwa [addEdge_of_not_admits hadmits]
  | true =>
      obtain ⟨hsource, htarget⟩ := admits_iff.1 hadmits
      refine ⟨?_, ?_, ?_⟩
      · intro other hother
        rw [contains_addEdge]
        obtain rfl | ⟨hother, -⟩ := (mem_edges_addEdge hadmits).1 hother
        · exact hsource
        · exact h.source_exists other hother
      · intro other hother
        rw [contains_addEdge]
        obtain rfl | ⟨hother, -⟩ := (mem_edges_addEdge hadmits).1 hother
        · exact htarget
        · exact h.target_exists other hother
      · rw [addEdge_of_admits hadmits]
        refine List.pairwise_append.2
          ⟨h.port_single.filter _, List.pairwise_singleton _ _, ?_⟩
        -- What is kept of the old edges left from other ports.
        intro kept hkept last hlast hsame
        obtain rfl := List.mem_singleton.1 hlast
        have hother := (List.mem_filter.1 hkept).2
        rw [Bool.not_eq_true', ← Bool.not_eq_true, Edge.leaves_iff] at hother
        exact hother hsame

theorem Wired.removeEdge (h : workflow.Wired) (edge : Edge) :
    (workflow.removeEdge edge).2.Wired := by
  apply h.of_sublist
  · exact List.filter_sublist
  · exact fun _ _ hsource htarget => ⟨hsource, htarget⟩

/-- An edge that stays touches no node with the identifier, so both its ends
stay too. -/
theorem Wired.removeNode (h : workflow.Wired) (id : Uuid) :
    (workflow.removeNode id).2.Wired := by
  cases hid : workflow.contains id with
  | false => rwa [removeNode_of_not_contains hid]
  | true =>
      apply h.of_sublist
      · rw [removeNode_of_contains hid]
        exact List.filter_sublist
      · intro edge hedge hsource htarget
        obtain ⟨-, hnesource, hnetarget⟩ := (mem_edges_removeNode hid).1 hedge
        exact ⟨contains_removeNode hnesource hsource,
          contains_removeNode hnetarget htarget⟩

theorem Wired.modifyNode (h : workflow.Wired) (id : Uuid) {change : Node → Node}
    (hkeeps : ∀ node, node.id = id → (change node).id = id) :
    (workflow.modifyNode id change).2.Wired :=
  h.of_ids_eq rfl (ids_modifyNode hkeeps)

theorem Wired.updateNode (h : workflow.Wired) (node : Node) :
    (workflow.updateNode node).2.Wired :=
  h.of_ids_eq rfl (ids_updateNode node)

theorem Wired.addLoop (h : workflow.Wired) (name : String) (loop : Loop)
    (loopId endId : Uuid) : (workflow.addLoop name loop loopId endId).Wired :=
  ((h.addNode _).addNode _).addEdge _

/-! ## Any operations in any order -/

/-- An editing operation with what it is given. -/
inductive Edit
  | addNode (node : Node)
  | addEdge (edge : Edge)
  | removeEdge (edge : Edge)
  | removeNode (id : Uuid)
  | updateNode (node : Node)
  /-- A change of the fields of a node, other than its identifier. -/
  | changeNode (id : Uuid) (change : Node → Node) (keeps_id : ∀ node,
      (change node).id = node.id)
  | addLoop (name : String) (loop : Loop) (loopId endId : Uuid)
  | rename (name : String)

/-- The workflow after an operation, whether it was refused or not. -/
def edited (workflow : Workflow) : Edit → Workflow
  | .addNode node => workflow.addNode node
  | .addEdge edge => (workflow.addEdge edge).2
  | .removeEdge edge => (workflow.removeEdge edge).2
  | .removeNode id => (workflow.removeNode id).2
  | .updateNode node => (workflow.updateNode node).2
  | .changeNode id change _ => (workflow.modifyNode id change).2
  | .addLoop name loop loopId endId => workflow.addLoop name loop loopId endId
  | .rename name => workflow.rename name

theorem Wired.edited (h : workflow.Wired) (edit : Edit) :
    (workflow.edited edit).Wired := by
  cases edit with
  | addNode node => exact h.addNode node
  | addEdge edge => exact h.addEdge edge
  | removeEdge edge => exact h.removeEdge edge
  | removeNode id => exact h.removeNode id
  | updateNode node => exact h.updateNode node
  | changeNode id change keeps_id =>
      exact h.modifyNode id fun node hid => (keeps_id node).trans hid
  | addLoop name loop loopId endId => exact h.addLoop name loop loopId endId
  | rename name => exact h.of_ids_eq rfl rfl

theorem Wired.foldl_edited (h : workflow.Wired) (edits : List Edit) :
    (edits.foldl Workflow.edited workflow).Wired := by
  induction edits generalizing workflow with
  | nil => exact h
  | cons edit rest ih => exact ih (h.edited edit)

end Workflow

/-! ## What the check can still find -/

/-- Whether the violation is one of an edge or of the edges at a port. -/
def Violation.ofEdges : Violation → Bool
  | .missingSource _ | .missingTarget _ | .repeatedEdge _ => true
  | .foreignPort .. | .crowdedPort .. => true
  | _ => false

namespace Workflow

variable {workflow : Workflow}

theorem not_ofEdges_of_mem_reusedIds {seen : List Uuid} {nodes : List Node}
    {violation : Violation} (h : violation ∈ reusedIds seen nodes) :
    violation.ofEdges = false := by
  obtain ⟨node, -, rfl⟩ := exists_of_mem_reusedIds h
  rfl

theorem not_ofEdges_of_mem_pairingViolations {node : Node}
    {violation : Violation} (h : violation ∈ workflow.pairingViolations node) :
    violation.ofEdges = false := by
  obtain ⟨loopId, rfl⟩ | ⟨target, rfl⟩ | ⟨ends, rfl⟩ | rfl :=
    cases_of_mem_pairingViolations h
  all_goals rfl

/-- An edge between existing nodes that repeats none before it can only be at
fault for its port. -/
theorem foreignPort_of_edgeViolation? {before : List Edge} {edge : Edge}
    {violation : Violation} (hadmits : workflow.admits edge = true)
    (hnew : edge ∉ before)
    (h : workflow.edgeViolation? before edge = some violation) :
    ∃ source, violation = .foreignPort edge source ∧
      workflow.find? edge.source = some source ∧
      edge.port ∉ source.step.ports := by
  obtain ⟨hsource, htarget⟩ := admits_iff.1 hadmits
  obtain ⟨source, hfind⟩ := exists_find?_iff.2 (contains_iff.1 hsource)
  unfold edgeViolation? at h
  simp only [hfind, htarget, Bool.not_true, Bool.false_eq_true, if_false,
    List.contains_iff_mem, hnew] at h
  split at h
  · next hport =>
      rw [Option.some.injEq] at h
      exact ⟨source, h.symm, hfind, by simpa using hport⟩
  · cases h

theorem foreignPort_of_mem_edgeViolations {before edges : List Edge}
    {violation : Violation}
    (hadmits : ∀ edge ∈ edges, workflow.admits edge = true)
    (hnodup : edges.Nodup) (hnew : ∀ edge ∈ edges, edge ∉ before)
    (h : violation ∈ workflow.edgeViolations before edges) :
    ∃ edge ∈ edges, ∃ source, violation = .foreignPort edge source ∧
      workflow.find? edge.source = some source ∧
      edge.port ∉ source.step.ports := by
  induction edges generalizing before with
  | nil => cases h
  | cons edge rest ih =>
      obtain ⟨hnot, hnodup⟩ := List.nodup_cons.1 hnodup
      rw [edgeViolations] at h
      rcases List.mem_append.1 h with h | h
      · obtain ⟨source, hsource⟩ :=
          foreignPort_of_edgeViolation? (hadmits edge (by simp))
          (hnew edge (by simp)) (Option.mem_toList.1 h)
        exact ⟨edge, List.mem_cons_self .., source, hsource⟩
      · have hrest : ∀ other ∈ rest, other ∉ edge :: before := by
          intro other hother hmem
          rcases List.mem_cons.1 hmem with rfl | hmem
          · exact hnot hother
          · exact hnew other (List.mem_cons_of_mem _ hother) hmem
        obtain ⟨other, hother, hsource⟩ :=
          ih (fun other hother => hadmits other (List.mem_cons_of_mem _ hother))
            hnodup hrest h
        exact ⟨other, List.mem_cons_of_mem _ hother, hsource⟩

theorem Wired.nodup_edges (h : workflow.Wired) : workflow.edges.Nodup :=
  nodup_of_port_single h.port_single

theorem Wired.crowdedPorts_eq_nil (h : workflow.Wired) :
    workflow.crowdedPorts = [] := by
  rw [crowdedPorts_eq_nil_iff,
    soundEdges_eq_edges h.nodup_edges fun edge hedge =>
    ⟨h.source_exists edge hedge, h.target_exists edge hedge⟩]
  exact fun node _ port _ => pairwise_port_iff.1 h.port_single node.id port

theorem Wired.foreignPort_of_ofEdges (h : workflow.Wired)
    {violation : Violation} (hviolation : violation ∈ workflow.violations)
    (hedges : violation.ofEdges = true) :
    ∃ edge ∈ workflow.edges, ∃ source, violation = .foreignPort edge source ∧
      workflow.find? edge.source = some source ∧
      edge.port ∉ source.step.ports := by
  unfold violations at hviolation
  rw [h.crowdedPorts_eq_nil, List.append_nil, List.mem_append, List.mem_append]
    at hviolation
  rcases hviolation with (hids | hfaults) | hpairs
  · rw [not_ofEdges_of_mem_reusedIds hids] at hedges
    cases hedges
  · have hadmits : ∀ edge ∈ workflow.edges, workflow.admits edge = true :=
      fun edge hedge =>
      admits_iff.2 ⟨h.source_exists edge hedge, h.target_exists edge hedge⟩
    exact foreignPort_of_mem_edgeViolations hadmits h.nodup_edges
      (fun _ _ => List.not_mem_nil) hfaults
  · obtain ⟨node, _, hpairs⟩ := List.mem_flatMap.1 hpairs
    rw [not_ofEdges_of_mem_pairingViolations hpairs] at hedges
    cases hedges

/-- Whatever the check says of edges, it says that one leaves from a port that
its source does not have. -/
def EdgesErrOnlyInPorts (workflow : Workflow) : Prop :=
  ∀ text ∈ workflow.check, ∃ violation ∈ workflow.violations,
    text = violation.message workflow ∧
    (violation.ofEdges = true → ∃ edge ∈ workflow.edges, ∃ source,
      violation = .foreignPort edge source ∧
        workflow.find? edge.source = some source ∧
        edge.port ∉ source.step.ports)

theorem Wired.edgesErrOnlyInPorts (h : workflow.Wired) :
    workflow.EdgesErrOnlyInPorts := by
  intro text htext
  obtain ⟨violation, hviolation, rfl⟩ := List.mem_map.1 htext
  exact ⟨violation, hviolation, rfl, h.foreignPort_of_ofEdges hviolation⟩

theorem edits_keep_wired (h : workflow.Wired) (edits : List Edit) :
    (edits.foldl edited workflow).Wired ∧
      (edits.foldl edited workflow).EdgesErrOnlyInPorts := by
  have hwired := h.foldl_edited edits
  exact ⟨hwired, hwired.edgesErrOnlyInPorts⟩

def blank : Workflow := { id := .ofNat 0, name := "blank" }

/-- Two nodes share an identifier, a port is taken twice, a branch loses the
ports that its edges leave from, and an edge is put where the first of the two
nodes was removed. -/
def carelessEdits : List Edit :=
  [.addNode
      { id := .ofNat 1, name := "fork"
        step := .ifThen ⟨⟨"x", .isEmpty, .null⟩⟩ },
    .addNode { id := .ofNat 2, name := "one", step := .typeText {} },
    .addNode { id := .ofNat 2, name := "other", step := .typeText {} },
    .addEdge ⟨.ofNat 1, .ofNat 2, some .ifTrue⟩,
    .addLoop "again" { exitCondition := ⟨"x", .isEmpty, .null⟩ }
      (.ofNat 3) (.ofNat 4),
    .addEdge ⟨.ofNat 1, .ofNat 3, some .ifTrue⟩,
    .updateNode { id := .ofNat 1, name := "plain", step := .typeText {} },
    .removeNode (.ofNat 2),
    .addEdge ⟨.ofNat 3, .ofNat 2, some .loopBody⟩]

theorem carelessEdits_keep_wired :
    blank.Wired ∧ (carelessEdits.foldl edited blank).edges.map (·.port) =
        [none, some .ifTrue, some .loopBody] ∧
      (carelessEdits.foldl edited blank).Wired ∧
      (carelessEdits.foldl edited blank).EdgesErrOnlyInPorts :=
  ⟨wired_of_edges_eq_nil rfl, rfl,
    edits_keep_wired (wired_of_edges_eq_nil rfl) carelessEdits⟩

end Workflow

end Workbench
