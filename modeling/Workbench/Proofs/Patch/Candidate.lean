import Mathlib.Data.List.Nodup
import Workbench.Patch.Basic
import Workbench.Proofs.Workflow.Lookup

/-!
# What a candidate holds

One patch may say several things of one identifier: update it twice, remove it,
and add it again. Which of these counts is seen from where the candidate keeps
its nodes. Those that stay come first, in their old order, and they are all that
updates reach; the added nodes follow as they are. Whether a node stays depends
on its identifier only, and an update has the identifier of what it replaces
(`Patch.id_revise`). So the identifiers of a candidate are known without a look
at the updates, and a look-up comes to a node that stays if there is one, and
only then to an added one.

`Workflow.Patched` says what is to be expected of a candidate in terms of
look-ups, identifiers and numbers of edges.
-/

namespace Workbench

namespace Patch

variable {patch : Patch}

theorem keepsNode_iff {id : Uuid} :
    patch.keepsNode id = true ↔ id ∉ patch.removedNodes := by
  rw [keepsNode, Bool.not_eq_true', ← Bool.not_eq_true, List.contains_iff_mem]

theorem keepsEdge_iff {edge : Edge} :
    patch.keepsEdge edge = true ↔ edge ∉ patch.removedEdges := by
  rw [keepsEdge, Bool.not_eq_true', ← Bool.not_eq_true, List.contains_iff_mem]

theorem mem_of_update? {id : Uuid} {update : Node}
    (h : patch.update? id = some update) :
    update ∈ patch.updatedNodes ∧ update.id = id := by
  have hid := List.find?_some h
  exact ⟨List.mem_reverse.1 (List.mem_of_find?_eq_some h), beq_iff_eq.1 hid⟩

/-- What takes the place of a node has its identifier. -/
theorem id_revise (patch : Patch) (node : Node) :
    (patch.revise node).id = node.id := by
  unfold revise
  cases hupdate : patch.update? node.id with
  | none => rfl
  | some update => exact (mem_of_update? hupdate).2

end Patch

namespace Workflow

variable {workflow : Workflow} {patch : Patch}

/-- Every node of the candidate comes from the workflow or from the patch. -/
theorem mem_nodes_candidate {node : Node}
    (h : node ∈ (workflow.candidate patch).nodes) :
    node ∈ workflow.nodes ∨ node ∈ patch.updatedNodes ∨
      node ∈ patch.addedNodes := by
  rcases List.mem_append.1 h with h | h
  · obtain ⟨old, hold, rfl⟩ := List.mem_map.1 h
    have hmem := (List.mem_filter.1 hold).1
    cases hupdate : patch.update? old.id with
    | none =>
        rw [Patch.revise, hupdate]
        exact .inl hmem
    | some update =>
        rw [Patch.revise, hupdate]
        exact .inr (.inl (Patch.mem_of_update? hupdate).1)
  · exact .inr (.inr h)

theorem mem_edges_candidate {edge : Edge}
    (h : edge ∈ (workflow.candidate patch).edges) :
    edge ∈ workflow.edges ∨ edge ∈ patch.addedEdges :=
  (List.mem_append.1 h).imp_left fun h => (List.mem_filter.1 h).1

theorem candidate_of_isEmpty (workflow : Workflow) (h : patch.isEmpty = true) :
    workflow.candidate patch = workflow := by
  simp only [Patch.isEmpty, Bool.and_eq_true, List.isEmpty_iff, and_assoc] at h
  obtain ⟨hadded, hremoved, hupdated, haddedEdges, hremovedEdges⟩ := h
  have hrevise : patch.revise = fun node => node := by
    funext node
    rw [Patch.revise, Patch.update?, hupdated]
    rfl
  have hkeeps : (fun node : Node => patch.keepsNode node.id) =
      fun _ => true := by
    funext node
    rw [Patch.keepsNode, hremoved]
    rfl
  have hkeepsEdge : patch.keepsEdge = fun _ => true := by
    funext edge
    rw [Patch.keepsEdge, hremovedEdges]
    rfl
  rw [candidate, hrevise, hkeeps, hkeepsEdge, hadded, haddedEdges,
    List.filter_true, List.filter_true, List.map_id', List.append_nil,
    List.append_nil]

/-! ## Nodes that stay -/

/-- The nodes that a patch leaves in a workflow, each replaced by its update. -/
def stayingNodes (workflow : Workflow) (patch : Patch) : List Node :=
  (workflow.nodes.filter (patch.keepsNode ·.id)).map patch.revise

theorem nodes_candidate (workflow : Workflow) (patch : Patch) :
    (workflow.candidate patch).nodes =
      workflow.stayingNodes patch ++ patch.addedNodes := rfl

/-- Only their removal decides on the identifiers that stay. -/
theorem ids_stayingNodes (workflow : Workflow) (patch : Patch) :
    (workflow.stayingNodes patch).map (·.id) =
      (workflow.nodes.map (·.id)).filter patch.keepsNode := by
  have hid : (fun node : Node => node.id) ∘ patch.revise =
      fun node => node.id :=
    funext patch.id_revise
  rw [stayingNodes, List.map_map, hid, List.filter_map]
  rfl

theorem mem_ids_stayingNodes {id : Uuid} :
    id ∈ (workflow.stayingNodes patch).map (·.id) ↔
      workflow.contains id = true ∧ id ∉ patch.removedNodes := by
  rw [ids_stayingNodes, List.mem_filter, Patch.keepsNode_iff, contains_iff,
    List.mem_map]

theorem find?_stayingNodes_of_stays {id : Uuid}
    (hid : workflow.contains id = true) (hstays : id ∉ patch.removedNodes) :
    (workflow.stayingNodes patch).find? (·.id == id) =
      (patch.update? id).or (workflow.find? id) := by
  have hrevise : (fun node : Node => node.id == id) ∘ patch.revise =
      fun node => node.id == id := by
    funext node
    rw [Function.comp_apply, patch.id_revise]
  have hkeeps : (fun node : Node =>
      decide (patch.keepsNode node.id = true ∧ (node.id == id) = true)) =
      fun node => node.id == id := by
    funext node
    rw [Bool.eq_iff_iff, decide_eq_true_eq, beq_iff_eq]
    exact and_iff_right_of_imp fun heq => heq ▸ Patch.keepsNode_iff.2 hstays
  obtain ⟨node, hfind⟩ := exists_find?_iff.2 (contains_iff.1 hid)
  rw [stayingNodes, List.find?_map, hrevise, List.find?_filter, hkeeps, ← find?,
    hfind, Option.map_some, Patch.revise, (mem_of_find? hfind).2]
  cases patch.update? id <;> rfl

theorem find?_stayingNodes_of_leaves {id : Uuid}
    (h : workflow.contains id = false ∨ id ∈ patch.removedNodes) :
    (workflow.stayingNodes patch).find? (·.id == id) = none := by
  rw [List.find?_eq_none]
  intro node hnode heq
  have hid :=
    mem_ids_stayingNodes.1 (List.mem_map.2 ⟨node, hnode, beq_iff_eq.1 heq⟩)
  rcases h with h | h
  · exact Bool.false_ne_true (h.symm.trans hid.1)
  · exact hid.2 h

/-! ## All together -/

/-- The candidate is the workflow with the patch applied. A node of the workflow
that is not removed is found as its last update, or as it was without one; under
any other identifier the first added node is found. The places of nodes go by
their identifiers, and updates change none of them. Of every edge all copies
stay, or none if the patch removes it, whether or not the ends of the edge stay.
What the patch adds comes last and as it is. -/
structure Patched (workflow : Workflow) (patch : Patch) (candidate : Workflow) :
    Prop where
  id_eq : candidate.id = workflow.id
  name_eq : candidate.name = workflow.name
  find?_of_stays : ∀ id, workflow.contains id = true → id ∉ patch.removedNodes →
    candidate.find? id =
      (patch.updatedNodes.filter (·.id == id)).getLast?.or (workflow.find? id)
  find?_of_leaves : ∀ id,
    workflow.contains id = false ∨ id ∈ patch.removedNodes →
    candidate.find? id = patch.addedNodes.find? (·.id == id)
  nodes : ∃ staying, candidate.nodes = staying ++ patch.addedNodes ∧
    staying.map (·.id) =
      (workflow.nodes.map (·.id)).filter fun id => id ∉ patch.removedNodes
  nodup_iff : (candidate.nodes.map (·.id)).Nodup ↔
    (patch.addedNodes.map (·.id)).Nodup ∧
      ∀ node ∈ patch.addedNodes, ¬ (workflow.contains node.id = true ∧
        node.id ∉ patch.removedNodes)
  edges : ∃ staying, candidate.edges = staying ++ patch.addedEdges ∧
    staying.Sublist workflow.edges ∧
      ∀ edge, staying.count edge =
        if edge ∈ patch.removedEdges then 0 else workflow.edges.count edge
  of_isEmpty : patch.isEmpty = true → candidate = workflow

theorem nodup_ids_candidate_iff (hids : (workflow.nodes.map (·.id)).Nodup) :
    ((workflow.candidate patch).nodes.map (·.id)).Nodup ↔
      (patch.addedNodes.map (·.id)).Nodup ∧
        ∀ node ∈ patch.addedNodes, ¬ (workflow.contains node.id = true ∧
          node.id ∉ patch.removedNodes) := by
  have hstaying : ((workflow.stayingNodes patch).map (·.id)).Nodup := by
    rw [ids_stayingNodes]
    exact hids.filter _
  rw [nodes_candidate, List.map_append, List.nodup_append']
  refine ⟨fun h => ⟨h.2.1, fun node hnode hstays => ?_⟩,
    fun h => ⟨hstaying, h.1, ?_⟩⟩
  · exact h.2.2 (mem_ids_stayingNodes.2 hstays) (List.mem_map_of_mem hnode)
  · intro id hid hadded
    obtain ⟨node, hnode, rfl⟩ := List.mem_map.1 hadded
    exact h.2 node hnode (mem_ids_stayingNodes.1 hid)

theorem count_stayingEdges (workflow : Workflow) (patch : Patch) (edge : Edge) :
    (workflow.edges.filter patch.keepsEdge).count edge =
      if edge ∈ patch.removedEdges then 0 else workflow.edges.count edge := by
  split
  · next hremoved =>
      refine List.count_eq_zero.2 fun hmem => ?_
      exact Patch.keepsEdge_iff.1 (List.mem_filter.1 hmem).2 hremoved
  · next hstays => exact List.count_filter (Patch.keepsEdge_iff.2 hstays)

/-- Whatever a patch says, its candidate is the workflow with the patch
applied. -/
theorem candidate_patched (hids : (workflow.nodes.map (·.id)).Nodup)
    (patch : Patch) : workflow.Patched patch (workflow.candidate patch) where
  id_eq := rfl
  name_eq := rfl
  find?_of_stays id hid hstays := by
    obtain ⟨node, hfind⟩ := exists_find?_iff.2 (contains_iff.1 hid)
    rw [find?, nodes_candidate, List.find?_append,
      find?_stayingNodes_of_stays hid hstays, hfind, List.getLast?_filter,
      ← Patch.update?]
    cases patch.update? id <;> rfl
  find?_of_leaves id h := by
    rw [find?, nodes_candidate, List.find?_append,
      find?_stayingNodes_of_leaves h, Option.none_or]
  nodes := by
    refine ⟨workflow.stayingNodes patch, rfl, ?_⟩
    rw [ids_stayingNodes]
    refine List.filter_congr fun id _ => ?_
    rw [Bool.eq_iff_iff, Patch.keepsNode_iff, decide_eq_true_eq]
  nodup_iff := nodup_ids_candidate_iff hids
  edges := ⟨_, rfl, List.filter_sublist, count_stayingEdges workflow patch⟩
  of_isEmpty := candidate_of_isEmpty workflow

/-- Three notes one after the other, the first connection drawn twice. -/
def threeNotes : Workflow where
  id := .ofNat 0
  name := "three notes"
  nodes :=
    [{ id := .ofNat 1, name := "one", step := .typeText {} },
      { id := .ofNat 2, name := "two", step := .typeText {} },
      { id := .ofNat 3, name := "three", step := .typeText {} }]
  edges :=
    [⟨.ofNat 1, .ofNat 2, none⟩, ⟨.ofNat 1, .ofNat 2, none⟩,
      ⟨.ofNat 2, .ofNat 3, none⟩]

/-- Updates a node twice, another that it removes, and one that it adds; adds a
node under the removed identifier, and an edge that it removes. -/
def secondThoughts : Patch where
  addedNodes :=
    [{ id := .ofNat 2, name := "two again", step := .typeText {} },
      { id := .ofNat 4, name := "four", step := .typeText {} }]
  removedNodes := [.ofNat 2, .ofNat 9, .ofNat 2]
  updatedNodes :=
    [{ id := .ofNat 1, name := "first", step := .typeText {} },
      { id := .ofNat 1, name := "first of all", step := .typeText {} },
      { id := .ofNat 2, name := "second", step := .typeText {} },
      { id := .ofNat 4, name := "fourth", step := .typeText {} }]
  addedEdges := [⟨.ofNat 1, .ofNat 2, none⟩]
  removedEdges := [⟨.ofNat 1, .ofNat 2, none⟩, ⟨.ofNat 3, .ofNat 1, none⟩]

theorem threeNotes_patched :
    (threeNotes.nodes.map (·.id)).Nodup ∧
      threeNotes.Patched secondThoughts (threeNotes.candidate secondThoughts) ∧
      ((threeNotes.candidate secondThoughts).find? (.ofNat 1)).map (·.name) =
        some "first of all" ∧
      ((threeNotes.candidate secondThoughts).find? (.ofNat 2)).map (·.name) =
        some "two again" ∧
      ((threeNotes.candidate secondThoughts).nodes.map (·.id)).Nodup := by
  have hids : (threeNotes.nodes.map (·.id)).Nodup := by decide
  have h := candidate_patched hids secondThoughts
  refine ⟨hids, h, ?_, ?_, h.nodup_iff.2 (by decide)⟩
  · rw [h.find?_of_stays _ (by decide) (by decide)]
    rfl
  · rw [h.find?_of_leaves _ (.inr (by decide))]
    rfl

end Workflow

end Workbench
