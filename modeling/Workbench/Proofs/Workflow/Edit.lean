import Workbench.Proofs.Workflow.Lookup
import Workbench.Workflow.Edit

/-!
# What the editing operations do to nodes and edges

Each operation is told here by what becomes of the nodes, of the edges and of
the identifiers that are in use. The identifiers are what matters to edges: two
workflows with the same list of identifiers contain the same nodes as far as an
edge can tell, so an operation that changes nodes and leaves their identifiers
alone leaves every edge attached.
-/

namespace Workbench.Workflow

variable {workflow : Workflow}

theorem contains_iff_mem_ids {id : Uuid} :
    workflow.contains id = true ↔ id ∈ workflow.nodes.map (·.id) := by
  rw [contains_iff, List.mem_map]

theorem contains_eq_false_iff {id : Uuid} :
    workflow.contains id = false ↔ ∀ node ∈ workflow.nodes, node.id ≠ id := by
  rw [← Bool.not_eq_true, contains_iff]
  simp only [not_exists, not_and, ne_eq]

theorem contains_of_ids_eq {other : Workflow}
    (h : other.nodes.map (·.id) = workflow.nodes.map (·.id)) (id : Uuid) :
    other.contains id = workflow.contains id := by
  rw [Bool.eq_iff_iff, contains_iff_mem_ids, contains_iff_mem_ids, h]

theorem admits_iff {edge : Edge} :
    workflow.admits edge = true ↔
      workflow.contains edge.source = true ∧
        workflow.contains edge.target = true := by
  rw [admits, Bool.and_eq_true]

/-! ## Nodes that come and go -/

theorem contains_addNode {node : Node} {id : Uuid} :
    (workflow.addNode node).contains id = true ↔
      workflow.contains id = true ∨ node.id = id := by
  simp only [contains, addNode, List.any_append, Bool.or_eq_true, List.any_cons,
    List.any_nil, Bool.or_false, beq_iff_eq]

theorem removeNode_of_contains {id : Uuid} (h : workflow.contains id = true) :
    (workflow.removeNode id).2 =
      { workflow with
        nodes := workflow.nodes.eraseP (·.id == id)
        edges := workflow.edges.filter (!·.touches id) } := by
  obtain ⟨node, hfind⟩ := exists_find?_iff.2 (contains_iff.1 h)
  rw [removeNode, hfind]

theorem removeNode_of_not_contains {id : Uuid}
    (h : workflow.contains id = false) :
    (workflow.removeNode id).2 = workflow := by
  have hfind : workflow.find? id = none := by
    rw [find?, List.find?_eq_none]
    intro node hnode
    rw [beq_iff_eq]
    exact contains_eq_false_iff.1 h node hnode
  rw [removeNode, hfind]

/-- Where identifiers are distinct, erasing the first node with one leaves no
other. -/
theorem mem_eraseP_id {nodes : List Node} (hids : (nodes.map (·.id)).Nodup)
    {id : Uuid} {node : Node} :
    node ∈ nodes.eraseP (·.id == id) ↔ node ∈ nodes ∧ node.id ≠ id := by
  induction nodes with
  | nil => simp
  | cons first rest ih =>
      obtain ⟨hfirst, hrest⟩ := List.nodup_cons.1 hids
      by_cases hid : first.id = id
      · have hothers : ∀ other ∈ rest, other.id ≠ id := fun other hother heq =>
          hfirst (List.mem_map.2 ⟨other, hother, heq.trans hid.symm⟩)
        rw [List.eraseP_cons_of_pos (by simpa using hid), List.mem_cons]
        refine ⟨fun h => ⟨.inr h, hothers node h⟩, fun h => ?_⟩
        rcases h.1 with rfl | hmem
        · exact absurd hid h.2
        · exact hmem
      · rw [List.eraseP_cons_of_neg (by simpa using hid), List.mem_cons,
          List.mem_cons, ih hrest]
        refine ⟨?_, ?_⟩
        · rintro (rfl | h)
          · exact ⟨.inl rfl, hid⟩
          · exact ⟨.inr h.1, h.2⟩
        · rintro ⟨rfl | hmem, hne⟩
          · exact .inl rfl
          · exact .inr ⟨hmem, hne⟩

/-- Only nodes with the identifier are removed, so any other identifier stays in
use. -/
theorem contains_removeNode {id other : Uuid} (hne : other ≠ id)
    (h : workflow.contains other = true) :
    (workflow.removeNode id).2.contains other = true := by
  cases hid : workflow.contains id with
  | false => rwa [removeNode_of_not_contains hid]
  | true =>
      obtain ⟨node, hnode, rfl⟩ := contains_iff.1 h
      rw [removeNode_of_contains hid, contains_iff]
      refine ⟨node, ?_, rfl⟩
      exact (List.mem_eraseP_of_neg (by simpa using hne)).2 hnode

theorem mem_edges_removeNode {id : Uuid} (h : workflow.contains id = true)
    {edge : Edge} :
    edge ∈ (workflow.removeNode id).2.edges ↔
      edge ∈ workflow.edges ∧ edge.source ≠ id ∧ edge.target ≠ id := by
  rw [removeNode_of_contains h, List.mem_filter, Edge.touches,
    Bool.not_eq_true', Bool.or_eq_false_iff, beq_eq_false_iff_ne,
    beq_eq_false_iff_ne]

/-! ## Nodes that change -/

theorem ids_modifyFirst {id : Uuid} {change : Node → Node} {nodes : List Node}
    (hkeeps : ∀ node, node.id = id → (change node).id = id) :
    (modifyFirst id change nodes).map (·.id) = nodes.map (·.id) := by
  induction nodes with
  | nil => rfl
  | cons node rest ih =>
      rw [modifyFirst]
      split
      · next h =>
          have h : node.id = id := by simpa using h
          rw [List.map_cons, List.map_cons, hkeeps node h, h]
      · rw [List.map_cons, List.map_cons, ih]

theorem ids_modifyNode {id : Uuid} {change : Node → Node}
    (hkeeps : ∀ node, node.id = id → (change node).id = id) :
    (workflow.modifyNode id change).2.nodes.map (·.id) =
      workflow.nodes.map (·.id) :=
  ids_modifyFirst hkeeps

theorem ids_updateNode (node : Node) :
    (workflow.updateNode node).2.nodes.map (·.id) = workflow.nodes.map (·.id) :=
  ids_modifyNode fun _ _ => rfl

/-! ## Edges -/

theorem addEdge_of_admits {edge : Edge} (h : workflow.admits edge = true) :
    (workflow.addEdge edge).2 =
      { workflow with
        edges := workflow.edges.filter (!·.leaves edge.source edge.port) ++
          [edge] } := by
  rw [addEdge, if_pos h]

theorem addEdge_of_not_admits {edge : Edge} (h : workflow.admits edge = false) :
    workflow.addEdge edge = (false, workflow) := by
  rw [addEdge, if_neg (by simp [h])]

theorem nodes_addEdge (edge : Edge) :
    (workflow.addEdge edge).2.nodes = workflow.nodes := by
  rw [addEdge]
  split <;> rfl

theorem contains_addEdge (edge : Edge) (id : Uuid) :
    (workflow.addEdge edge).2.contains id = workflow.contains id := by
  rw [contains, contains, nodes_addEdge]

/-- An edge that is accepted takes the place of those at its port. -/
theorem mem_edges_addEdge {edge other : Edge}
    (h : workflow.admits edge = true) :
    other ∈ (workflow.addEdge edge).2.edges ↔
      other = edge ∨
        other ∈ workflow.edges ∧
          ¬ (other.source = edge.source ∧ other.port = edge.port) := by
  rw [addEdge_of_admits h, List.mem_append, List.mem_filter, List.mem_singleton,
    Bool.not_eq_true', ← Bool.not_eq_true, Edge.leaves_iff, or_comm]

theorem mem_edges_removeEdge {edge other : Edge} :
    other ∈ (workflow.removeEdge edge).2.edges ↔
      other ∈ workflow.edges ∧ other ≠ edge := by
  rw [removeEdge, List.mem_filter, bne_iff_ne]

end Workbench.Workflow
