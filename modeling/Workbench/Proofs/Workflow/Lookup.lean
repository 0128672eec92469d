import Mathlib.Data.List.Nodup
import Workbench.Workflow.Basic

/-!
# Looking up nodes and edges

The look-ups of a workflow take the first hit in the order of the lists. Said
without that order they only tell whether there is a hit; where identifiers are
distinct they tell which one it is.
-/

namespace Workbench

theorem Node.isLoop_iff {node : Node} :
    node.isLoop = true ↔ ∃ loop, node.step = .loop loop := by
  unfold Node.isLoop
  cases node.step <;> simp [Step.isLoop]

theorem Node.closes?_eq_some_iff {node : Node} {loopId : Uuid} :
    node.closes? = some loopId ↔ node.step = .endLoop ⟨loopId⟩ := by
  unfold Node.closes?
  cases hstep : node.step with
  | endLoop params => cases params; simp [Step.closes?]
  | _ => simp [Step.closes?]

theorem Edge.leaves_iff {edge : Edge} {id : Uuid} {port : Option Port} :
    edge.leaves id port = true ↔ edge.source = id ∧ edge.port = port := by
  rw [leaves, Bool.and_eq_true, beq_iff_eq, beq_iff_eq]

/-- In whatever order a list stands, what is found in it is the same if there is
one hit at most. -/
theorem find?_eq_of_perm {α : Type} {p : α → Bool} {l l' : List α}
    (h : l.Perm l')
    (honly : ∀ a ∈ l, ∀ b ∈ l, p a = true → p b = true → a = b) :
    l.find? p = l'.find? p := by
  cases hfind : l.find? p with
  | none =>
      rw [List.find?_eq_none] at hfind
      exact (List.find?_eq_none.2 fun a ha => hfind a (h.mem_iff.2 ha)).symm
  | some a =>
      have ha := List.mem_of_find?_eq_some hfind
      have hpa := List.find?_some hfind
      have hsome : (l'.find? p).isSome = true :=
        List.find?_isSome.2 ⟨a, h.mem_iff.1 ha, hpa⟩
      obtain ⟨b, hb⟩ := Option.isSome_iff_exists.1 hsome
      have hmem := h.mem_iff.2 (List.mem_of_find?_eq_some hb)
      rw [hb, honly a ha b hmem hpa (List.find?_some hb)]

/-- A first hit stays ahead of another when what is neither is left out. -/
theorem findIdx_filter_lt_iff {α : Type} {p q r : α → Bool} {l : List α}
    (hp : ∀ x ∈ l, p x = true → r x = true)
    (hq : ∀ x ∈ l, q x = true → r x = true) :
    (l.filter r).findIdx p < (l.filter r).findIdx q ↔
      l.findIdx p < l.findIdx q := by
  induction l with
  | nil => rfl
  | cons x rest ih =>
      obtain ⟨hpx, hp⟩ := List.forall_mem_cons.1 hp
      obtain ⟨hqx, hq⟩ := List.forall_mem_cons.1 hq
      have ih := ih hp hq
      by_cases hr : r x = true
      · rw [List.filter_cons_of_pos hr]
        simp only [List.findIdx_cons]
        cases p x <;> cases q x <;> simp [ih]
      · have hpx : p x = false := by simpa using mt hpx hr
        have hqx : q x = false := by simpa using mt hqx hr
        rw [List.filter_cons_of_neg hr]
        simp [List.findIdx_cons, hpx, hqx, ih]

namespace Workflow

variable {workflow : Workflow}

/-- An edge leads from the one node to the other, from whichever port. -/
def Joins (workflow : Workflow) (a b : Uuid) : Prop :=
  ∃ edge ∈ workflow.edges, edge.source = a ∧ edge.target = b

theorem contains_iff {id : Uuid} :
    workflow.contains id = true ↔ ∃ node ∈ workflow.nodes, node.id = id := by
  simp only [contains, List.any_eq_true, beq_iff_eq]

theorem mem_of_find? {id : Uuid} {node : Node}
    (h : workflow.find? id = some node) :
    node ∈ workflow.nodes ∧ node.id = id := by
  refine ⟨List.mem_of_find?_eq_some h, ?_⟩
  have := List.find?_some h
  simpa using this

theorem exists_find?_iff {id : Uuid} :
    (∃ node, workflow.find? id = some node) ↔
      ∃ node ∈ workflow.nodes, node.id = id := by
  rw [← Option.isSome_iff_exists, find?, List.find?_isSome]
  simp only [beq_iff_eq]

theorem edgeFrom?_isSome_iff {id : Uuid} {port : Option Port} :
    (workflow.edgeFrom? id port).isSome = true ↔
      ∃ edge ∈ workflow.edges, edge.source = id ∧ edge.port = port := by
  rw [edgeFrom?, List.find?_isSome]
  simp only [Edge.leaves_iff]

theorem mem_endsOf {loopId : Uuid} {node : Node} :
    node ∈ workflow.endsOf loopId ↔
      node ∈ workflow.nodes ∧ node.step = .endLoop ⟨loopId⟩ := by
  rw [endsOf, List.mem_filter, beq_iff_eq, Node.closes?_eq_some_iff]

/-! ## Distinct identifiers -/

section

variable (hids : (workflow.nodes.map (·.id)).Nodup)

include hids

theorem eq_of_id_eq {a b : Node} (ha : a ∈ workflow.nodes)
    (hb : b ∈ workflow.nodes) (h : a.id = b.id) :
    a = b :=
  List.inj_on_of_nodup_map hids ha hb h

theorem find?_eq_some_iff {id : Uuid} {node : Node} :
    workflow.find? id = some node ↔ node ∈ workflow.nodes ∧ node.id = id := by
  refine ⟨mem_of_find?, fun h => ?_⟩
  obtain ⟨found, hfound⟩ := exists_find?_iff.2 ⟨node, h⟩
  obtain ⟨hmem, hid⟩ := mem_of_find? hfound
  rw [hfound, eq_of_id_eq hids hmem h.1 (hid.trans h.2.symm)]

end

end Workflow

end Workbench
