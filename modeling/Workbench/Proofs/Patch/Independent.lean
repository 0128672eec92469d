import Workbench.Proofs.Patch.Candidate
import Workbench.Proofs.Workflow.Reordered

/-!
# Independent patches can be applied in either order

Of two patches the later one finds what the earlier one has added. As long as it
lets these nodes and edges alone, the two come to one patch that does both
(`candidate_andThen`): what either removes is gone, and the later update of a
node wins. If each lets alone what the other adds, either order gives such a
patch. The two patches differ in which additions come first, which is for show,
and in which update wins, which makes no difference where no node is updated by
both.

Nothing is asked of removals. Both may remove the same node or edge, and one may
remove a node that the other updates: the node is gone in the end.
-/

namespace Workbench

namespace Patch

variable {earlier later : Patch}

/-- The later patch neither removes nor replaces what the earlier one adds. -/
structure Spares (later earlier : Patch) : Prop where
  not_removed : ∀ node ∈ earlier.addedNodes, node.id ∉ later.removedNodes
  not_updated : ∀ node ∈ earlier.addedNodes, ∀ update ∈ later.updatedNodes,
    update.id ≠ node.id
  edge_not_removed : ∀ edge ∈ earlier.addedEdges, edge ∉ later.removedEdges

/-- Each patch lets alone what the other adds, and they update different
nodes. -/
structure Independent (one other : Patch) : Prop where
  spares : one.Spares other
  spared : other.Spares one
  updates : ∀ a ∈ one.updatedNodes, ∀ b ∈ other.updatedNodes, a.id ≠ b.id

/-- The patch that does what the one does and then what the other does. -/
def andThen (earlier later : Patch) : Patch where
  addedNodes := earlier.addedNodes ++ later.addedNodes
  removedNodes := earlier.removedNodes ++ later.removedNodes
  updatedNodes := earlier.updatedNodes ++ later.updatedNodes
  addedEdges := earlier.addedEdges ++ later.addedEdges
  removedEdges := earlier.removedEdges ++ later.removedEdges
  warnings := earlier.warnings ++ later.warnings

theorem keepsNode_andThen (earlier later : Patch) (id : Uuid) :
    (earlier.andThen later).keepsNode id =
      (later.keepsNode id && earlier.keepsNode id) := by
  rw [Bool.eq_iff_iff, Bool.and_eq_true, keepsNode_iff, keepsNode_iff,
    keepsNode_iff, andThen, List.mem_append, not_or, and_comm]

theorem keepsEdge_andThen (earlier later : Patch) (edge : Edge) :
    (earlier.andThen later).keepsEdge edge =
      (later.keepsEdge edge && earlier.keepsEdge edge) := by
  rw [Bool.eq_iff_iff, Bool.and_eq_true, keepsEdge_iff, keepsEdge_iff,
    keepsEdge_iff, andThen, List.mem_append, not_or, and_comm]

/-- The later update is the last one. -/
theorem update?_andThen (earlier later : Patch) (id : Uuid) :
    (earlier.andThen later).update? id =
      (later.update? id).or (earlier.update? id) := by
  rw [update?, andThen, List.reverse_append, List.find?_append]
  rfl

theorem revise_andThen (earlier later : Patch) (node : Node) :
    (earlier.andThen later).revise node =
      later.revise (earlier.revise node) := by
  rw [revise, update?_andThen, revise, id_revise, revise]
  cases later.update? node.id <;> rfl

theorem update?_eq_none {patch : Patch} {id : Uuid}
    (h : ∀ update ∈ patch.updatedNodes, update.id ≠ id) :
    patch.update? id = none := by
  rw [update?, List.find?_eq_none]
  intro update hupdate heq
  exact h update (List.mem_reverse.1 hupdate) (beq_iff_eq.1 heq)

theorem Spares.revise_eq (h : later.Spares earlier) {node : Node}
    (hnode : node ∈ earlier.addedNodes) : later.revise node = node := by
  rw [revise, update?_eq_none (h.not_updated node hnode)]
  rfl

/-- At most one of two independent patches updates a node. -/
theorem Independent.update?_comm (h : earlier.Independent later) (id : Uuid) :
    (earlier.andThen later).update? id =
      (later.andThen earlier).update? id := by
  rw [update?_andThen, update?_andThen]
  cases hearlier : earlier.update? id with
  | none => rw [Option.or_none, Option.none_or]
  | some update =>
      obtain ⟨hupdate, rfl⟩ := mem_of_update? hearlier
      have hlater : later.update? update.id = none :=
        update?_eq_none fun other hother heq =>
          h.updates update hupdate other hother heq.symm
      rw [hlater, Option.none_or, Option.or_none]

end Patch

namespace Workflow

variable {workflow : Workflow} {earlier later : Patch}

theorem stayingNodes_candidate (h : later.Spares earlier) :
    (workflow.candidate earlier).stayingNodes later =
      workflow.stayingNodes (earlier.andThen later) ++ earlier.addedNodes := by
  have hkept : earlier.addedNodes.filter (later.keepsNode ·.id) =
      earlier.addedNodes :=
    List.filter_eq_self.2 fun node hnode =>
      Patch.keepsNode_iff.2 (h.not_removed node hnode)
  have hadded : earlier.addedNodes.map later.revise = earlier.addedNodes :=
    (List.map_congr_left fun node hnode => h.revise_eq hnode).trans
      (List.map_id' _)
  have hkeeps : (fun node : Node => later.keepsNode node.id) ∘ earlier.revise =
      fun node => later.keepsNode node.id :=
    funext fun node => congrArg later.keepsNode (earlier.id_revise node)
  rw [stayingNodes, nodes_candidate, List.filter_append, List.map_append,
    hkept, hadded, stayingNodes, List.filter_map, hkeeps, List.filter_filter,
    List.map_map, stayingNodes]
  simp only [Patch.keepsNode_andThen]
  congr 1
  exact List.map_congr_left fun node _ =>
    (Patch.revise_andThen earlier later node).symm

/-- One patch after another, and sparing what that added, is one patch. -/
theorem candidate_andThen (h : later.Spares earlier) :
    (workflow.candidate earlier).candidate later =
      workflow.candidate (earlier.andThen later) := by
  have hnodes : ((workflow.candidate earlier).candidate later).nodes =
      (workflow.candidate (earlier.andThen later)).nodes := by
    rw [nodes_candidate, nodes_candidate, stayingNodes_candidate h,
      List.append_assoc]
    rfl
  have hkept : earlier.addedEdges.filter later.keepsEdge = earlier.addedEdges :=
    List.filter_eq_self.2 fun edge hedge =>
      Patch.keepsEdge_iff.2 (h.edge_not_removed edge hedge)
  have hkeeps : (earlier.andThen later).keepsEdge =
      fun edge => later.keepsEdge edge && earlier.keepsEdge edge :=
    funext (Patch.keepsEdge_andThen earlier later)
  have hedges : ((workflow.candidate earlier).candidate later).edges =
      (workflow.candidate (earlier.andThen later)).edges := by
    show (workflow.edges.filter earlier.keepsEdge ++ earlier.addedEdges).filter
        later.keepsEdge ++ later.addedEdges =
      workflow.edges.filter (earlier.andThen later).keepsEdge ++
        (earlier.addedEdges ++ later.addedEdges)
    rw [List.filter_append, hkept, List.filter_filter, hkeeps,
      List.append_assoc]
  exact congrArg₂ (Workflow.mk workflow.id workflow.name) hnodes hedges

/-- In which order two independent patches are put together shows in the order
of what they add. -/
theorem candidate_andThen_reordered (h : earlier.Independent later) :
    (workflow.candidate (earlier.andThen later)).Reordered
      (workflow.candidate (later.andThen earlier)) := by
  have hrevise : (earlier.andThen later).revise =
      (later.andThen earlier).revise := by
    funext node
    rw [Patch.revise, h.update?_comm, Patch.revise]
  have hnode : (earlier.andThen later).keepsNode =
      (later.andThen earlier).keepsNode := by
    funext id
    rw [Patch.keepsNode_andThen, Bool.and_comm, Patch.keepsNode_andThen]
  have hedge : (earlier.andThen later).keepsEdge =
      (later.andThen earlier).keepsEdge := by
    funext edge
    rw [Patch.keepsEdge_andThen, Bool.and_comm, Patch.keepsEdge_andThen]
  refine ⟨?_, ?_⟩
  · rw [nodes_candidate, nodes_candidate, stayingNodes, stayingNodes,
      hrevise, hnode]
    exact List.perm_append_comm.append_left _
  · unfold candidate
    rw [hedge]
    exact List.perm_append_comm.append_left _

/-- Two independent patches, in whichever order they are applied, give a
workflow of the same identifier and name with the same nodes and the same edges,
and so the check accepts both results or neither. -/
theorem independent_patches_commute (workflow : Workflow)
    (h : earlier.Independent later) :
    ((workflow.candidate earlier).candidate later).id =
        ((workflow.candidate later).candidate earlier).id ∧
      ((workflow.candidate earlier).candidate later).name =
        ((workflow.candidate later).candidate earlier).name ∧
      ((workflow.candidate earlier).candidate later).nodes.Perm
        ((workflow.candidate later).candidate earlier).nodes ∧
      ((workflow.candidate earlier).candidate later).edges.Perm
        ((workflow.candidate later).candidate earlier).edges ∧
      (((workflow.candidate earlier).candidate later).check = [] ↔
        ((workflow.candidate later).candidate earlier).check = []) := by
  have hsame : ((workflow.candidate earlier).candidate later).Reordered
      ((workflow.candidate later).candidate earlier) := by
    rw [candidate_andThen h.spared, candidate_andThen h.spares]
    exact candidate_andThen_reordered h
  refine ⟨rfl, rfl, hsame.nodes, hsame.edges, ?_⟩
  rw [check_eq_nil_iff_sound, check_eq_nil_iff_sound]
  exact ⟨fun hsound => hsound.reordered hsame,
    fun hsound => hsound.reordered hsame.symm⟩

/-- Takes the second of three notes out and puts one in front. -/
def skipSecond : Patch where
  addedNodes := [{ id := .ofNat 4, name := "zero", step := .typeText {} }]
  removedNodes := [.ofNat 2]
  addedEdges := [⟨.ofNat 4, .ofNat 1, none⟩, ⟨.ofNat 1, .ofNat 3, none⟩]
  removedEdges := [⟨.ofNat 1, .ofNat 2, none⟩, ⟨.ofNat 2, .ofNat 3, none⟩]

/-- Changes the second note and adds one at the end. -/
def reviseSecond : Patch where
  addedNodes := [{ id := .ofNat 5, name := "four", step := .typeText {} }]
  updatedNodes := [{ id := .ofNat 2, name := "second", step := .typeText {} }]
  addedEdges := [⟨.ofNat 3, .ofNat 5, none⟩]
  removedEdges := [⟨.ofNat 2, .ofNat 3, none⟩]

theorem skipSecond_reviseSecond_commute :
    skipSecond.Independent reviseSecond ∧
      ((threeNotes.candidate skipSecond).candidate reviseSecond).nodes ≠
        ((threeNotes.candidate reviseSecond).candidate skipSecond).nodes ∧
      ((threeNotes.candidate skipSecond).candidate reviseSecond).nodes.Perm
        ((threeNotes.candidate reviseSecond).candidate skipSecond).nodes ∧
      ((threeNotes.candidate reviseSecond).candidate skipSecond).check =
        [] := by
  have h : skipSecond.Independent reviseSecond :=
    ⟨⟨by decide, by decide, by decide⟩,
      ⟨by decide, by decide, by decide⟩, by decide⟩
  have haccepted :
      ((threeNotes.candidate skipSecond).candidate reviseSecond).check = [] :=
    rfl
  obtain ⟨-, -, hnodes, -, hcheck⟩ := independent_patches_commute threeNotes h
  exact ⟨h, by decide, hnodes, hcheck.1 haccepted⟩

end Workflow

end Workbench
