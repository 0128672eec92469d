import Mathlib.Data.Finset.Card
import Workbench.Proofs.Patch.Candidate
import Workbench.Proofs.Session.Merge
import Workbench.Proofs.Workflow.Sound

/-!
# What the numbers of a merge count

The outcome of a merge tells how many instructions the patch had, by the lengths
of its lists. A patch may ask for what cannot be done or need not be done twice:
to remove a node that is not there, to remove or to update one twice, to update
one that is missing or that it removes as well. No such instruction makes the
candidate unsound, so a merge can be accepted and say more than it has done.

An accepted workflow has every identifier once. So each node that is dropped or
replaced stands for one identifier in the list of the patch, and the two numbers
agree just where every instruction has an effect of its own
(`card_filter_eq_length_iff`). What is added is always counted right.
-/

namespace Workbench

/-- Of a list as many different elements have a property as the list is long
only if no element comes twice and all have it. -/
theorem card_filter_eq_length_iff {α : Type} [DecidableEq α] {l : List α}
    {p : α → Prop} [DecidablePred p] :
    (l.toFinset.filter p).card = l.length ↔ l.Nodup ∧ ∀ a ∈ l, p a := by
  have hfilter := Finset.card_filter_le l.toFinset p
  have hdistinct : l.toFinset.card ≤ l.length := List.toFinset_card_le l
  refine ⟨fun h => ⟨?_, fun a ha => ?_⟩, fun h => ?_⟩
  · have hcard : l.toFinset.card = l.length :=
      Nat.le_antisymm hdistinct (h ▸ hfilter)
    exact Multiset.coe_nodup.1
      (Multiset.toFinset_card_eq_card_iff_nodup.1 hcard)
  · have hall : l.toFinset.filter p = l.toFinset :=
      Finset.eq_of_subset_of_card_le (Finset.filter_subset ..) (h ▸ hdistinct)
    exact Finset.filter_eq_self.1 hall a (List.mem_toFinset.2 ha)
  · obtain ⟨hnodup, hall⟩ := h
    rw [Finset.filter_true_of_mem fun a ha => hall a (List.mem_toFinset.1 ha),
      List.toFinset_card_of_nodup hnodup]

theorem card_filter_le_length {α : Type} [DecidableEq α] (l : List α)
    (p : α → Prop) [DecidablePred p] :
    (l.toFinset.filter p).card ≤ l.length :=
  (Finset.card_filter_le _ _).trans (List.toFinset_card_le l)

namespace Workflow

variable {workflow : Workflow} {patch : Patch}

/-- The nodes that the patch takes out of the workflow. -/
def dropped (workflow : Workflow) (patch : Patch) : List Node :=
  workflow.nodes.filter fun node => !patch.keepsNode node.id

/-- The nodes that stay and in whose place the patch puts an update. -/
def replaced (workflow : Workflow) (patch : Patch) : List Node :=
  workflow.nodes.filter fun node =>
    patch.keepsNode node.id && (patch.update? node.id).isSome

/-- The numbers of an outcome, held against what the merge has done to the
workflow. -/
structure Accounts (workflow : Workflow) (patch : Patch)
    (outcome : MergeOutcome) (merged : Workflow) : Prop where
  appended : ∃ staying, merged.nodes = staying ++ patch.addedNodes ∧
    staying.map (·.id) = (workflow.nodes.map (·.id)).filter patch.keepsNode
  added_eq : outcome.added = patch.addedNodes.length
  length_eq :
    merged.nodes.length + (workflow.dropped patch).length =
      workflow.nodes.length + outcome.added
  dropped_eq : (workflow.dropped patch).length =
    (patch.removedNodes.toFinset.filter fun id =>
      workflow.contains id = true).card
  dropped_le : (workflow.dropped patch).length ≤ outcome.removed
  removed_eq_iff : outcome.removed = (workflow.dropped patch).length ↔
    patch.removedNodes.Nodup ∧
      ∀ id ∈ patch.removedNodes, workflow.contains id = true
  replaced_eq : (workflow.replaced patch).length =
    ((patch.updatedNodes.map (·.id)).toFinset.filter fun id =>
      workflow.contains id = true ∧ id ∉ patch.removedNodes).card
  replaced_le : (workflow.replaced patch).length ≤ outcome.updated
  updated_eq_iff : outcome.updated = (workflow.replaced patch).length ↔
    (patch.updatedNodes.map (·.id)).Nodup ∧ ∀ update ∈ patch.updatedNodes,
      workflow.contains update.id = true ∧ update.id ∉ patch.removedNodes

theorem length_stayingNodes_add (workflow : Workflow) (patch : Patch) :
    (workflow.stayingNodes patch).length + (workflow.dropped patch).length =
      workflow.nodes.length := by
  rw [stayingNodes, List.length_map, dropped]
  exact (List.length_eq_length_filter_add _).symm

theorem isSome_update?_iff {id : Uuid} :
    (patch.update? id).isSome = true ↔ id ∈ patch.updatedNodes.map (·.id) := by
  rw [Patch.update?, List.find?_isSome, List.mem_map]
  refine ⟨fun h => ?_, fun h => ?_⟩
  · obtain ⟨update, hupdate, hid⟩ := h
    exact ⟨update, List.mem_reverse.1 hupdate, beq_iff_eq.1 hid⟩
  · obtain ⟨update, hupdate, rfl⟩ := h
    exact ⟨update, List.mem_reverse.2 hupdate, beq_self_eq_true _⟩

/-- With every identifier once, nodes that are chosen by a list of identifiers
are as many as different identifiers of the list have a node. -/
theorem length_filter_eq_card (hids : (workflow.nodes.map (·.id)).Nodup)
    {ids : List Uuid} {chosen : Node → Bool} {q : Uuid → Prop} [DecidablePred q]
    (hchosen : ∀ node, chosen node = true ↔ node.id ∈ ids ∧ q node.id) :
    (workflow.nodes.filter chosen).length =
      (ids.toFinset.filter fun id =>
        workflow.contains id = true ∧ q id).card := by
  have hnodup : ((workflow.nodes.filter chosen).map (·.id)).Nodup :=
    hids.sublist (List.filter_sublist.map _)
  rw [← List.length_map (·.id), ← List.toFinset_card_of_nodup hnodup]
  refine congrArg Finset.card (Finset.ext fun id => ?_)
  simp only [List.mem_toFinset, Finset.mem_filter, List.mem_map,
    List.mem_filter, hchosen, contains_iff]
  refine ⟨fun h => ?_, fun h => ?_⟩
  · obtain ⟨node, ⟨hnode, hid, hq⟩, rfl⟩ := h
    exact ⟨hid, ⟨node, hnode, rfl⟩, hq⟩
  · obtain ⟨hid, ⟨node, hnode, rfl⟩, hq⟩ := h
    exact ⟨node, ⟨hnode, hid, hq⟩, rfl⟩

theorem length_dropped (hids : (workflow.nodes.map (·.id)).Nodup)
    (patch : Patch) :
    (workflow.dropped patch).length =
      (patch.removedNodes.toFinset.filter fun id =>
        workflow.contains id = true).card := by
  have hchosen : ∀ node : Node, (!patch.keepsNode node.id) = true ↔
      node.id ∈ patch.removedNodes ∧ True := by
    intro node
    rw [Bool.not_eq_true', ← Bool.not_eq_true, Patch.keepsNode_iff,
      not_not, and_true]
  rw [dropped, length_filter_eq_card hids (q := fun _ => True) hchosen]
  simp only [and_true]

theorem length_replaced (hids : (workflow.nodes.map (·.id)).Nodup)
    (patch : Patch) :
    (workflow.replaced patch).length =
      ((patch.updatedNodes.map (·.id)).toFinset.filter fun id =>
        workflow.contains id = true ∧ id ∉ patch.removedNodes).card := by
  refine length_filter_eq_card hids fun node => ?_
  rw [Bool.and_eq_true, Patch.keepsNode_iff, isSome_update?_iff, and_comm]

theorem accounts_outcome (hids : (workflow.nodes.map (·.id)).Nodup)
    (patch : Patch) :
    workflow.Accounts patch patch.outcome (workflow.candidate patch) where
  appended :=
    ⟨workflow.stayingNodes patch, rfl, ids_stayingNodes workflow patch⟩
  added_eq := rfl
  length_eq := by
    rw [nodes_candidate, List.length_append, Nat.add_right_comm,
      length_stayingNodes_add]
    rfl
  dropped_eq := length_dropped hids patch
  dropped_le := by
    rw [length_dropped hids]
    exact card_filter_le_length ..
  removed_eq_iff := by
    rw [length_dropped hids, eq_comm]
    exact card_filter_eq_length_iff
  replaced_eq := length_replaced hids patch
  replaced_le := by
    rw [length_replaced hids]
    exact (card_filter_le_length ..).trans_eq (List.length_map _)
  updated_eq_iff := by
    have hlength : patch.outcome.updated =
        (patch.updatedNodes.map (·.id)).length :=
      (List.length_map _).symm
    rw [length_replaced hids, eq_comm, hlength, card_filter_eq_length_iff,
      List.forall_mem_map]

end Workflow

namespace Session

variable {session : Session} {patch : Patch}

/-- A merge of a sound patch into a sound workflow succeeds and counts the nodes
that it appends. The nodes that it drops or replaces are never more than it
says, and they are as many as it says where no removal and no update is repeated
and each names a node of the workflow, an update one that is not removed. -/
theorem merge?_accounts (hlive : session.workflow.check = [])
    (haccepted : (session.workflow.candidate patch).check = []) :
    ∃ outcome merged,
      session.merge? patch .structural = some (.ok outcome, merged) ∧
      session.workflow.Accounts patch outcome merged.workflow := by
  have hjudge :
      Validator.structural.judge (session.workflow.candidate patch) = .ok () :=
    Validator.judge_structural_eq_ok_iff.2 haccepted
  have hids := (Workflow.check_eq_nil_iff_sound.1 hlive).ids_nodup
  exact ⟨patch.outcome, session.applied patch,
    merge?_of_accepted session.options.inTime_structural hjudge,
    Workflow.accounts_outcome hids patch⟩

/-- A session with two notes. -/
def jotting : Session :=
  start
    { id := .ofNat 0
      name := "jotting"
      nodes :=
        [{ id := .ofNat 1, name := "one", step := .typeText {} },
          { id := .ofNat 2, name := "two", step := .typeText {} }] }

/-- Removes a node twice and one that is not there; updates a node twice, the
removed one, and one that is not there. -/
def overzealous : Patch where
  removedNodes := [.ofNat 2, .ofNat 2, .ofNat 9]
  updatedNodes :=
    [{ id := .ofNat 1, name := "first", step := .typeText {} },
      { id := .ofNat 1, name := "first of all", step := .typeText {} },
      { id := .ofNat 2, name := "second", step := .typeText {} },
      { id := .ofNat 8, name := "eighth", step := .typeText {} }]

theorem jotting_accounts :
    jotting.workflow.check = [] ∧
      (jotting.workflow.candidate overzealous).check = [] ∧
      ∃ outcome merged,
        jotting.merge? overzealous .structural = some (.ok outcome, merged) ∧
        jotting.workflow.Accounts overzealous outcome merged.workflow :=
  ⟨rfl, rfl, merge?_accounts rfl rfl⟩

/-- Three removals and four updates are told, one node has been dropped and one
replaced. -/
theorem jotting_overcounted :
    jotting.workflow.check = [] ∧
      (jotting.workflow.candidate overzealous).check = [] ∧
      ∃ outcome merged,
        jotting.merge? overzealous .structural = some (.ok outcome, merged) ∧
        (outcome.added, outcome.removed, outcome.updated) = (0, 3, 4) ∧
        (jotting.workflow.dropped overzealous).length = 1 ∧
        (jotting.workflow.replaced overzealous).length = 1 ∧
        (jotting.workflow.nodes.length, merged.workflow.nodes.length) =
          (2, 1) := by
  have hjudge :
      Validator.structural.judge (jotting.workflow.candidate overzealous) =
        .ok () := rfl
  exact ⟨rfl, rfl, overzealous.outcome, jotting.applied overzealous,
    merge?_of_accepted jotting.options.inTime_structural hjudge, rfl,
    by decide, by decide, by decide⟩

end Session

end Workbench
