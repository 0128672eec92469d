import Mathlib.Data.Multiset.Bind
import Mathlib.Data.Multiset.Count
import Mathlib.Data.Multiset.Dedup
import Mathlib.Data.Multiset.Filter
import Workbench.Proofs.Graph.Discovery
import Workbench.Proofs.Workflow.Edit
import Workbench.Proofs.Workflow.Sound

/-!
# What the check finds, rule by rule

The check goes through the edges once and lets go of an edge at its first fault,
and what it has seen so far decides what a repetition is and what counts at the
ports. Yet the rules do not get in each other's way. An edge counts if it is
attached to known nodes on both sides, and then it counts once (`attached`); for
any other edge the first of its ends that is missing is to blame. So `breaches`
can tell for each rule what there is to be found, as a bag that is made from the
bag of nodes and the bag of edges.

That the check finds just this is an induction over the edges, for whatever
edges came before. An attached edge is new or repeats an earlier one. The new
ones are taken out of all attached edges, and what is left over are the
repetitions (`coe_edgeViolations`).

The check looks a node up where the bags have all nodes with the identifier.
With distinct identifiers this is the same (`filter_id_and`), and nothing else
depends on the order of the lists. Which of two nodes with one identifier reuses
it does depend on their order, so there is no bag for that.
-/

namespace Workbench

namespace Arcs

theorem coe_fresh_nil {α : Type} [DecidableEq α] (l : List α) :
    (fresh [] l : Multiset α) = (l : Multiset α).dedup := by
  have hnodup := Multiset.coe_nodup.2 (nodup_fresh [] l)
  refine (hnodup.ext (Multiset.nodup_dedup _)).2 fun a => ?_
  rw [Multiset.mem_coe, mem_fresh, Multiset.mem_dedup, Multiset.mem_coe]
  exact and_iff_left List.not_mem_nil

end Arcs

/-! ## Rules -/

/-- What a workflow must obey. -/
inductive Rule
  | distinctIds
  | sourceExists
  | targetExists
  | edgeOnce
  | portDeclared
  | portSingle
  | endOfLoop
  | endedOnce
  | hasBody
deriving DecidableEq

/-- All rules. -/
def Rule.all : List Rule :=
  [.distinctIds, .sourceExists, .targetExists, .edgeOnce, .portDeclared,
    .portSingle, .endOfLoop, .endedOnce, .hasBody]

theorem Rule.nodup_all : Rule.all.Nodup := by decide

theorem Rule.mem_all (rule : Rule) : rule ∈ Rule.all := by
  cases rule <;> decide

/-- The rule that is broken. -/
def Violation.rule : Violation → Rule
  | reusedId _ => .distinctIds
  | missingSource _ => .sourceExists
  | missingTarget _ => .targetExists
  | repeatedEdge _ => .edgeOnce
  | foreignPort .. => .portDeclared
  | crowdedPort .. => .portSingle
  | endWithoutLoop .. | endOfOther .. => .endOfLoop
  | unpairedLoop .. => .endedOnce
  | loopWithoutBody _ => .hasBody

namespace Workflow

section

variable (nodes : Multiset Node) (edges : Multiset Edge)

/-- Some node has the identifier. -/
def Known (id : Uuid) : Prop := ∃ node ∈ nodes, node.id = id

instance : DecidablePred (Known nodes) :=
  fun _ => Multiset.decidableExistsMultiset

/-- The edges between known nodes, as often as they are listed. -/
def attached : Multiset Edge :=
  edges.filter fun edge => Known nodes edge.source ∧ Known nodes edge.target

/-- The edge leaves from a port that its source does not have. -/
def Foreign (edge : Edge) : Prop :=
  ∀ node ∈ nodes, node.id = edge.source → edge.port ∉ node.step.ports

instance : DecidablePred (Foreign nodes) :=
  fun _ => Multiset.decidableForallMultiset

/-- At least two different edges between known nodes leave from the port. -/
def Crowded (id : Uuid) (port : Option Port) : Prop :=
  2 ≤ ((attached nodes edges).dedup.filter fun edge => edge.leaves id port).card

instance (id : Uuid) : DecidablePred (Crowded nodes edges id) :=
  fun _ => Nat.decLe ..

/-- The nodes that end the loop. -/
def closing (loopId : Uuid) : Multiset Node :=
  nodes.filter fun node => node.closes? = some loopId

/-- No edge leaves from the body port. -/
def Bodiless (loopId : Uuid) : Prop :=
  ∀ edge ∈ edges, edge.leaves loopId (some .loopBody) = false

instance : DecidablePred (Bodiless edges) :=
  fun _ => Multiset.decidableForallMultiset

/-- What is wrong with an end of a loop that is not there or is no loop. -/
def strayEnd (node : Node) : Multiset Violation :=
  match node.closes? with
  | none => 0
  | some loopId =>
      if Known nodes loopId then
        (nodes.filter fun head => head.id = loopId ∧ head.isLoop = false).map
          (.endOfOther node)
      else {.endWithoutLoop node loopId}

/-- What there is to be found by each rule if identifiers are distinct. -/
def breaches : Rule → Multiset Violation
  | .distinctIds => 0
  | .sourceExists =>
      (edges.filter fun edge => ¬ Known nodes edge.source).map .missingSource
  | .targetExists =>
      (edges.filter fun edge =>
        Known nodes edge.source ∧ ¬ Known nodes edge.target).map .missingTarget
  | .edgeOnce =>
      (attached nodes edges - (attached nodes edges).dedup).map .repeatedEdge
  | .portDeclared =>
      (attached nodes edges).dedup.bind fun edge =>
        (nodes.filter fun node =>
          node.id = edge.source ∧ edge.port ∉ node.step.ports).map
            (.foreignPort edge)
  | .portSingle =>
      nodes.bind fun node =>
        ((node.step.ports : Multiset (Option Port)).filter
          (Crowded nodes edges node.id)).map (.crowdedPort node)
  | .endOfLoop => nodes.bind (strayEnd nodes)
  | .endedOnce =>
      (nodes.filter fun node =>
        node.isLoop ∧ (closing nodes node.id).card ≠ 1).map fun node =>
          .unpairedLoop node (closing nodes node.id).card
  | .hasBody =>
      (nodes.filter fun node => node.isLoop ∧ Bodiless edges node.id).map
        .loopWithoutBody

end

variable {workflow : Workflow}

/-! ## Edges -/

theorem known_iff {id : Uuid} :
    Known (workflow.nodes : Multiset Node) id ↔ workflow.contains id = true :=
  contains_iff.symm

theorem find?_eq_none_iff {id : Uuid} :
    workflow.find? id = none ↔ ¬ Known (workflow.nodes : Multiset Node) id := by
  rw [← Option.not_isSome_iff_eq_none, Option.isSome_iff_exists,
    exists_find?_iff]
  rfl

theorem admits_iff_known {edge : Edge} :
    workflow.admits edge = true ↔
      Known (workflow.nodes : Multiset Node) edge.source ∧
        Known (workflow.nodes : Multiset Node) edge.target := by
  rw [admits_iff, known_iff, known_iff]

theorem attached_coe (edges : List Edge) :
    attached (workflow.nodes : Multiset Node) (edges : Multiset Edge) =
      (edges.filter workflow.admits : List Edge) := by
  rw [attached, Multiset.filter_coe]
  refine congrArg _ (List.filter_congr fun edge _ => ?_)
  rw [Bool.eq_iff_iff, decide_eq_true_eq, admits_iff_known]

/-- What is wrong with the port of an edge between known nodes. -/
def foreignPort? (workflow : Workflow) (edge : Edge) : Option Violation :=
  match workflow.find? edge.source with
  | none => none
  | some source =>
      if edge.port ∈ source.step.ports then none
      else some (.foreignPort edge source)

theorem exists_of_foreignPort? {edge : Edge} {violation : Violation}
    (h : workflow.foreignPort? edge = some violation) :
    ∃ source, violation = .foreignPort edge source := by
  unfold foreignPort? at h
  split at h
  · cases h
  · split at h
    · cases h
    · exact ⟨_, (Option.some.inj h).symm⟩

/-- What the check can find in an edge. -/
inductive Judged (workflow : Workflow) (before : List Edge) (edge : Edge) :
    Option Violation → Prop
  | sourceless
      (missing : ¬ Known (workflow.nodes : Multiset Node) edge.source) :
      Judged workflow before edge (some (.missingSource edge))
  | targetless (source : Known (workflow.nodes : Multiset Node) edge.source)
      (missing : ¬ Known (workflow.nodes : Multiset Node) edge.target) :
      Judged workflow before edge (some (.missingTarget edge))
  | repeated (admits : workflow.admits edge = true) (seen : edge ∈ before) :
      Judged workflow before edge (some (.repeatedEdge edge))
  | new (admits : workflow.admits edge = true) (unseen : edge ∉ before) :
      Judged workflow before edge (workflow.foreignPort? edge)

theorem judged_edgeViolation? (before : List Edge) (edge : Edge) :
    workflow.Judged before edge (workflow.edgeViolation? before edge) := by
  unfold edgeViolation?
  cases hfind : workflow.find? edge.source with
  | none => exact .sourceless (find?_eq_none_iff.1 hfind)
  | some source =>
      have hsource : Known (workflow.nodes : Multiset Node) edge.source :=
        exists_find?_iff.1 ⟨source, hfind⟩
      by_cases htarget : Known (workflow.nodes : Multiset Node) edge.target
      · have hadmits := admits_iff_known.2 ⟨hsource, htarget⟩
        have hcontains := known_iff.1 htarget
        by_cases hseen : edge ∈ before
        · simpa [hcontains, hseen] using Judged.repeated hadmits hseen
        · have hnew := Judged.new hadmits hseen
          unfold foreignPort? at hnew
          rw [hfind] at hnew
          by_cases hport : edge.port ∈ source.step.ports
          · simpa [hcontains, hseen, hport] using hnew
          · simpa [hcontains, hseen, hport] using hnew
      · have hcontains := mt known_iff.2 htarget
        simpa [hcontains] using Judged.targetless hsource htarget

theorem fresh_of_stray {before : List Edge} {edge : Edge} {rest : List Edge}
    (h : ¬ workflow.admits edge = true) :
    Arcs.fresh (edge :: before) (rest.filter workflow.admits) =
      Arcs.fresh before (rest.filter workflow.admits) := by
  refine Arcs.fresh_congr fun a ha => ?_
  rw [List.mem_cons, or_iff_right]
  rintro rfl
  exact h (List.mem_filter.1 ha).2

section

variable (nodes : Multiset Node) (edge : Edge) (edges : Multiset Edge)

theorem attached_cons :
    attached nodes (edge ::ₘ edges) =
      (if Known nodes edge.source ∧ Known nodes edge.target then {edge} else 0) +
        attached nodes edges :=
  Multiset.filter_cons _

theorem breaches_sourceExists_cons :
    breaches nodes (edge ::ₘ edges) .sourceExists =
      (if Known nodes edge.source then 0 else {.missingSource edge}) +
        breaches nodes edges .sourceExists := by
  rw [breaches, Multiset.filter_cons, Multiset.map_add, ite_not]
  split <;> rfl

theorem breaches_targetExists_cons :
    breaches nodes (edge ::ₘ edges) .targetExists =
      (if Known nodes edge.source ∧ ¬ Known nodes edge.target then
          {.missingTarget edge} else 0) +
        breaches nodes edges .targetExists := by
  rw [breaches, Multiset.filter_cons, Multiset.map_add]
  split <;> rfl

end

theorem coe_edgeViolations (before edges : List Edge) :
    (workflow.edgeViolations before edges : Multiset Violation) =
      breaches workflow.nodes edges .sourceExists +
        breaches workflow.nodes edges .targetExists +
        (attached workflow.nodes edges -
          (Arcs.fresh before (edges.filter workflow.admits) : List Edge)).map
            .repeatedEdge +
        (Arcs.fresh before (edges.filter workflow.admits) :
          Multiset Edge).bind fun edge =>
            ((workflow.foreignPort? edge).toList : List Violation) := by
  induction edges generalizing before with
  | nil => rfl
  | cons edge rest ih =>
      have hjudged := workflow.judged_edgeViolation? before edge
      rw [edgeViolations, ← Multiset.coe_add, ih, ← Multiset.cons_coe,
        attached_cons, breaches_sourceExists_cons, breaches_targetExists_cons]
      generalize workflow.edgeViolation? before edge = found at hjudged ⊢
      cases hjudged with
      | sourceless hmissing =>
          have hstray : ¬ workflow.admits edge = true := fun h =>
            hmissing (admits_iff_known.1 h).1
          rw [if_neg hmissing, if_neg fun h => hmissing h.1,
            if_neg fun h => hmissing h.1, List.filter_cons_of_neg hstray,
            fresh_of_stray hstray]
          simp only [zero_add, add_assoc]
          rfl
      | targetless hsource hmissing =>
          have hstray : ¬ workflow.admits edge = true := fun h =>
            hmissing (admits_iff_known.1 h).2
          rw [if_pos hsource, if_pos ⟨hsource, hmissing⟩,
            if_neg fun h => hmissing h.2, List.filter_cons_of_neg hstray,
            fresh_of_stray hstray]
          simp only [zero_add, add_assoc]
          exact add_left_comm ..
      | repeated hadmits hseen =>
          have hends := admits_iff_known.1 hadmits
          have hbefore : ∀ a, a ∈ edge :: before ↔ a ∈ before := fun a =>
            List.mem_cons.trans (or_iff_right_of_imp (· ▸ hseen))
          have hle :
              (Arcs.fresh before (rest.filter workflow.admits) :
                Multiset Edge) ≤ attached workflow.nodes rest := by
            rw [attached_coe]
            exact Multiset.coe_le.2 (Arcs.fresh_sublist ..).subperm
          rw [if_pos hends.1, if_neg fun h => h.2 hends.2, if_pos hends,
            List.filter_cons_of_pos hadmits,
            Arcs.fresh_congr fun a _ => hbefore a, Arcs.fresh,
            if_pos (List.contains_iff_mem.2 hseen), Multiset.singleton_add,
            Multiset.cons_sub_of_le edge hle, Multiset.map_cons]
          simp only [zero_add, Multiset.add_cons, Multiset.cons_add]
          rfl
      | new hadmits hunseen =>
          have hends := admits_iff_known.1 hadmits
          have hcontains : ¬ before.contains edge = true :=
            mt List.contains_iff_mem.1 hunseen
          rw [if_pos hends.1, if_neg fun h => h.2 hends.2, if_pos hends,
            List.filter_cons_of_pos hadmits, Arcs.fresh, if_neg hcontains,
            Multiset.singleton_add, ← Multiset.cons_coe, Multiset.sub_cons,
            Multiset.erase_cons_head, Multiset.cons_bind]
          simp only [zero_add]
          exact add_left_comm ..

/-! ## Distinct identifiers -/

section

variable (hids : (workflow.nodes.map (·.id)).Nodup)

include hids

/-- There is no node with the identifier but the one that is found. -/
theorem filter_id_and {id : Uuid} {found : Node}
    (hfind : workflow.find? id = some found) (p : Node → Prop)
    [DecidablePred p] :
    ((workflow.nodes : Multiset Node).filter fun node =>
        node.id = id ∧ p node) =
      if p found then {found} else 0 := by
  obtain ⟨hfound, hid⟩ := mem_of_find? hfind
  have hsame : ∀ node ∈ (workflow.nodes : Multiset Node),
      (node.id = id ∧ p node) ↔ (node = found ∧ p found) := by
    intro node hnode
    refine ⟨fun h => ?_, fun h => ?_⟩
    · obtain rfl := eq_of_id_eq hids hnode hfound (h.1.trans hid.symm)
      exact ⟨rfl, h.2⟩
    · rw [h.1]
      exact ⟨hid, h.2⟩
  have hnodup : (workflow.nodes : Multiset Node).Nodup :=
    Multiset.coe_nodup.2 (List.Nodup.of_map _ hids)
  rw [Multiset.filter_congr hsame]
  by_cases hp : p found
  · simp only [hp, and_true, if_true]
    rw [Multiset.filter_eq', Multiset.count_eq_one_of_mem hnodup hfound,
      Multiset.replicate_one]
  · simp only [hp, and_false, if_false, Multiset.filter_false]

theorem coe_foreignPort? (edge : Edge) :
    ((workflow.foreignPort? edge).toList : Multiset Violation) =
      ((workflow.nodes : Multiset Node).filter fun node =>
        node.id = edge.source ∧ edge.port ∉ node.step.ports).map
          (.foreignPort edge) := by
  unfold foreignPort?
  cases hfind : workflow.find? edge.source with
  | none =>
      have hnone := Multiset.filter_eq_nil.2 fun node hnode
          (h : node.id = edge.source ∧ edge.port ∉ node.step.ports) =>
        find?_eq_none_iff.1 hfind ⟨node, hnode, h.1⟩
      rw [hnone]
      rfl
  | some source =>
      rw [filter_id_and hids hfind, ite_not]
      dsimp only
      split <;> rfl

theorem coe_edgeViolations_nil :
    (workflow.edgeViolations [] workflow.edges : Multiset Violation) =
      breaches workflow.nodes workflow.edges .sourceExists +
        breaches workflow.nodes workflow.edges .targetExists +
        breaches workflow.nodes workflow.edges .edgeOnce +
        breaches workflow.nodes workflow.edges .portDeclared := by
  rw [coe_edgeViolations, Arcs.coe_fresh_nil, ← attached_coe]
  simp only [coe_foreignPort? hids]
  rfl

end

theorem coe_soundEdges (workflow : Workflow) :
    (workflow.soundEdges : Multiset Edge) =
      (attached workflow.nodes workflow.edges).dedup := by
  rw [attached_coe, ← Arcs.coe_fresh_nil, ← Arcs.eraseDups_eq_fresh]
  rfl

theorem crowded_iff {id : Uuid} {port : Option Port} :
    Crowded (workflow.nodes : Multiset Node) (workflow.edges : Multiset Edge) id
        port ↔
      1 < workflow.soundEdges.countP (·.leaves id port) := by
  rw [Crowded, ← coe_soundEdges, Multiset.filter_coe, Multiset.coe_card,
    ← List.countP_eq_length_filter, Nat.succ_le_iff]
  simp only [Bool.decide_eq_true]

theorem coe_crowdedPorts (workflow : Workflow) :
    (workflow.crowdedPorts : Multiset Violation) =
      breaches workflow.nodes workflow.edges .portSingle := by
  rw [breaches, crowdedPorts, ← Multiset.coe_bind]
  refine Multiset.bind_congr fun node _ => ?_
  rw [Multiset.filter_coe, Multiset.map_coe]
  simp only [crowded_iff]

/-! ## Loops and their ends -/

theorem closing_coe (loopId : Uuid) :
    closing (workflow.nodes : Multiset Node) loopId =
      (workflow.endsOf loopId : List Node) := by
  rw [closing, Multiset.filter_coe, endsOf]
  refine congrArg _ (List.filter_congr fun node _ => ?_)
  rw [Bool.eq_iff_iff, decide_eq_true_iff, beq_iff_eq]

theorem bodiless_iff {loopId : Uuid} :
    Bodiless (workflow.edges : Multiset Edge) loopId ↔
      ¬ (workflow.edgeFrom? loopId (some .loopBody)).isSome = true := by
  rw [edgeFrom?_isSome_iff]
  simp only [Bodiless, Multiset.mem_coe, ← Edge.leaves_iff, Bool.not_eq_true,
    not_exists, not_and]

theorem coe_pairingViolations (hids : (workflow.nodes.map (·.id)).Nodup)
    (node : Node) :
    (workflow.pairingViolations node : Multiset Violation) =
      strayEnd workflow.nodes node +
        (if node.isLoop ∧ (closing workflow.nodes node.id).card ≠ 1 then
          {.unpairedLoop node (closing workflow.nodes node.id).card} else 0) +
        (if node.isLoop ∧ Bodiless workflow.edges node.id then
          {.loopWithoutBody node} else 0) := by
  rw [closing_coe, Multiset.coe_card, strayEnd, Node.closes?, Node.isLoop]
  simp only [bodiless_iff]
  unfold pairingViolations
  split
  · next params hstep =>
      rw [hstep]
      dsimp only [Step.closes?, Step.isLoop]
      cases hfind : workflow.find? params.loopId with
      | none =>
          have hknown := find?_eq_none_iff.1 hfind
          simp [hknown]
      | some head =>
          have hknown : Known (workflow.nodes : Multiset Node) params.loopId :=
            exists_find?_iff.1 ⟨head, hfind⟩
          rw [if_pos hknown, filter_id_and hids hfind]
          cases hloop : head.isLoop <;> simp [hloop]
  · next loop hstep =>
      rw [hstep]
      dsimp only [Step.closes?, Step.isLoop]
      rw [← Multiset.coe_add, zero_add]
      simp only [true_and, ne_eq, ite_not]
      congr 1 <;> split <;> rfl
  · next hend hloop =>
      cases hstep : node.step with
      | endLoop params => exact absurd hstep (hend params)
      | loop loop => exact absurd hstep (hloop loop)
      | _ => rfl

/-- Something is found in those that are asked for. -/
theorem bind_ite {α β : Type} (s : Multiset α) (p : α → Prop) [DecidablePred p]
    (f : α → β) :
    (s.bind fun a => if p a then {f a} else 0) = (s.filter p).map f := by
  rw [← Multiset.bind_singleton, Multiset.bind_filter]

theorem coe_pairings (hids : (workflow.nodes.map (·.id)).Nodup) :
    (workflow.nodes.flatMap workflow.pairingViolations : Multiset Violation) =
      breaches workflow.nodes workflow.edges .endOfLoop +
        breaches workflow.nodes workflow.edges .endedOnce +
        breaches workflow.nodes workflow.edges .hasBody := by
  rw [← Multiset.coe_bind]
  simp only [coe_pairingViolations hids, Multiset.bind_add, bind_ite]
  rfl

/-! ## All together -/

theorem coe_violations (hids : (workflow.nodes.map (·.id)).Nodup) :
    (workflow.violations : Multiset Violation) =
      (Rule.all : Multiset Rule).bind
        (breaches workflow.nodes workflow.edges) := by
  have hreused : reusedIds [] workflow.nodes = [] :=
    reusedIds_eq_nil_iff.2 ⟨hids, fun _ _ => List.not_mem_nil⟩
  rw [violations, hreused, List.nil_append, ← Multiset.coe_add,
    ← Multiset.coe_add, coe_edgeViolations_nil hids, coe_crowdedPorts,
    coe_pairings hids]
  simp only [Rule.all, ← Multiset.cons_coe, Multiset.cons_bind,
    Multiset.coe_nil, Multiset.zero_bind, add_zero, add_assoc]
  exact (zero_add _).symm

end Workflow

end Workbench
