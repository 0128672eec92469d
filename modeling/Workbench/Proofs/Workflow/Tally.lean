import Mathlib.Data.Multiset.Count
import Workbench.Proofs.Workflow.Breaches
import Workbench.Proofs.Workflow.Reordered

/-!
# Nothing is masked and nothing is counted twice

What the check finds is, as a bag, all the breaches together. A violation tells
which rule it breaks, so what there is of one rule in that bag is what
`breaches` has for the rule, however much else is wrong with the same nodes,
edges and ports. Its size is a number that can be told without the violations
(`tally`): each edge, each node or each port is to blame once or not at all.

With distinct identifiers there is no word of an order in this. Another order of
nodes and edges leaves the bag as it is, and the names by which a message calls
the nodes, so it leaves the bag of messages as it is. Identifiers that are not
distinct can still be counted. A walk along the nodes meets each identifier for
a first time, and at all other times it is reused.
-/

namespace Workbench.Workflow

variable {workflow : Workflow}

section

variable (nodes : Multiset Node) (edges : Multiset Edge)

/-- How much is wrong by each rule. Of edges that are the same, those between
known nodes count once at their port, and all but one as repetitions. A port
counts as often as its node lists it. -/
def tally : Rule → Nat
  | .distinctIds => nodes.card - (nodes.map (·.id)).dedup.card
  | .sourceExists => edges.countP fun edge => ¬ Known nodes edge.source
  | .targetExists =>
      edges.countP fun edge =>
        Known nodes edge.source ∧ ¬ Known nodes edge.target
  | .edgeOnce => (attached nodes edges).card - (attached nodes edges).dedup.card
  | .portDeclared => (attached nodes edges).dedup.countP (Foreign nodes)
  | .portSingle =>
      (nodes.bind fun node =>
        (node.step.ports : Multiset (Option Port)).filter
          (Crowded nodes edges node.id)).card
  | .endOfLoop =>
      nodes.countP fun node => ∃ loopId ∈ node.closes?,
        ∀ head ∈ nodes, head.id = loopId → head.isLoop = false
  | .endedOnce =>
      nodes.countP fun node => node.isLoop ∧ (closing nodes node.id).card ≠ 1
  | .hasBody => nodes.countP fun node => node.isLoop ∧ Bodiless edges node.id

end

/-! ## One rule -/

theorem rule_of_mem_strayEnd {nodes : Multiset Node} {node : Node}
    {violation : Violation} (h : violation ∈ strayEnd nodes node) :
    violation.rule = .endOfLoop := by
  unfold strayEnd at h
  split at h
  · exact absurd h (Multiset.notMem_zero _)
  · split at h
    · obtain ⟨head, -, rfl⟩ := Multiset.mem_map.1 h
      rfl
    · rw [Multiset.mem_singleton.1 h]
      rfl

theorem rule_of_mem_breaches {nodes : Multiset Node} {edges : Multiset Edge}
    {rule : Rule} {violation : Violation}
    (h : violation ∈ breaches nodes edges rule) : violation.rule = rule := by
  cases rule with
  | distinctIds => exact absurd h (Multiset.notMem_zero _)
  | portDeclared =>
      obtain ⟨edge, -, hedge⟩ := Multiset.mem_bind.1 h
      obtain ⟨node, -, rfl⟩ := Multiset.mem_map.1 hedge
      rfl
  | portSingle =>
      obtain ⟨node, -, hnode⟩ := Multiset.mem_bind.1 h
      obtain ⟨port, -, rfl⟩ := Multiset.mem_map.1 hnode
      rfl
  | endOfLoop =>
      obtain ⟨node, -, hnode⟩ := Multiset.mem_bind.1 h
      exact rule_of_mem_strayEnd hnode
  | _ =>
      obtain ⟨_, -, rfl⟩ := Multiset.mem_map.1 h
      rfl

/-- Bags of violations of one rule each can be told apart when they are put
together. -/
theorem filter_rule_bind {bag : Rule → Multiset Violation}
    (hbag : ∀ rule, ∀ violation ∈ bag rule, violation.rule = rule)
    {rules : List Rule} (hnodup : rules.Nodup) {rule : Rule}
    (hrule : rule ∈ rules) :
    ((rules : Multiset Rule).bind bag).filter (·.rule = rule) = bag rule := by
  have hpick : ∀ other, (bag other).filter (·.rule = rule) =
      if other = rule then bag other else 0 := by
    intro other
    split
    · next heq =>
        exact Multiset.filter_eq_self.2 fun violation h =>
          (hbag other violation h).trans heq
    · next hne =>
        exact Multiset.filter_eq_nil.2 fun violation h heq =>
          hne ((hbag other violation h).symm.trans heq)
  simp only [Multiset.filter_bind, hpick]
  rw [← Multiset.bind_filter, Multiset.filter_eq', Multiset.coe_count,
    List.count_eq_one_of_mem hnodup hrule, Multiset.replicate_one,
    Multiset.singleton_bind]

theorem filter_rule_violations (hids : (workflow.nodes.map (·.id)).Nodup)
    (rule : Rule) :
    (workflow.violations : Multiset Violation).filter (·.rule = rule) =
      breaches workflow.nodes workflow.edges rule := by
  rw [coe_violations hids]
  exact filter_rule_bind (fun _ _ => rule_of_mem_breaches) Rule.nodup_all
    (Rule.mem_all rule)

/-! ## Sizes -/

theorem card_bind_eq_countP {α β : Type} {s : Multiset α} {f : α → Multiset β}
    {p : α → Prop} [DecidablePred p]
    (h : ∀ a ∈ s, (f a).card = if p a then 1 else 0) :
    (s.bind f).card = s.countP p := by
  induction s using Multiset.induction with
  | empty => rfl
  | cons a s ih =>
      obtain ⟨ha, hs⟩ := Multiset.forall_mem_cons.1 h
      rw [Multiset.cons_bind, Multiset.card_add, ha, ih hs,
        Multiset.countP_cons, Nat.add_comm]

section

variable (hids : (workflow.nodes.map (·.id)).Nodup)

include hids

theorem card_filter_id_and {id : Uuid}
    (hknown : Known (workflow.nodes : Multiset Node) id) (p : Node → Prop)
    [DecidablePred p] {q : Prop} [Decidable q]
    (hq : q ↔ ∀ node ∈ workflow.nodes, node.id = id → p node) :
    ((workflow.nodes : Multiset Node).filter fun node =>
        node.id = id ∧ p node).card =
      if q then 1 else 0 := by
  obtain ⟨found, hfind⟩ := exists_find?_iff.2 hknown
  have hqp : q ↔ p found := by
    rw [hq]
    refine ⟨fun h => ?_, fun h node hnode hid => ?_⟩
    · obtain ⟨hfound, hid⟩ := mem_of_find? hfind
      exact h found hfound hid
    · rw [(find?_eq_some_iff hids).2 ⟨hnode, hid⟩, Option.some.injEq] at hfind
      exact hfind ▸ h
  rw [filter_id_and hids hfind]
  by_cases hp : p found
  · rw [if_pos hp, if_pos (hqp.2 hp), Multiset.card_singleton]
  · rw [if_neg hp, if_neg (mt hqp.1 hp), Multiset.card_zero]

theorem card_strayEnd (node : Node) :
    (strayEnd (workflow.nodes : Multiset Node) node).card =
      if ∃ loopId ∈ node.closes?, ∀ head ∈ (workflow.nodes : Multiset Node),
        head.id = loopId → head.isLoop = false then 1 else 0 := by
  unfold strayEnd
  cases node.closes? with
  | none => simp
  | some loopId =>
      have hq : (∃ id ∈ some loopId, ∀ head ∈ (workflow.nodes : Multiset Node),
          head.id = id → head.isLoop = false) ↔
            ∀ head ∈ workflow.nodes,
              head.id = loopId → head.isLoop = false := by
        simp
      dsimp only
      by_cases hknown : Known (workflow.nodes : Multiset Node) loopId
      · rw [if_pos hknown, Multiset.card_map]
        exact card_filter_id_and hids hknown _ hq
      · rw [if_neg hknown, if_pos (hq.2 fun head hhead hid =>
          absurd ⟨head, hhead, hid⟩ hknown), Multiset.card_singleton]

theorem card_breaches (rule : Rule) :
    (breaches workflow.nodes workflow.edges rule).card =
      tally workflow.nodes workflow.edges rule := by
  cases rule with
  | distinctIds =>
      have hnodup : ((workflow.nodes : Multiset Node).map (·.id)).Nodup :=
        Multiset.coe_nodup.2 hids
      rw [breaches, tally, hnodup.dedup, Multiset.card_map, Nat.sub_self,
        Multiset.card_zero]
  | edgeOnce =>
      rw [breaches, tally, Multiset.card_map,
        Multiset.card_sub (Multiset.dedup_le _)]
  | portDeclared =>
      refine card_bind_eq_countP fun edge hedge => ?_
      have hattached := Multiset.mem_dedup.1 hedge
      have hknown := (Multiset.mem_filter.1 hattached).2.1
      rw [Multiset.card_map]
      exact card_filter_id_and hids hknown _ Iff.rfl
  | portSingle =>
      rw [breaches, tally, Multiset.card_bind, Multiset.card_bind]
      simp only [Function.comp_def, Multiset.card_map]
  | endOfLoop => exact card_bind_eq_countP fun node _ => card_strayEnd hids node
  | _ => rw [breaches, tally, Multiset.card_map, Multiset.countP_eq_card_filter]

theorem countP_rule_violations (rule : Rule) :
    workflow.violations.countP (·.rule = rule) =
      tally workflow.nodes workflow.edges rule := by
  rw [← card_breaches hids, ← filter_rule_violations hids, Multiset.filter_coe,
    Multiset.coe_card, List.countP_eq_length_filter]

end

/-! ## Identifiers -/

theorem length_reusedIds (seen : List Uuid) (nodes : List Node) :
    (reusedIds seen nodes).length +
      (Arcs.fresh seen (nodes.map (·.id))).length = nodes.length := by
  induction nodes generalizing seen with
  | nil => rfl
  | cons node rest ih =>
      rw [reusedIds, List.map_cons, Arcs.fresh]
      split
      · have := ih seen
        simp only [List.length_cons]
        omega
      · have := ih (node.id :: seen)
        simp only [List.length_cons]
        omega

theorem rule_ne_of_mem_edgeViolations {before edges : List Edge}
    {violation : Violation}
    (h : violation ∈ workflow.edgeViolations before edges) :
    violation.rule ≠ .distinctIds := by
  rw [← Multiset.mem_coe, coe_edgeViolations, Multiset.mem_add,
    Multiset.mem_add, Multiset.mem_add] at h
  rcases h with ((hsource | htarget) | hrepeated) | hforeign
  · rw [rule_of_mem_breaches hsource]
    exact Rule.noConfusion
  · rw [rule_of_mem_breaches htarget]
    exact Rule.noConfusion
  · obtain ⟨edge, -, rfl⟩ := Multiset.mem_map.1 hrepeated
    exact Rule.noConfusion
  · obtain ⟨edge, -, hedge⟩ := Multiset.mem_bind.1 hforeign
    obtain ⟨source, rfl⟩ := exists_of_foreignPort? (Option.mem_toList.1 hedge)
    exact Rule.noConfusion

theorem rule_ne_of_mem_pairingViolations {node : Node} {violation : Violation}
    (h : violation ∈ workflow.pairingViolations node) :
    violation.rule ≠ .distinctIds := by
  obtain ⟨loopId, rfl⟩ | ⟨target, rfl⟩ | ⟨ends, rfl⟩ | rfl :=
    cases_of_mem_pairingViolations h
  all_goals exact Rule.noConfusion

theorem countP_distinctIds_violations (workflow : Workflow) :
    workflow.violations.countP (·.rule = .distinctIds) =
      tally workflow.nodes workflow.edges .distinctIds := by
  have hreused : (reusedIds [] workflow.nodes).countP (·.rule = .distinctIds) =
      (reusedIds [] workflow.nodes).length := by
    refine List.countP_eq_length.2 fun violation h => ?_
    obtain ⟨node, -, rfl⟩ := exists_of_mem_reusedIds h
    rfl
  have hedges : (workflow.edgeViolations [] workflow.edges).countP
      (·.rule = .distinctIds) = 0 :=
    List.countP_eq_zero.2 fun _ h heq =>
      rule_ne_of_mem_edgeViolations h (of_decide_eq_true heq)
  have hports : workflow.crowdedPorts.countP (·.rule = .distinctIds) = 0 := by
    refine List.countP_eq_zero.2 fun violation h heq => ?_
    rw [← Multiset.mem_coe, coe_crowdedPorts] at h
    cases (rule_of_mem_breaches h).symm.trans (of_decide_eq_true heq)
  have hpairs : (workflow.nodes.flatMap workflow.pairingViolations).countP
      (·.rule = .distinctIds) = 0 := by
    refine List.countP_eq_zero.2 fun violation h heq => ?_
    obtain ⟨node, -, hnode⟩ := List.mem_flatMap.1 h
    exact rule_ne_of_mem_pairingViolations hnode (of_decide_eq_true heq)
  have hfresh : (Arcs.fresh [] (workflow.nodes.map (·.id))).length =
      ((workflow.nodes : Multiset Node).map (·.id)).dedup.card := by
    rw [Multiset.map_coe, ← Arcs.coe_fresh_nil, Multiset.coe_card]
  have hlength := length_reusedIds [] workflow.nodes
  rw [violations, List.countP_append, List.countP_append, List.countP_append,
    hreused, hedges, hports, hpairs, tally, ← hfresh, Multiset.coe_card]
  omega

/-! ## Order -/

section

variable {other : Workflow} (hids : (workflow.nodes.map (·.id)).Nodup)
  (h : workflow.Reordered other)

include hids h

theorem Reordered.nodeName_eq : workflow.nodeName = other.nodeName := by
  funext id
  have hfind : workflow.find? id = other.find? id := by
    refine find?_eq_of_perm h.nodes fun a ha b hb hida hidb => ?_
    exact eq_of_id_eq hids ha hb
      ((beq_iff_eq.1 hida).trans (beq_iff_eq.1 hidb).symm)
  rw [nodeName, nodeName, hfind]

theorem Reordered.message_eq :
    Violation.message workflow = Violation.message other := by
  funext violation
  cases violation with
  | missingSource edge | missingTarget edge | repeatedEdge edge =>
      simp only [Violation.message, describeEdge, h.nodeName_eq hids]
  | _ => rfl

theorem Reordered.check_perm : workflow.check.Perm other.check := by
  have hothers : (other.nodes.map (·.id)).Nodup :=
    (h.nodes.map _).nodup_iff.1 hids
  have hsame : (workflow.violations : Multiset Violation) =
      other.violations := by
    rw [coe_violations hids, coe_violations hothers,
      Multiset.coe_eq_coe.2 h.nodes, Multiset.coe_eq_coe.2 h.edges]
  rw [check, check, h.message_eq hids]
  exact (Multiset.coe_eq_coe.1 hsame).map _

end

/-- The check finds one reused identifier for every node beyond the distinct
identifiers. Where identifiers are distinct, it puts into words all breaches and
nothing else, and of each rule there are as many as the tally says; another
order of nodes and edges gives the same messages in another order. -/
theorem check_tallied (workflow : Workflow) :
    workflow.violations.countP (·.rule = .distinctIds) =
      tally workflow.nodes workflow.edges .distinctIds ∧
    ((workflow.nodes.map (·.id)).Nodup →
      (workflow.check : Multiset String) =
        ((Rule.all : Multiset Rule).bind
          (breaches workflow.nodes workflow.edges)).map (·.message workflow) ∧
      (∀ rule,
        (workflow.violations : Multiset Violation).filter (·.rule = rule) =
          breaches workflow.nodes workflow.edges rule) ∧
      (∀ rule, workflow.violations.countP (·.rule = rule) =
        tally workflow.nodes workflow.edges rule) ∧
      ∀ other, workflow.Reordered other → workflow.check.Perm other.check) := by
  refine ⟨countP_distinctIds_violations workflow, fun hids => ?_⟩
  refine ⟨?_, filter_rule_violations hids, countP_rule_violations hids,
    fun _ h => h.check_perm hids⟩
  rw [← coe_violations hids, Multiset.map_coe]
  rfl

/-- Two edges start nowhere and one ends nowhere. Of the edges from the note,
one is there twice, two share the port and two have labels of other steps. The
switch has a case twice over that two edges leave from. The loop has no body and
two ends, and two more ends have no loop. -/
def wreck : Workflow where
  id := .ofNat 0
  name := "wreck"
  nodes :=
    [{ id := .ofNat 1, name := "loop"
       step := .loop { exitCondition := ⟨"x", .isEmpty, .null⟩ } },
      { id := .ofNat 2, name := "note", step := .typeText {} },
      { id := .ofNat 3, name := "End loop", step := .endLoop ⟨.ofNat 1⟩ },
      { id := .ofNat 4, name := "End loop", step := .endLoop ⟨.ofNat 1⟩ },
      { id := .ofNat 5, name := "End note", step := .endLoop ⟨.ofNat 2⟩ },
      { id := .ofNat 6, name := "End", step := .endLoop ⟨.ofNat 9⟩ },
      { id := .ofNat 7, name := "switch"
        step := .switch
          ⟨[⟨"case", ⟨"x", .isEmpty, .null⟩⟩,
            ⟨"case", ⟨"y", .isEmpty, .null⟩⟩]⟩ }]
  edges :=
    [⟨.ofNat 9, .ofNat 1, none⟩, ⟨.ofNat 9, .ofNat 9, none⟩,
      ⟨.ofNat 2, .ofNat 9, none⟩, ⟨.ofNat 2, .ofNat 3, none⟩,
      ⟨.ofNat 2, .ofNat 3, none⟩, ⟨.ofNat 2, .ofNat 4, none⟩,
      ⟨.ofNat 2, .ofNat 5, some .loopBody⟩,
      ⟨.ofNat 2, .ofNat 6, some .loopBody⟩,
      ⟨.ofNat 7, .ofNat 2, some (.switchCase "case")⟩,
      ⟨.ofNat 7, .ofNat 3, some (.switchCase "case")⟩]

def wreckBackwards : Workflow :=
  { wreck with nodes := wreck.nodes.reverse, edges := wreck.edges.reverse }

theorem wreck_tallied :
    Rule.all.map (fun rule => wreck.violations.countP (·.rule = rule)) =
      [0, 2, 1, 1, 2, 3, 2, 1, 1] ∧
    wreck.check.Perm wreckBackwards.check ∧
    wreck.check ≠ wreckBackwards.check := by
  have hids : (wreck.nodes.map (·.id)).Nodup := by decide +kernel
  have hnumbers : Rule.all.map (tally wreck.nodes wreck.edges) =
      [0, 2, 1, 1, 2, 3, 2, 1, 1] := by
    decide +kernel
  have h : wreck.Reordered wreckBackwards :=
    ⟨(List.reverse_perm _).symm, (List.reverse_perm _).symm⟩
  obtain ⟨-, -, hcount, horder⟩ := (check_tallied wreck).2 hids
  refine ⟨?_, horder wreckBackwards h, by decide +kernel⟩
  rw [← hnumbers]
  exact List.map_congr_left fun rule _ => hcount rule

end Workbench.Workflow
