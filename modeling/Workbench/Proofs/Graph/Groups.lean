import Mathlib.Data.List.Sort
import Workbench.Proofs.Graph.Components
import Workbench.Proofs.Workflow.Lookup

/-!
# The groups a workflow falls into

Enabled nodes hang together if edges between enabled nodes lead from one to the
other, whichever way the edges point. `Grouping` says which lists of nodes are
the groups and in which order they come, and it admits one answer only. So it is
enough to show, once, that the walks give a grouping, in whatever order they
follow the arcs. That the message depends neither on that order nor on the
order, number, direction and ports of the edges follows, and so does that nodes
without neighbours, disabled nodes and edges that lead back or nowhere leave no
trace in it.
-/

namespace Workbench.Workflow

variable {workflow other : Workflow} {groups : List (List Node)}
  {arcs : Arcs Uuid}

def IsEnabled (workflow : Workflow) (id : Uuid) : Prop :=
  ∃ node ∈ workflow.nodes, node.enabled = true ∧ node.id = id

/-- The equivalence generated by the edges between enabled nodes. -/
def HangTogether (workflow : Workflow) : Uuid → Uuid → Prop :=
  Relation.EqvGen fun a b => workflow.IsEnabled a ∧ workflow.IsEnabled b ∧
    workflow.Joins a b

/-- Two different enabled nodes hang together, and so belong to a group. -/
structure Fellows (workflow : Workflow) (a b : Uuid) : Prop where
  ne : a ≠ b
  left : workflow.IsEnabled a
  right : workflow.IsEnabled b
  together : workflow.HangTogether a b

open scoped Classical in
/-- The enabled nodes that hang together with the given one, in the order of the
workflow. -/
noncomputable def company (workflow : Workflow) (id : Uuid) : List Node :=
  workflow.enabledNodes.filter fun node =>
    decide (workflow.HangTogether id node.id)

/-- The groups in the order of their first nodes. -/
structure Grouping (workflow : Workflow) (groups : List (List Node)) :
    Prop where
  is_company : ∀ group ∈ groups, ∃ a b,
    workflow.Fellows a b ∧ group = workflow.company a
  complete : ∀ a b, workflow.Fellows a b → workflow.company a ∈ groups
  ordered : groups.Pairwise fun g h =>
    workflow.nodes.findIdx (· ∈ g) < workflow.nodes.findIdx (· ∈ h)

theorem mem_enabledNodes {node : Node} :
    node ∈ workflow.enabledNodes ↔
      node ∈ workflow.nodes ∧ node.enabled = true := by
  rw [enabledNodes, List.mem_filter]

theorem isEnabled_iff {id : Uuid} :
    workflow.IsEnabled id ↔ id ∈ workflow.enabledNodes.map (·.id) := by
  simp only [IsEnabled, List.mem_map, mem_enabledNodes, and_assoc]

theorem mem_company {id : Uuid} {node : Node} :
    node ∈ workflow.company id ↔
      node ∈ workflow.enabledNodes ∧ workflow.HangTogether id node.id := by
  classical
  rw [company, List.mem_filter, decide_eq_true_eq]

theorem company_congr {a b : Uuid} (h : workflow.HangTogether a b) :
    workflow.company a = workflow.company b := by
  refine List.filter_congr fun node _ => ?_
  rw [decide_eq_decide]
  exact ⟨fun ha => .trans _ _ _ (.symm _ _ h) ha, fun hb => .trans _ _ _ h hb⟩

/-- A workflow has one grouping: it fixes the groups, and their first nodes fix
the order. -/
theorem Grouping.unique {groups' : List (List Node)}
    (h : workflow.Grouping groups) (h' : workflow.Grouping groups') :
    groups = groups' := by
  let earlier (g h : List Node) : Prop :=
    workflow.nodes.findIdx (· ∈ g) < workflow.nodes.findIdx (· ∈ h)
  have : Std.Irrefl earlier := ⟨fun _ => Nat.lt_irrefl _⟩
  have : Std.Antisymm earlier :=
    ⟨fun _ _ hlt hgt => absurd hgt (Nat.lt_asymm hlt)⟩
  refine List.Pairwise.eq_of_mem_iff (r := earlier) h.ordered h'.ordered
    fun group => ?_
  refine ⟨?_, ?_⟩
  · intro hmem
    obtain ⟨a, b, hfellows, rfl⟩ := h.is_company group hmem
    exact h'.complete a b hfellows
  · intro hmem
    obtain ⟨a, b, hfellows, rfl⟩ := h'.is_company group hmem
    exact h.complete a b hfellows

/-! ## The walks give a grouping -/

/-- The arcs between enabled neighbours, in any order. -/
def EnabledArcs (workflow : Workflow) (arcs : Arcs Uuid) : Prop :=
  ∀ a b, (a, b) ∈ arcs ↔ workflow.IsEnabled a ∧ workflow.IsEnabled b ∧
    (workflow.Joins a b ∨ workflow.Joins b a)

theorem enabledArcs_enabledArcs (workflow : Workflow) :
    workflow.EnabledArcs workflow.enabledArcs := by
  intro a b
  simp only [enabledArcs, List.mem_flatMap, List.mem_filter, Bool.and_eq_true,
    List.contains_iff_mem, ← isEnabled_iff, List.mem_cons,
    List.not_mem_nil, or_false, Prod.mk.injEq]
  refine ⟨?_, ?_⟩
  · intro h
    obtain ⟨edge, ⟨hedge, hsource, htarget⟩, ⟨rfl, rfl⟩ | ⟨rfl, rfl⟩⟩ := h
    · exact ⟨hsource, htarget, .inl ⟨edge, hedge, rfl, rfl⟩⟩
    · exact ⟨htarget, hsource, .inr ⟨edge, hedge, rfl, rfl⟩⟩
  · intro h
    obtain ⟨ha, hb, ⟨edge, hedge, rfl, rfl⟩ | ⟨edge, hedge, rfl, rfl⟩⟩ := h
    · exact ⟨edge, ⟨hedge, ha, hb⟩, .inl ⟨rfl, rfl⟩⟩
    · exact ⟨edge, ⟨hedge, hb, ha⟩, .inr ⟨rfl, rfl⟩⟩

theorem EnabledArcs.symm (h : workflow.EnabledArcs arcs) (a b : Uuid)
    (harc : (a, b) ∈ arcs) : (b, a) ∈ arcs := by
  obtain ⟨ha, hb, hjoin⟩ := (h a b).1 harc
  exact (h b a).2 ⟨hb, ha, hjoin.symm⟩

theorem EnabledArcs.reaches_iff (h : workflow.EnabledArcs arcs) {a b : Uuid} :
    arcs.Reaches [] a b ↔ workflow.HangTogether a b := by
  refine ⟨?_, ?_⟩
  · intro hreach
    induction hreach with
    | refl => exact .refl _
    | @tail b c _ hopen ih =>
        refine .trans _ _ _ ih ?_
        obtain ⟨hb, hc, hjoin | hjoin⟩ := (h b c).1 hopen.1
        · exact .rel _ _ ⟨hb, hc, hjoin⟩
        · exact .symm _ _ (.rel _ _ ⟨hc, hb, hjoin⟩)
  · intro htogether
    induction htogether with
    | rel a b hstep =>
        exact .single ⟨(h a b).2 ⟨hstep.1, hstep.2.1, .inl hstep.2.2⟩,
          List.not_mem_nil⟩
    | refl a => exact .refl
    | symm a b _ ih => exact ih.symm h.symm
    | trans a b c _ _ hab hbc => exact Relation.ReflTransGen.trans hab hbc

/-- The groups, found by walks along the given arcs. -/
def groupsAlong (workflow : Workflow) (arcs : Arcs Uuid) : List (List Node) :=
  ((arcs.walks [] (workflow.enabledNodes.map (·.id))).filter (2 ≤ ·.length)).map
    fun ids => workflow.enabledNodes.filter (ids.contains ·.id)

/-- What is said of the groups found by walks along the given arcs. -/
def splitsAlong (workflow : Workflow) (arcs : Arcs Uuid) : List String :=
  let groups := workflow.groupsAlong arcs
  if groups.length ≤ 1 then [] else [splitMessage groups]

theorem splitsAlong_enabledArcs (workflow : Workflow) :
    workflow.splitsAlong workflow.enabledArcs = workflow.splits := rfl

theorem findIdx_ids_eq (ids : List Uuid) :
    (workflow.enabledNodes.map (·.id)).findIdx (· ∈ ids) =
      workflow.enabledNodes.findIdx
        (· ∈ workflow.enabledNodes.filter (ids.contains ·.id)) := by
  rw [List.findIdx_map]
  apply Nat.le_antisymm
  · refine List.findIdx_le_findIdx fun node hnode h => ?_
    simpa [hnode] using h
  · refine List.findIdx_le_findIdx fun node hnode h => ?_
    simpa [hnode] using h

theorem two_le_length_iff {ids : List Uuid} (hnodup : ids.Nodup) :
    2 ≤ ids.length ↔ ∃ a ∈ ids, ∃ b ∈ ids, a ≠ b := by
  match ids, hnodup with
  | [], _ => simp
  | [a], _ => simp
  | a :: b :: rest, hnodup =>
      have hne : a ≠ b :=
        fun heq => (List.nodup_cons.1 hnodup).1 (heq ▸ List.mem_cons_self ..)
      exact iff_of_true (by simp) ⟨a, by simp, b, by simp, hne⟩

theorem HangTogether.isEnabled_iff {a b : Uuid}
    (h : workflow.HangTogether a b) :
    workflow.IsEnabled a ↔ workflow.IsEnabled b := by
  induction h with
  | rel a b hstep => exact iff_of_true hstep.1 hstep.2.1
  | refl a => exact Iff.rfl
  | symm a b _ ih => exact ih.symm
  | trans a b c _ _ hab hbc => exact hab.trans hbc

/-- What one of the walks visits is what hangs together with its start. -/
theorem exists_start_of_mem_walks (harcs : workflow.EnabledArcs arcs)
    {ids : List Uuid}
    (hids : ids ∈ arcs.walks [] (workflow.enabledNodes.map (·.id))) :
    ∃ start, workflow.IsEnabled start ∧
      (∀ v, v ∈ ids ↔ workflow.HangTogether start v) ∧
      workflow.enabledNodes.filter (ids.contains ·.id) =
        workflow.company start := by
  have hclosed : arcs.Closed [] := fun _ _ _ h => absurd h List.not_mem_nil
  obtain ⟨start, hstart, hmem⟩ :=
    Arcs.exists_start_of_mem_walks harcs.symm hclosed hids
  have hmem : ∀ v, v ∈ ids ↔ workflow.HangTogether start v :=
    fun v => (hmem v).trans harcs.reaches_iff
  refine ⟨start, isEnabled_iff.2 hstart, hmem,
    List.filter_congr fun node _ => ?_⟩
  classical
  rw [Bool.eq_iff_iff, List.contains_iff_mem, hmem, decide_eq_true_eq]

theorem grouping_groupsAlong (harcs : workflow.EnabledArcs arcs) :
    workflow.Grouping (workflow.groupsAlong arcs) := by
  refine ⟨fun group hgroup => ?_, fun a b hfellows => ?_, ?_⟩
  · obtain ⟨ids, hids, rfl⟩ := List.mem_map.1 hgroup
    obtain ⟨hids, hlength⟩ := List.mem_filter.1 hids
    obtain ⟨start, hstart, hmem, hcompany⟩ :=
      exists_start_of_mem_walks harcs hids
    obtain ⟨a, ha, b, hb, hne⟩ :=
      (two_le_length_iff (Arcs.nodup_of_mem_walks hids)).1
        (of_decide_eq_true hlength)
    have ha := (hmem a).1 ha
    have hb := (hmem b).1 hb
    refine ⟨a, b,
      ⟨hne, ha.isEnabled_iff.1 hstart, hb.isEnabled_iff.1 hstart, ?_⟩, ?_⟩
    · exact .trans _ _ _ (.symm _ _ ha) hb
    · rw [hcompany, company_congr ha]
  · have hvisited : a ∈ ([] : List Uuid) ∨
        ∃ ids ∈ arcs.walks [] (workflow.enabledNodes.map (·.id)), a ∈ ids :=
      Arcs.exists_mem_walks (isEnabled_iff.1 hfellows.left)
    rcases hvisited with h | h
    · cases h
    · obtain ⟨ids, hids, ha⟩ := h
      obtain ⟨start, _, hmem, hcompany⟩ := exists_start_of_mem_walks harcs hids
      have ha' := (hmem a).1 ha
      have hb : b ∈ ids := (hmem b).2 (.trans _ _ _ ha' hfellows.together)
      rw [← company_congr ha', ← hcompany]
      refine List.mem_map.2
        ⟨ids, List.mem_filter.2 ⟨hids, decide_eq_true ?_⟩, rfl⟩
      exact (two_le_length_iff (Arcs.nodup_of_mem_walks hids)).2
        ⟨a, ha, b, hb, hfellows.ne⟩
  · refine List.pairwise_map.2
      (List.Pairwise.imp ?_ (Arcs.pairwise_walks.filter _))
    intro c d hlt
    rw [findIdx_ids_eq, findIdx_ids_eq] at hlt
    refine (findIdx_filter_lt_iff ?_ ?_).1 hlt
    · intro node _ h
      exact (mem_enabledNodes.1 (List.mem_filter.1 (of_decide_eq_true h)).1).2
    · intro node _ h
      exact (mem_enabledNodes.1 (List.mem_filter.1 (of_decide_eq_true h)).1).2

theorem splitsAlong_eq (harcs : workflow.EnabledArcs arcs)
    (h : workflow.Grouping groups) :
    workflow.splitsAlong arcs =
      if groups.length ≤ 1 then [] else [splitMessage groups] := by
  rw [h.unique (grouping_groupsAlong harcs)]
  rfl

theorem splits_eq (h : workflow.Grouping groups) :
    workflow.splits =
      if groups.length ≤ 1 then [] else [splitMessage groups] := by
  rw [← splitsAlong_enabledArcs]
  exact splitsAlong_eq (enabledArcs_enabledArcs workflow) h

/-! ## What leaves no trace -/

/-- Different enabled nodes that are the two ends of an edge. -/
structure Touches (workflow : Workflow) (a b : Uuid) : Prop where
  ne : a ≠ b
  left : workflow.IsEnabled a
  right : workflow.IsEnabled b
  joins : workflow.Joins a b ∨ workflow.Joins b a

open scoped Classical in
/-- The enabled nodes that have neighbours. -/
noncomputable def linkedNodes (workflow : Workflow) : List Node :=
  workflow.nodes.filter fun node =>
    decide (node.enabled = true ∧ ∃ other, workflow.Touches node.id other)

/-- The same nodes have neighbours in both workflows, and the same ones. -/
structure SameLinks (workflow other : Workflow) : Prop where
  nodes : workflow.linkedNodes = other.linkedNodes
  touches : ∀ a b, workflow.Touches a b ↔ other.Touches a b

theorem Touches.symm {a b : Uuid} (h : workflow.Touches a b) :
    workflow.Touches b a :=
  ⟨h.ne.symm, h.right, h.left, h.joins.symm⟩

theorem SameLinks.symm (h : workflow.SameLinks other) :
    other.SameLinks workflow :=
  ⟨h.nodes.symm, fun a b => (h.touches a b).symm⟩

theorem mem_linkedNodes {node : Node} :
    node ∈ workflow.linkedNodes ↔
      node ∈ workflow.nodes ∧ node.enabled = true ∧ ∃ other,
        workflow.Touches node.id other := by
  classical
  rw [linkedNodes, List.mem_filter, decide_eq_true_eq]

theorem hangTogether_iff_eqvGen_touches {a b : Uuid} :
    workflow.HangTogether a b ↔ Relation.EqvGen workflow.Touches a b := by
  refine ⟨?_, ?_⟩
  · intro h
    induction h with
    | rel a b hstep =>
        by_cases hab : a = b
        · subst hab
          exact .refl a
        · exact .rel _ _ ⟨hab, hstep.1, hstep.2.1, .inl hstep.2.2⟩
    | refl a => exact .refl a
    | symm a b _ ih => exact .symm _ _ ih
    | trans a b c _ _ hab hbc => exact .trans _ _ _ hab hbc
  · intro h
    induction h with
    | rel a b hstep =>
        rcases hstep.joins with hjoin | hjoin
        · exact .rel _ _ ⟨hstep.left, hstep.right, hjoin⟩
        · exact .symm _ _ (.rel _ _ ⟨hstep.right, hstep.left, hjoin⟩)
    | refl a => exact .refl a
    | symm a b _ ih => exact .symm _ _ ih
    | trans a b c _ _ hab hbc => exact .trans _ _ _ hab hbc

theorem SameLinks.hangTogether_iff (h : workflow.SameLinks other) {a b : Uuid} :
    workflow.HangTogether a b ↔ other.HangTogether a b := by
  have hsame : workflow.Touches = other.Touches :=
    funext fun a => funext fun b => propext (h.touches a b)
  rw [hangTogether_iff_eqvGen_touches, hangTogether_iff_eqvGen_touches, hsame]

theorem exists_touches_of_eqvGen {a b : Uuid}
    (h : Relation.EqvGen workflow.Touches a b) :
    a = b ∨ (∃ c, workflow.Touches a c) ∧ ∃ c, workflow.Touches b c := by
  induction h with
  | rel a b hstep => exact .inr ⟨⟨b, hstep⟩, a, hstep.symm⟩
  | refl a => exact .inl rfl
  | symm a b _ ih =>
      rcases ih with rfl | ⟨ha, hb⟩
      · exact .inl rfl
      · exact .inr ⟨hb, ha⟩
  | trans a b c _ _ hab hbc =>
      rcases hab with rfl | ⟨ha, hb⟩
      · exact hbc
      · rcases hbc with rfl | ⟨-, hc⟩
        · exact .inr ⟨ha, hb⟩
        · exact .inr ⟨ha, hc⟩

theorem Fellows.exists_touches {a b v : Uuid} (h : workflow.Fellows a b)
    (hv : workflow.HangTogether a v) : ∃ c, workflow.Touches v c := by
  rcases exists_touches_of_eqvGen (hangTogether_iff_eqvGen_touches.1 hv)
    with rfl | ⟨-, htouch⟩
  · rcases exists_touches_of_eqvGen
      (hangTogether_iff_eqvGen_touches.1 h.together)
      with heq | ⟨htouch, -⟩
    · exact absurd heq h.ne
    · exact htouch
  · exact htouch

theorem Fellows.mem_linkedNodes {a b : Uuid} (h : workflow.Fellows a b)
    {node : Node} (hnode : node ∈ workflow.company a) :
    node ∈ workflow.linkedNodes := by
  obtain ⟨henabled, htogether⟩ := mem_company.1 hnode
  obtain ⟨hmem, henabled⟩ := mem_enabledNodes.1 henabled
  exact Workflow.mem_linkedNodes.2 ⟨hmem, henabled, h.exists_touches htogether⟩

open scoped Classical in
/-- A group consists of nodes that have neighbours, so it is found among
these. -/
theorem Fellows.company_eq {a b : Uuid} (h : workflow.Fellows a b) :
    workflow.company a =
      workflow.linkedNodes.filter fun node =>
        decide (workflow.HangTogether a node.id) := by
  rw [company, linkedNodes, enabledNodes, List.filter_filter,
    List.filter_filter]
  refine List.filter_congr fun node hnode => ?_
  rw [Bool.eq_iff_iff, Bool.and_eq_true, Bool.and_eq_true, decide_eq_true_eq,
    decide_eq_true_eq]
  refine ⟨?_, ?_⟩
  · intro hmem
    exact ⟨hmem.1, hmem.2, h.exists_touches hmem.1⟩
  · intro hmem
    exact ⟨hmem.1, hmem.2.1⟩

theorem SameLinks.fellows (h : workflow.SameLinks other) {a b : Uuid}
    (hfellows : workflow.Fellows a b) : other.Fellows a b := by
  obtain ⟨c, hc⟩ := hfellows.exists_touches (.refl a)
  obtain ⟨d, hd⟩ := hfellows.exists_touches hfellows.together
  exact ⟨hfellows.ne, ((h.touches a c).1 hc).left, ((h.touches b d).1 hd).left,
    h.hangTogether_iff.1 hfellows.together⟩

theorem SameLinks.company_eq (h : workflow.SameLinks other) {a b : Uuid}
    (hfellows : workflow.Fellows a b) :
    workflow.company a = other.company a := by
  rw [hfellows.company_eq, (h.fellows hfellows).company_eq, h.nodes]
  refine List.filter_congr fun node _ => ?_
  rw [decide_eq_decide]
  exact h.hangTogether_iff

/-- Which of two groups comes first can be told from the nodes that have
neighbours. -/
theorem findIdx_linkedNodes_lt_iff {a b c d : Uuid} (hab : workflow.Fellows a b)
    (hcd : workflow.Fellows c d) :
    workflow.linkedNodes.findIdx (· ∈ workflow.company a) <
        workflow.linkedNodes.findIdx (· ∈ workflow.company c) ↔
      workflow.nodes.findIdx (· ∈ workflow.company a) <
        workflow.nodes.findIdx (· ∈ workflow.company c) := by
  classical
  refine findIdx_filter_lt_iff (fun node _ hnode => ?_) (fun node _ hnode => ?_)
  · exact decide_eq_true
      (mem_linkedNodes.1 (hab.mem_linkedNodes (of_decide_eq_true hnode))).2
  · exact decide_eq_true
      (mem_linkedNodes.1 (hcd.mem_linkedNodes (of_decide_eq_true hnode))).2

theorem Grouping.congr (hgroups : workflow.Grouping groups)
    (h : workflow.SameLinks other) : other.Grouping groups := by
  refine ⟨fun group hgroup => ?_, fun a b hfellows => ?_, ?_⟩
  · obtain ⟨a, b, hfellows, rfl⟩ := hgroups.is_company group hgroup
    exact ⟨a, b, h.fellows hfellows, h.company_eq hfellows⟩
  · rw [h.symm.company_eq hfellows]
    exact hgroups.complete a b (h.symm.fellows hfellows)
  · refine List.Pairwise.imp_of_mem ?_ hgroups.ordered
    intro g k hg hk hlt
    obtain ⟨a, b, hab, rfl⟩ := hgroups.is_company g hg
    obtain ⟨c, d, hcd, rfl⟩ := hgroups.is_company k hk
    rw [← findIdx_linkedNodes_lt_iff hab hcd, h.nodes, h.company_eq hab,
      h.company_eq hcd] at hlt
    rw [h.company_eq hab, h.company_eq hcd]
    exact (findIdx_linkedNodes_lt_iff (h.fellows hab) (h.fellows hcd)).1 hlt

theorem SameLinks.splits_eq (h : workflow.SameLinks other) :
    other.splits = workflow.splits := by
  have hgroups := grouping_groupsAlong (enabledArcs_enabledArcs workflow)
  rw [Workflow.splits_eq (hgroups.congr h), Workflow.splits_eq hgroups]

/-- Only which nodes the edges join matters, and not which way or how often. -/
theorem sameLinks_of_joins (hnodes : other.nodes = workflow.nodes)
    (hjoins : ∀ a b, other.Joins a b ∨ other.Joins b a ↔
      workflow.Joins a b ∨ workflow.Joins b a) :
    workflow.SameLinks other := by
  have henabled : ∀ id, workflow.IsEnabled id ↔ other.IsEnabled id := by
    intro id
    rw [IsEnabled, IsEnabled, hnodes]
  have htouches : ∀ a b, workflow.Touches a b ↔ other.Touches a b := by
    intro a b
    refine ⟨?_, ?_⟩
    · intro h
      exact ⟨h.ne, (henabled a).1 h.left, (henabled b).1 h.right,
        (hjoins a b).2 h.joins⟩
    · intro h
      exact ⟨h.ne, (henabled a).2 h.left, (henabled b).2 h.right,
        (hjoins a b).1 h.joins⟩
  refine ⟨?_, htouches⟩
  rw [linkedNodes, linkedNodes, hnodes]
  refine List.filter_congr fun node _ => ?_
  rw [decide_eq_decide]
  simp only [htouches]

/-- What is said of a workflow that falls apart: how many groups there are and,
in the order of their first nodes, the names in each. Nothing else about the
workflow has a say in it. -/
theorem splits_names_groups (workflow : Workflow) :
    (∃ groups, workflow.Grouping groups) ∧
    (∀ groups, workflow.Grouping groups →
      workflow.splits =
        if groups.length ≤ 1 then []
        else
          ["Workflow has " ++ toString groups.length ++
            " disconnected subgraphs: " ++
            String.intercalate ", " (groups.map fun group =>
              "[" ++ String.intercalate ", " (group.map (·.name)) ++ "]") ++
            ". Connect them into a single graph or disable the unused nodes."]) ∧
    (∀ arcs, workflow.EnabledArcs arcs →
      workflow.splitsAlong arcs = workflow.splits) ∧
    (∀ other : Workflow, other.nodes = workflow.nodes →
      (∀ a b, other.Joins a b ∨ other.Joins b a ↔
        workflow.Joins a b ∨ workflow.Joins b a) →
      other.splits = workflow.splits) ∧
    (∀ other, workflow.SameLinks other → other.splits = workflow.splits) := by
  have hgroups := grouping_groupsAlong (enabledArcs_enabledArcs workflow)
  refine ⟨⟨_, hgroups⟩, fun groups h => ?_, fun arcs harcs => ?_,
    fun other hnodes hjoins => ?_, fun other h => h.splits_eq⟩
  · rw [splits_eq h]
    rfl
  · rw [splitsAlong_eq harcs hgroups, splits_eq hgroups]
  · exact (sameLinks_of_joins hnodes hjoins).splits_eq

end Workbench.Workflow
