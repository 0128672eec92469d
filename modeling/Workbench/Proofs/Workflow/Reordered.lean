import Mathlib.Data.Multiset.Defs
import Workbench.Proofs.Graph.Groups
import Workbench.Proofs.Loops.Enclosing
import Workbench.Proofs.Workflow.Wired

/-!
# The order of nodes and edges is for show

The lists of a workflow are searched from the front and walked in their order
all over the place, and yet their order decides nothing. For the check this is
seen from what it asks (`Sound`), which never mentions an order. The groups of a
workflow that falls apart are sets of nodes that hang together, and these are
the same in whatever order they are listed and filled.

Loop bodies are different, as they begin at the first body edge and end at the
first end of the loop, so that a body may well depend on the order where there
are several. In a sound workflow there is one of each. Then every first hit is
the only hit, the bodies are the same as sets, and as the loops around a node
are sorted by the sizes of bodies and by identifiers, even their order is the
same.
-/

namespace Workbench.Workflow

variable {workflow other : Workflow}

/-- The other workflow has the same nodes and the same edges, in any order. -/
structure Reordered (workflow other : Workflow) : Prop where
  nodes : workflow.nodes.Perm other.nodes
  edges : workflow.edges.Perm other.edges

theorem Reordered.symm (h : workflow.Reordered other) :
    other.Reordered workflow :=
  ⟨h.nodes.symm, h.edges.symm⟩

theorem Reordered.joins_iff (h : workflow.Reordered other) {a b : Uuid} :
    workflow.Joins a b ↔ other.Joins a b := by
  unfold Joins
  simp only [h.edges.mem_iff]

/-! ## The check -/

theorem Sound.reordered (hsound : workflow.Sound)
    (h : workflow.Reordered other) : other.Sound := by
  obtain ⟨hids, hsource, htarget, hdeclared, hsingle, hend, hended, hbody⟩ :=
    hsound
  have hsymm : ∀ {a b : Edge}, ¬ (a.source = b.source ∧ a.port = b.port) →
      ¬ (b.source = a.source ∧ b.port = a.port) :=
    fun hdiffer hsame => hdiffer ⟨hsame.1.symm, hsame.2.symm⟩
  simp only [h.nodes.mem_iff, h.edges.mem_iff]
    at hsource htarget hdeclared hend hended hbody
  exact ⟨(h.nodes.map _).nodup_iff.1 hids, hsource, htarget, hdeclared,
    (h.edges.pairwise_iff hsymm).1 hsingle, hend, hended, hbody⟩

/-! ## Groups -/

/-- The same groups, each of the same nodes, in any order. -/
def SameGroups (groups others : List (List Node)) : Prop :=
  (groups.map Multiset.ofList).Perm (others.map Multiset.ofList)

theorem Reordered.isEnabled_iff (h : workflow.Reordered other) {id : Uuid} :
    workflow.IsEnabled id ↔ other.IsEnabled id := by
  unfold IsEnabled
  simp only [h.nodes.mem_iff]

theorem Reordered.hangTogether_iff (h : workflow.Reordered other) {a b : Uuid} :
    workflow.HangTogether a b ↔ other.HangTogether a b := by
  unfold HangTogether
  simp only [h.isEnabled_iff, h.joins_iff]

theorem Reordered.fellows (h : workflow.Reordered other) {a b : Uuid}
    (hfellows : workflow.Fellows a b) : other.Fellows a b :=
  ⟨hfellows.ne, h.isEnabled_iff.1 hfellows.left,
    h.isEnabled_iff.1 hfellows.right, h.hangTogether_iff.1 hfellows.together⟩

theorem Reordered.company_perm (h : workflow.Reordered other) (id : Uuid) :
    (workflow.company id).Perm (other.company id) := by
  classical
  unfold company enabledNodes
  simp only [h.hangTogether_iff]
  exact (h.nodes.filter _).filter _

/-- Groups with the same nodes come first at the same place, so they are one. -/
theorem Grouping.nodup_bags {groups : List (List Node)}
    (h : workflow.Grouping groups) : (groups.map Multiset.ofList).Nodup := by
  refine List.pairwise_map.2 (h.ordered.imp ?_)
  intro g k hlt heq
  have hmem : ∀ node, node ∈ g ↔ node ∈ k :=
    fun node => (Multiset.coe_eq_coe.1 heq).mem_iff
  simp only [hmem] at hlt
  exact Nat.lt_irrefl _ hlt

theorem Grouping.mem_bags {groups others : List (List Node)}
    (hgroups : workflow.Grouping groups) (hothers : other.Grouping others)
    (h : workflow.Reordered other) {bag : Multiset Node}
    (hbag : bag ∈ groups.map Multiset.ofList) :
    bag ∈ others.map Multiset.ofList := by
  obtain ⟨group, hgroup, rfl⟩ := List.mem_map.1 hbag
  obtain ⟨a, b, hfellows, rfl⟩ := hgroups.is_company group hgroup
  refine List.mem_map.2 ⟨other.company a,
    hothers.complete a b (h.fellows hfellows), ?_⟩
  exact Multiset.coe_eq_coe.2 (h.company_perm a).symm

theorem Grouping.sameGroups {groups others : List (List Node)}
    (hgroups : workflow.Grouping groups) (hothers : other.Grouping others)
    (h : workflow.Reordered other) : SameGroups groups others :=
  (List.perm_ext_iff_of_nodup hgroups.nodup_bags hothers.nodup_bags).2 fun _ =>
    ⟨hgroups.mem_bags hothers h, hothers.mem_bags hgroups h.symm⟩

theorem SameGroups.length_eq {groups others : List (List Node)}
    (h : SameGroups groups others) : groups.length = others.length := by
  have hlength := List.Perm.length_eq h
  rwa [List.length_map, List.length_map] at hlength

/-! ## Bodies -/

section

variable (hsound : workflow.Sound)

include hsound

/-- An accepted workflow has one node that ends a loop. -/
theorem Sound.eq_of_closes {a b : Node} {loopId : Uuid}
    (ha : a ∈ workflow.nodes) (hb : b ∈ workflow.nodes)
    (haends : a.closes? = some loopId) (hbends : b.closes? = some loopId) :
    a = b := by
  rw [Node.closes?_eq_some_iff] at haends hbends
  obtain ⟨head, hhead, rfl, hloop⟩ := hsound.end_of_loop a ha loopId haends
  exact (hsound.ended_once head hhead hloop).unique ⟨ha, haends⟩ ⟨hb, hbends⟩

theorem Sound.bodyEntry?_reordered (h : workflow.Reordered other)
    (loopId : Uuid) : workflow.bodyEntry? loopId = other.bodyEntry? loopId := by
  unfold bodyEntry? edgeFrom?
  rw [find?_eq_of_perm h.edges]
  intro a ha b hb haleaves hbleaves
  obtain ⟨hasource, haport⟩ := Edge.leaves_iff.1 haleaves
  obtain ⟨hbsource, hbport⟩ := Edge.leaves_iff.1 hbleaves
  exact hsound.wired.eq_of_same_port ha hb (hasource.trans hbsource.symm)
    (haport.trans hbport.symm)

theorem Sound.boundary?_reordered (h : workflow.Reordered other)
    (loopId : Uuid) : workflow.boundary? loopId = other.boundary? loopId := by
  unfold boundary?
  rw [find?_eq_of_perm h.nodes]
  intro a ha b hb haends hbends
  exact hsound.eq_of_closes ha hb (beq_iff_eq.1 haends) (beq_iff_eq.1 hbends)

/-- With the same edges, the same entry and the same boundary there are the same
paths. -/
theorem Sound.bodyPath_reordered (h : workflow.Reordered other)
    {loopId a v : Uuid} {path : List Uuid}
    (hpath : workflow.BodyPath loopId a v path) :
    other.BodyPath loopId a v path where
  starts := hpath.starts
  ends := hpath.ends
  joined := hpath.joined.imp fun _ _ => h.joins_iff.1
  avoids_head := hpath.avoids_head
  avoids_boundary bound hbound := by
    rw [← boundary?_eq_some_iff, ← hsound.boundary?_reordered h,
      boundary?_eq_some_iff] at hbound
    exact hpath.avoids_boundary bound hbound

theorem Sound.mem_loopBody_reordered (h : workflow.Reordered other)
    {loopId v : Uuid} :
    v ∈ (workflow.loopBody loopId).toList ↔
      v ∈ (other.loopBody loopId).toList := by
  rw [mem_loopBody_iff, mem_loopBody_iff, hsound.bodyEntry?_reordered h]
  refine exists_congr fun entry =>
    and_congr_right fun _ => exists_congr fun path => ?_
  exact ⟨hsound.bodyPath_reordered h,
    (hsound.reordered h).bodyPath_reordered h.symm⟩

theorem Sound.size_loopBody_reordered (h : workflow.Reordered other)
    (loopId : Uuid) :
    (workflow.loopBody loopId).size = (other.loopBody loopId).size := by
  have hperm :
      (workflow.loopBody loopId).toList.Perm (other.loopBody loopId).toList :=
    (List.perm_ext_iff_of_nodup (NodeSet.nodup _) (NodeSet.nodup _)).2 fun _ =>
      hsound.mem_loopBody_reordered h
  exact hperm.length_eq

end

/-! ## Loops around a node -/

theorem Reordered.loopIds_perm (h : workflow.Reordered other) :
    (workflow.loopBodies.bodies.map (·.1)).Perm
      (other.loopBodies.bodies.map (·.1)) := by
  refine (List.perm_ext_iff_of_nodup (nodup_loopIds _) (nodup_loopIds _)).2
    fun loopId => ?_
  rw [mem_loopIds_iff, mem_loopIds_iff]
  simp only [h.nodes.mem_iff]

theorem around_loopBodies (workflow : Workflow) (v : Uuid) :
    workflow.loopBodies.around v =
      ((workflow.loopBodies.bodies.map (·.1)).filter
          fun loopId => (workflow.loopBody loopId).contains v).map
        fun loopId => (loopId, (workflow.loopBody loopId).size) := by
  unfold LoopBodies.around loopBodies
  simp only [List.filter_map, List.map_map, List.map_id', Function.comp_def,
    LoopBodies.weigh]

theorem Sound.around_perm (hsound : workflow.Sound)
    (h : workflow.Reordered other) (v : Uuid) :
    (workflow.loopBodies.around v).Perm (other.loopBodies.around v) := by
  have hcontains : ∀ loopId,
      (workflow.loopBody loopId).contains v =
        (other.loopBody loopId).contains v := by
    intro loopId
    rw [Bool.eq_iff_iff, NodeSet.contains_iff, NodeSet.contains_iff]
    exact hsound.mem_loopBody_reordered h
  rw [around_loopBodies, around_loopBodies]
  simp only [hcontains, hsound.size_loopBody_reordered h]
  exact (h.loopIds_perm.filter _).map _

/-- Two workflows with the same nodes and the same edges are both accepted or
both rejected; they both hang together or fall apart into the same groups; and
if they are accepted they have the same loops, with the same bodies, and around
each node the same loops in the same order. -/
theorem reordered_alike (h : workflow.Reordered other) :
    (workflow.check = [] ↔ other.check = []) ∧
    (workflow.splits = [] ↔ other.splits = []) ∧
    (workflow.splits ≠ [] →
      ∃ groups others, workflow.Grouping groups ∧ other.Grouping others ∧
        workflow.splits = [splitMessage groups] ∧
        other.splits = [splitMessage others] ∧ SameGroups groups others) ∧
    (workflow.check = [] →
      (workflow.loopBodies.bodies.map (·.1)).Perm
        (other.loopBodies.bodies.map (·.1)) ∧
      (∀ loopId body, workflow.loopBodies.body? loopId = some body →
        ∃ body', other.loopBodies.body? loopId = some body' ∧
          ∀ v, v ∈ body.toList ↔ v ∈ body'.toList) ∧
      ∀ v, workflow.loopBodies.enclosing v = other.loopBodies.enclosing v) := by
  have hgroups := grouping_groupsAlong (enabledArcs_enabledArcs workflow)
  have hothers := grouping_groupsAlong (enabledArcs_enabledArcs other)
  have hsame := hgroups.sameGroups hothers h
  refine ⟨?_, ?_, fun hsplits => ?_, fun hcheck => ?_⟩
  · rw [check_eq_nil_iff_sound, check_eq_nil_iff_sound]
    exact ⟨fun hsound => hsound.reordered h,
      fun hsound => hsound.reordered h.symm⟩
  · rw [splits_eq hgroups, splits_eq hothers, hsame.length_eq]
    split
    · exact Iff.rfl
    · exact iff_of_false (List.cons_ne_nil _ _) (List.cons_ne_nil _ _)
  · rw [splits_eq hgroups] at hsplits
    have hmany : ¬ (workflow.groupsAlong workflow.enabledArcs).length ≤ 1 :=
      fun hfew => hsplits (if_pos hfew)
    refine ⟨_, _, hgroups, hothers, ?_, ?_, hsame⟩
    · rw [splits_eq hgroups, if_neg hmany]
    · rw [splits_eq hothers, if_neg (hsame.length_eq ▸ hmany)]
  · have hsound := check_eq_nil_iff_sound.1 hcheck
    refine ⟨h.loopIds_perm, fun loopId body hbody => ?_, fun v => ?_⟩
    · obtain ⟨hloop, rfl⟩ := body?_eq_some_iff.1 hbody
      exact ⟨other.loopBody loopId,
        body?_eq_some_iff.2 ⟨h.loopIds_perm.mem_iff.1 hloop, rfl⟩,
        fun v => hsound.mem_loopBody_reordered h⟩
    · exact LoopBodies.enclosing_eq_of_perm (hsound.around_perm h v)

/-- A loop around an action, and two more actions on their own. -/
def twoIslands : Workflow where
  id := .ofNat 0
  name := "two islands"
  nodes :=
    [{ id := .ofNat 1, name := "loop"
       step := .loop { exitCondition := ⟨"x", .isEmpty, .null⟩ } },
      { id := .ofNat 2, name := "act", step := .typeText {} },
      { id := .ofNat 3, name := "End loop", step := .endLoop ⟨.ofNat 1⟩ },
      { id := .ofNat 4, name := "here", step := .typeText {} },
      { id := .ofNat 5, name := "there", step := .typeText {} }]
  edges :=
    [⟨.ofNat 1, .ofNat 2, some .loopBody⟩, ⟨.ofNat 2, .ofNat 3, none⟩,
      ⟨.ofNat 3, .ofNat 1, none⟩, ⟨.ofNat 4, .ofNat 5, none⟩]

def twoIslandsBackwards : Workflow :=
  { twoIslands with
    nodes := twoIslands.nodes.reverse, edges := twoIslands.edges.reverse }

theorem twoIslands_alike :
    twoIslandsBackwards.check = [] ∧
      (∃ groups others, twoIslands.splits = [splitMessage groups] ∧
        twoIslandsBackwards.splits = [splitMessage others] ∧
        SameGroups groups others) ∧
      twoIslands.splits ≠ twoIslandsBackwards.splits ∧
      twoIslandsBackwards.loopBodies.enclosing (.ofNat 2) = [.ofNat 1] := by
  have h : twoIslands.Reordered twoIslandsBackwards :=
    ⟨(List.reverse_perm _).symm, (List.reverse_perm _).symm⟩
  have haccepted : twoIslands.check = [] := rfl
  have hsplits : twoIslands.splits ≠ [] := by decide +kernel
  have henclosing :
      twoIslands.loopBodies.enclosing (.ofNat 2) = [.ofNat 1] := by
    decide +kernel
  obtain ⟨hcheck, -, hgroups, hloops⟩ := reordered_alike h
  obtain ⟨groups, others, -, -, hmessage, hother, hsame⟩ := hgroups hsplits
  obtain ⟨-, -, hsameLoops⟩ := hloops haccepted
  exact ⟨hcheck.1 haccepted, ⟨groups, others, hmessage, hother, hsame⟩, by
    decide +kernel, hsameLoops _ ▸ henclosing⟩

end Workbench.Workflow
