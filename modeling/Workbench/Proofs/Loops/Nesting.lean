import Workbench.Proofs.Loops.Enclosing
import Workbench.Proofs.Workflow.Sound

/-!
# When the body of a loop lies in that of another

A loop whose head lies in the body of another need not lie in it as a whole. The
walk through the inner body heeds the inner boundary only, so where a branch
leads out of it another way, to the head or to the boundary of the outer loop,
it goes on behind them. That is all that can happen: a step from the outer body
leads to the outer body unless it meets one of these two, so an inner body that
holds neither follows step by step into the outer one (`loopBody_induction`,
`mem_loopBody_of_joins`).

The check does not rule out such branches. In `earlyExit` it accepts a loop that
can be left from within the loop inside it, and there the inner loop has the
larger body and is listed as the outer one.
-/

namespace Workbench.Workflow

variable {workflow : Workflow} {loopId outerId innerId : Uuid}
  {outer inner : NodeSet}

/-! ## Bodies step by step -/

theorem joins_entry {entry : Uuid}
    (h : workflow.bodyEntry? loopId = some entry) :
    workflow.Joins loopId entry := by
  obtain ⟨before, edge, after, hedges, ⟨hsource, -⟩, htarget, -⟩ :=
    bodyEntry?_eq_some_iff.1 h
  exact ⟨edge, by simp [hedges], hsource, htarget⟩

theorem entry_mem_loopBody {entry : Uuid}
    (h : workflow.bodyEntry? loopId = some entry)
    (hpass : workflow.Passable loopId entry) :
    entry ∈ (workflow.loopBody loopId).toList :=
  mem_loopBody_iff.2 ⟨entry, h, [entry], .single hpass⟩

/-- A step from the body stays in it unless it meets the head or the
boundary. -/
theorem mem_loopBody_of_joins {a b : Uuid}
    (ha : a ∈ (workflow.loopBody loopId).toList) (hjoin : workflow.Joins a b)
    (hb : workflow.Passable loopId b) :
    b ∈ (workflow.loopBody loopId).toList := by
  obtain ⟨entry, hentry, hpath⟩ := mem_loopBody_iff.1 ha
  obtain ⟨hne, hreach, hbound⟩ := exists_bodyPath_iff.1 hpath
  have harc := mem_arcsWithin.2 ⟨hjoin, hbound⟩
  have hon : (workflow.arcsWithin loopId).Reaches [loopId] entry b :=
    hreach.tail ⟨harc, by simpa using hb.1⟩
  exact mem_loopBody_iff.2
    ⟨entry, hentry, exists_bodyPath_iff.2 ⟨hne, hon, hb.2⟩⟩

/-- What holds of the entry and is passed on by every step within the body holds
throughout. -/
theorem loopBody_induction {holds : Uuid → Prop}
    (hstart : ∀ entry, workflow.bodyEntry? loopId = some entry →
      entry ∈ (workflow.loopBody loopId).toList → holds entry)
    (hstep : ∀ a b, holds a → workflow.Joins a b →
      b ∈ (workflow.loopBody loopId).toList → holds b)
    {v : Uuid} (hv : v ∈ (workflow.loopBody loopId).toList) : holds v := by
  obtain ⟨entry, hentry, hpath⟩ := mem_loopBody_iff.1 hv
  obtain ⟨hne, hreach, hbound⟩ := exists_bodyPath_iff.1 hpath
  clear hv hpath
  induction hreach with
  | refl => exact hstart entry hentry (entry_mem_loopBody hentry ⟨hne, hbound⟩)
  | @tail a b hreach hopen ih =>
      obtain ⟨hjoin, ha⟩ := mem_arcsWithin.1 hopen.1
      have hmem := mem_loopBody_iff.2
        ⟨entry, hentry, exists_bodyPath_iff.2 ⟨hne, hreach, ha⟩⟩
      have hb : b ≠ loopId := by simpa using hopen.2
      exact hstep a b (ih ha) hjoin
        (mem_loopBody_of_joins hmem hjoin ⟨hb, hbound⟩)

theorem loopBody_subset (hmem : innerId ∈ (workflow.loopBody outerId).toList)
    (hpass : ∀ v ∈ (workflow.loopBody innerId).toList,
      workflow.Passable outerId v) :
    ∀ v ∈ (workflow.loopBody innerId).toList,
      v ∈ (workflow.loopBody outerId).toList := by
  intro v hv
  refine loopBody_induction ?_ ?_ hv
  · intro entry hentry hin
    exact mem_loopBody_of_joins hmem (joins_entry hentry) (hpass entry hin)
  · intro a b ha hjoin hb
    exact mem_loopBody_of_joins ha hjoin (hpass b hb)

/-- The inner body holds neither the head nor the boundary of the outer loop. -/
def Confined (workflow : Workflow) (outerId : Uuid) (inner : NodeSet) : Prop :=
  outerId ∉ inner.toList ∧ ∀ bound,
    workflow.IsBoundary outerId bound → bound ∉ inner.toList

theorem confined_iff_passable :
    workflow.Confined outerId inner ↔
      ∀ v ∈ inner.toList, workflow.Passable outerId v := by
  refine ⟨?_, ?_⟩
  · intro h v hv
    refine ⟨fun heq => h.1 (heq ▸ hv), fun hbound => ?_⟩
    exact h.2 v (boundary?_eq_some_iff.1 hbound) hv
  · intro h
    refine ⟨fun hv => (h outerId hv).1 rfl, fun bound hbound hv => ?_⟩
    exact (h bound hv).2 (boundary?_eq_some_iff.2 hbound)

section

variable (houter : workflow.loopBodies.body? outerId = some outer)
  (hinner : workflow.loopBodies.body? innerId = some inner)
    (hmem : innerId ∈ outer.toList)

include houter hinner hmem

theorem subset_iff_confined :
    (∀ v ∈ inner.toList, v ∈ outer.toList) ↔
      workflow.Confined outerId inner := by
  obtain ⟨-, rfl⟩ := body?_eq_some_iff.1 houter
  obtain ⟨-, rfl⟩ := body?_eq_some_iff.1 hinner
  rw [confined_iff_passable]
  refine ⟨?_, loopBody_subset hmem⟩
  exact fun hsub v hv => passable_of_mem_loopBody (hsub v hv)

/-- The head of the inner loop is what its body lacks of the outer one. -/
theorem strictlyWithin_iff_confined :
    inner.StrictlyWithin outer ↔ workflow.Confined outerId inner := by
  rw [← subset_iff_confined houter hinner hmem]
  refine ⟨fun h => h.1, fun hsub => ⟨hsub, innerId, hmem, ?_⟩⟩
  obtain ⟨-, rfl⟩ := body?_eq_some_iff.1 hinner
  exact fun hself => (passable_of_mem_loopBody hself).1 rfl

theorem pair_sublist_of_confined (hconfined : workflow.Confined outerId inner)
    {v : Uuid} (hv : v ∈ inner.toList) :
    [outerId, innerId].Sublist (workflow.loopBodies.enclosing v) := by
  have hwithin := (strictlyWithin_iff_confined houter hinner hmem).2 hconfined
  exact LoopBodies.pair_sublist_enclosing (LoopBodies.mem_of_body? houter)
    (LoopBodies.mem_of_body? hinner) (hwithin.1 v hv) hv hwithin.size_lt

/-- A node behind the inner body is in the outer one unless it is its head or
its boundary. -/
theorem mem_outer_of_leads (hconfined : workflow.Confined outerId inner)
    {v : Uuid} (hpass : workflow.Passable outerId v)
    (hleads : workflow.Joins innerId v ∨ ∃ u ∈ inner.toList,
      workflow.Joins u v) :
    v ∈ outer.toList := by
  have hsub := (subset_iff_confined houter hinner hmem).2 hconfined
  obtain ⟨-, rfl⟩ := body?_eq_some_iff.1 houter
  rcases hleads with hjoin | ⟨u, hu, hjoin⟩
  · exact mem_loopBody_of_joins hmem hjoin hpass
  · exact mem_loopBody_of_joins (hsub u hu) hjoin hpass

end

/-- The body of a loop whose head lies in the body of another is part of that if
and only if it holds neither the head nor the boundary of the outer loop. Then
it is smaller and listed behind the outer one, and its own boundary, if the
inner body leads there, lies in the outer body as well. -/
theorem body_subset_iff_confined
    (houter : workflow.loopBodies.body? outerId = some outer)
    (hinner : workflow.loopBodies.body? innerId = some inner)
    (hmem : innerId ∈ outer.toList) :
    ((∀ v ∈ inner.toList, v ∈ outer.toList) ↔
      outerId ∉ inner.toList ∧
        ∀ bound, workflow.IsBoundary outerId bound → bound ∉ inner.toList) ∧
    ((∀ v ∈ inner.toList, v ∈ outer.toList) →
      inner.StrictlyWithin outer ∧
      (∀ v ∈ inner.toList, (workflow.loopBodies.enclosing v).Nodup ∧
        [outerId, innerId].Sublist (workflow.loopBodies.enclosing v)) ∧
      ∀ tail, workflow.IsBoundary innerId tail → tail ≠ outerId →
        ¬ workflow.IsBoundary outerId tail →
        ((∃ edge ∈ workflow.edges,
            (edge.source = innerId ∧ edge.port = some .loopBody) ∧
              edge.target = tail) ∨
          ∃ u ∈ inner.toList, workflow.Joins u tail) →
        tail ∈ outer.toList ∧ tail ∉ inner.toList) := by
  refine ⟨subset_iff_confined houter hinner hmem, fun hsub => ?_⟩
  have hconfined := (subset_iff_confined houter hinner hmem).1 hsub
  refine ⟨(strictlyWithin_iff_confined houter hinner hmem).2 hconfined,
    fun v hv => ?_, ?_⟩
  · exact ⟨LoopBodies.nodup_enclosing (nodup_loopIds workflow),
      pair_sublist_of_confined houter hinner hmem hconfined hv⟩
  · intro tail htail hhead hbound hleads
    have hpass : workflow.Passable outerId tail :=
      ⟨hhead, fun h => hbound (boundary?_eq_some_iff.1 h)⟩
    refine ⟨mem_outer_of_leads houter hinner hmem hconfined hpass ?_,
      fun hin => ?_⟩
    · exact hleads.imp_left fun ⟨edge, hedge, hport, htarget⟩ =>
        ⟨edge, hedge, hport.1, htarget⟩
    · obtain ⟨-, rfl⟩ := body?_eq_some_iff.1 hinner
      exact (passable_of_mem_loopBody hin).2 (boundary?_eq_some_iff.2 htail)

/-- A loop around a loop around a single action. -/
def twoDeep : Workflow where
  id := .ofNat 0
  name := "two deep"
  nodes :=
    [{ id := .ofNat 1, name := "outer"
       step := .loop { exitCondition := ⟨"x", .isEmpty, .null⟩ } },
      { id := .ofNat 2, name := "inner"
        step := .loop { exitCondition := ⟨"y", .isEmpty, .null⟩ } },
      { id := .ofNat 3, name := "act", step := .typeText {} },
      { id := .ofNat 4, name := "End inner", step := .endLoop ⟨.ofNat 2⟩ },
      { id := .ofNat 5, name := "End outer", step := .endLoop ⟨.ofNat 1⟩ }]
  edges :=
    [⟨.ofNat 1, .ofNat 2, some .loopBody⟩, ⟨.ofNat 2, .ofNat 3, some .loopBody⟩,
      ⟨.ofNat 3, .ofNat 4, none⟩, ⟨.ofNat 4, .ofNat 2, none⟩,
      ⟨.ofNat 2, .ofNat 5, some .loopDone⟩, ⟨.ofNat 5, .ofNat 1, none⟩]

theorem twoDeep_loops :
    twoDeep.loopBodies.body? (.ofNat 1) = some (twoDeep.loopBody (.ofNat 1)) ∧
      twoDeep.loopBodies.body? (.ofNat 2) = some (twoDeep.loopBody (.ofNat 2)) ∧
      .ofNat 2 ∈ (twoDeep.loopBody (.ofNat 1)).toList ∧
      .ofNat 3 ∈ (twoDeep.loopBody (.ofNat 2)).toList := by
  decide +kernel

/-- The inner loop's end is behind its body and belongs to the outer one. -/
theorem twoDeep_body_subset :
    [.ofNat 1, .ofNat 2].Sublist (twoDeep.loopBodies.enclosing (.ofNat 3)) ∧
      .ofNat 4 ∈ (twoDeep.loopBody (.ofNat 1)).toList ∧
      .ofNat 4 ∉ (twoDeep.loopBody (.ofNat 2)).toList := by
  obtain ⟨houter, hinner, hmem, hact⟩ := twoDeep_loops
  have hsub : ∀ v ∈ (twoDeep.loopBody (.ofNat 2)).toList,
      v ∈ (twoDeep.loopBody (.ofNat 1)).toList := by decide +kernel
  obtain ⟨-, horder, htail⟩ :=
    (body_subset_iff_confined houter hinner hmem).2 hsub
  refine ⟨(horder _ hact).2,
    htail _ (boundary?_eq_some_iff.1 (by decide +kernel)) (by decide) ?_ ?_⟩
  · rw [← boundary?_eq_some_iff]
    decide +kernel
  · exact .inr ⟨_, hact, ⟨.ofNat 3, .ofNat 4, none⟩, by
      simp [twoDeep], rfl, rfl⟩

/-! ## Accepted workflows -/

theorem Sound.exists_boundary (h : workflow.Sound)
    (hloop : loopId ∈ workflow.loopBodies.bodies.map (·.1)) :
    ∃ bound, workflow.boundary? loopId = some bound := by
  obtain ⟨head, hhead, hstep, rfl⟩ := mem_loopIds_iff.1 hloop
  obtain ⟨last, ⟨hlast, hends⟩, -⟩ := h.ended_once head hhead hstep
  rw [← Option.isSome_iff_exists, boundary?, Option.isSome_map,
    List.find?_isSome]
  exact ⟨last, hlast, by simpa using Node.closes?_eq_some_iff.2 hends⟩

/-- In an accepted workflow the body of a loop whose head lies in the body of
another is less than that if and only if no branch leads from it to the head or
to the end of the outer loop. Then the inner loop is listed behind the outer one
around each of its nodes, and the outer one is innermost for none. -/
theorem accepted_strictlyWithin_iff (hcheck : workflow.check = [])
    (houter : workflow.loopBodies.body? outerId = some outer)
    (hinner : workflow.loopBodies.body? innerId = some inner)
    (hmem : innerId ∈ outer.toList) :
    ∃ bound, workflow.IsBoundary outerId bound ∧
      (inner.StrictlyWithin outer ↔
        outerId ∉ inner.toList ∧ bound ∉ inner.toList) ∧
      (inner.StrictlyWithin outer → ∀ v ∈ inner.toList,
        [outerId, innerId].Sublist (workflow.loopBodies.enclosing v) ∧
          workflow.loopBodies.innermost? v ≠ some outerId) := by
  have hsound := check_eq_nil_iff_sound.1 hcheck
  obtain ⟨bound, hbound⟩ :=
    hsound.exists_boundary (body?_eq_some_iff.1 houter).1
  have hwithin := strictlyWithin_iff_confined houter hinner hmem
  refine ⟨bound, boundary?_eq_some_iff.1 hbound, hwithin.trans ⟨?_, ?_⟩,
    fun hstrict v hv => ?_⟩
  · exact fun h => ⟨h.1, h.2 bound (boundary?_eq_some_iff.1 hbound)⟩
  · intro h
    refine ⟨h.1, fun other hother => ?_⟩
    rw [← boundary?_eq_some_iff, hbound, Option.some.injEq] at hother
    exact hother ▸ h.2
  · have hpair :=
      pair_sublist_of_confined houter hinner hmem (hwithin.1 hstrict) hv
    exact ⟨hpair, LoopBodies.innermost?_ne (nodup_loopIds workflow) hpair⟩

theorem twoDeep_strictlyWithin : twoDeep.check = [] ∧
    (twoDeep.loopBody (.ofNat 2)).StrictlyWithin (twoDeep.loopBody (.ofNat 1)) ∧
      twoDeep.loopBodies.innermost? (.ofNat 3) ≠ some (.ofNat 1) := by
  have hcheck : twoDeep.check = [] := rfl
  obtain ⟨houter, hinner, hmem, hact⟩ := twoDeep_loops
  have hend : twoDeep.boundary? (.ofNat 1) = some (.ofNat 5) := by
    decide +kernel
  obtain ⟨bound, hbound, hwithin, horder⟩ :=
    accepted_strictlyWithin_iff hcheck houter hinner hmem
  rw [← boundary?_eq_some_iff, hend, Option.some.injEq] at hbound
  have hstrict := hwithin.2 (hbound ▸ by decide +kernel)
  exact ⟨hcheck, hstrict, (horder hstrict _ hact).2⟩

/-- A loop in a loop, left by a branch within the inner one straight to the end
of the outer. -/
def earlyExit : Workflow where
  id := .ofNat 0
  name := "early exit"
  nodes :=
    [{ id := .ofNat 1, name := "outer"
       step := .loop { exitCondition := ⟨"x", .isEmpty, .null⟩ } },
      { id := .ofNat 2, name := "inner"
        step := .loop { exitCondition := ⟨"y", .isEmpty, .null⟩ } },
      { id := .ofNat 3, name := "branch"
        step := .ifThen ⟨⟨"z", .isEmpty, .null⟩⟩ },
      { id := .ofNat 4, name := "End inner", step := .endLoop ⟨.ofNat 2⟩ },
      { id := .ofNat 5, name := "End outer", step := .endLoop ⟨.ofNat 1⟩ },
      { id := .ofNat 6, name := "after", step := .typeText {} }]
  edges :=
    [⟨.ofNat 1, .ofNat 2, some .loopBody⟩, ⟨.ofNat 2, .ofNat 3, some .loopBody⟩,
      ⟨.ofNat 3, .ofNat 4, some .ifTrue⟩, ⟨.ofNat 3, .ofNat 5, some .ifFalse⟩,
      ⟨.ofNat 4, .ofNat 2, none⟩, ⟨.ofNat 2, .ofNat 5, some .loopDone⟩,
      ⟨.ofNat 5, .ofNat 1, none⟩, ⟨.ofNat 1, .ofNat 6, some .loopDone⟩]

/-- It is accepted, but the body of the inner loop is the larger one, and around
the branch the inner loop is listed first and the outer one counts as the
innermost. -/
theorem earlyExit_not_nested :
    earlyExit.check = [] ∧
    earlyExit.loopBodies.body? (.ofNat 1) =
      some (earlyExit.loopBody (.ofNat 1)) ∧
    earlyExit.loopBodies.body? (.ofNat 2) =
      some (earlyExit.loopBody (.ofNat 2)) ∧
    .ofNat 2 ∈ (earlyExit.loopBody (.ofNat 1)).toList ∧
    ¬ (earlyExit.loopBody (.ofNat 2)).StrictlyWithin
      (earlyExit.loopBody (.ofNat 1)) ∧
    .ofNat 3 ∈ (earlyExit.loopBody (.ofNat 2)).toList ∧
    earlyExit.loopBodies.enclosing (.ofNat 3) = [.ofNat 2, .ofNat 1] ∧
    earlyExit.loopBodies.innermost? (.ofNat 3) = some (.ofNat 1) := by
  have houter : earlyExit.loopBodies.body? (.ofNat 1) =
      some (earlyExit.loopBody (.ofNat 1)) := by decide +kernel
  have hinner : earlyExit.loopBodies.body? (.ofNat 2) =
      some (earlyExit.loopBody (.ofNat 2)) := by decide +kernel
  have hbranch : .ofNat 3 ∈ (earlyExit.loopBody (.ofNat 2)).toList := by
    decide +kernel
  have hpair : [.ofNat 2, .ofNat 1].Sublist
      (earlyExit.loopBodies.enclosing (.ofNat 3)) :=
    LoopBodies.pair_sublist_enclosing (LoopBodies.mem_of_body? hinner)
      (LoopBodies.mem_of_body? houter) hbranch (by decide +kernel)
      (by decide +kernel)
  have hlength : (earlyExit.loopBodies.enclosing (.ofNat 3)).length = 2 := by
    rw [LoopBodies.enclosing, List.length_map, List.length_mergeSort]
    decide +kernel
  have henclosing : earlyExit.loopBodies.enclosing (.ofNat 3) =
      [.ofNat 2, .ofNat 1] :=
    (hpair.eq_of_length hlength.symm).symm
  refine ⟨rfl, houter, hinner, by decide +kernel, fun h => ?_, hbranch,
    henclosing, ?_⟩
  · have hend : .ofNat 5 ∈ (earlyExit.loopBody (.ofNat 1)).toList :=
      h.1 _ (by decide +kernel)
    revert hend
    decide +kernel
  · rw [LoopBodies.innermost?, henclosing]
    rfl

end Workbench.Workflow
