import Workbench.Proofs.Session.Effect
import Workbench.Proofs.Workflow.Sound
import Workbench.Workflow.Edit

/-!
# What all versions of a workflow have in common

A property of workflows that the first version has, that edits keep and that
validators insist on is a property of every version that a session ever holds,
live or in its history. It does not do to follow the live workflow alone: an
undo brings back what the past holds, and a merge after it drops a future that
may hold something else. So the invariant is about all of them (`Throughout`),
and it is kept because an operation takes each version that it leaves from those
that it found or supplies it itself.

Nothing is asked of a merge that fails or of a validator that is late; they
change nothing.
-/

namespace Workbench

variable {ρ : Type}

namespace Operation

/-- What the operation brings in has the property: an edit keeps it, and a
validator accepts nothing without it. -/
def Upholds (property : Workflow → Prop) : Operation ρ → Prop
  | .edit _ change =>
      ∀ workflow, property workflow → property (change workflow).2
  | .merge _ validator =>
      ∀ workflow, validator.judge workflow = .ok () → property workflow
  | _ => True

/-- An edit turns no accepted workflow into one that the check rejects, and
merges are judged by the check and nothing else, however long that takes. -/
def IsChecked : Operation ρ → Prop
  | .edit _ change =>
      ∀ workflow : Workflow,
        workflow.check = [] → (change workflow).2.check = []
  | .merge _ validator => validator.judge = Validator.structural.judge
  | _ => True

end Operation

theorem Operation.IsChecked.upholds {operation : Operation ρ}
    (h : operation.IsChecked) :
    operation.Upholds fun workflow => workflow.check = [] := by
  cases operation with
  | edit label change => exact h
  | merge patch validator =>
      intro workflow hjudge
      have hsame : validator.judge = Validator.structural.judge := h
      rw [hsame] at hjudge
      exact Validator.judge_structural_eq_ok_iff.1 hjudge
  | _ => trivial

namespace Session

variable {session next : Session} {operation : Operation ρ}
  {property : Workflow → Prop}

/-- The live workflow has the property, and so has every snapshot. -/
structure Throughout (session : Session) (property : Workflow → Prop) :
    Prop where
  live : property session.workflow
  past : ∀ snapshot ∈ session.history.past, property snapshot.workflow
  future : ∀ snapshot ∈ session.history.future, property snapshot.workflow

theorem Throughout.snapshot (h : session.Throughout property)
    {snapshot : Snapshot} (hsnapshot : snapshot ∈ session.snapshots) :
    property snapshot.workflow :=
  (mem_snapshots.1 hsnapshot).elim (h.past snapshot) (h.future snapshot)

theorem throughout_start {workflow : Workflow} {capacity : Nat}
    {options : MergeOptions} (h : property workflow) :
    (start workflow capacity options).Throughout property where
  live := h
  past _ hsnapshot := absurd hsnapshot List.not_mem_nil
  future _ hsnapshot := absurd hsnapshot List.not_mem_nil

theorem Supplies.has_property {live workflow : Workflow} {label : String}
    (h : Supplies live operation label workflow)
    (hupholds : operation.Upholds property) (hlive : property live) :
    property workflow := by
  cases h with
  | record label => exact hlive
  | edit label change => exact hupholds live hlive
  | merge patch validator accepted => exact hupholds _ accepted

/-- One operation. -/
theorem Throughout.effect (h : session.Throughout property)
    (hupholds : operation.Upholds property)
    (heffect : session.Effect operation next) : next.Throughout property := by
  have hsnapshots : ∀ snapshot ∈ next.snapshots,
      property snapshot.workflow := by
    intro snapshot hsnapshot
    rcases heffect.origin_of_mem_snapshots hsnapshot with hlive | hbefore
    · exact hlive ▸ h.live
    · exact h.snapshot hbefore
  refine ⟨?_, fun snapshot hpast => ?_, fun snapshot hfuture => ?_⟩
  · rcases heffect.origin_of_live
      with hsame | ⟨snapshot, hsnapshot, hlive⟩ | ⟨label, supplied⟩
    · exact hsame ▸ h.live
    · exact hlive ▸ h.snapshot hsnapshot
    · exact supplied.has_property hupholds h.live
  · exact hsnapshots snapshot (mem_snapshots.2 (.inl hpast))
  · exact hsnapshots snapshot (mem_snapshots.2 (.inr hfuture))

/-- Any number of operations. -/
theorem Throughout.run? {last : Session} {operations : List (Operation ρ)}
    {answers : List (Answer ρ)} (h : session.Throughout property)
    (hupholds : ∀ operation ∈ operations, operation.Upholds property)
    (hrun : session.run? operations = some (answers, last)) :
    last.Throughout property := by
  have hstep : ∀ operation ∈ operations, ∀ (current : Session) answer next,
      current.Throughout property →
        current.perform? operation = some (answer, next) →
        next.Throughout property := by
    intro operation hmem current answer next hcurrent hperform
    exact hcurrent.effect (hupholds operation hmem) (effect_perform? hperform)
  exact run?_preserves hstep h hrun

/-- What a run upholds holds of the live workflow and of all snapshots, each of
which was live before. So where edits keep to the check and merges are judged by
it, nothing becomes live that it would reject, be it by a merge, an undo or a
redo. -/
theorem run_throughout {workflow : Workflow} {capacity : Nat}
    {options : MergeOptions} {operations : List (Operation ρ)}
    {answers : List (Answer ρ)}
    (h : (start workflow capacity options).run? operations =
      some (answers, session)) :
    (∀ property : Workflow → Prop, property workflow →
      (∀ operation ∈ operations, operation.Upholds property) →
      session.Throughout property) ∧
    (∀ snapshot,
      snapshot ∈ session.history.past ∨ snapshot ∈ session.history.future →
      (start workflow capacity options).WasLive operations snapshot.workflow) ∧
    (workflow.check = [] → (∀ operation ∈ operations, operation.IsChecked) →
      session.workflow.check = [] ∧
        session.undo.2.workflow.check = [] ∧
        session.redo.2.workflow.check = [] ∧ ∀ patch delay result next,
          session.merge? patch ⟨Validator.structural.judge, delay⟩ =
            some (result, next) →
            next.workflow.check = []) := by
  refine ⟨fun property hfirst hupholds => ?_, fun snapshot hsnapshot => ?_,
    fun hcheck hchecked => ?_⟩
  · exact (throughout_start hfirst).run? hupholds h
  · exact (wasLive_of_mem_snapshots h (mem_snapshots.2 hsnapshot)).resolve_left
      List.not_mem_nil
  · have hall : session.Throughout fun workflow => workflow.check = [] :=
      (throughout_start hcheck).run?
        (fun operation hmem => (hchecked operation hmem).upholds) h
    have hnext : ∀ (operation : Operation ρ) answer next, operation.IsChecked →
        session.perform? operation = some (answer, next) →
        next.workflow.check = [] :=
      fun operation answer next hchecks hperform =>
        (hall.effect hchecks.upholds (effect_perform? hperform)).live
    refine ⟨hall.live, ?_, ?_, fun patch delay result next hmerge => ?_⟩
    · exact hnext .undo _ _ trivial rfl
    · exact hnext .redo _ _ trivial rfl
    · refine hnext (.merge patch ⟨Validator.structural.judge, delay⟩)
        (.merged result) next rfl ?_
      rw [perform?, hmerge]
      rfl

def greeting : Workflow where
  id := .ofNat 0
  name := "greeting"
  nodes := [{ id := .ofNat 1, name := "hello", step := .typeText {} }]

/-- An accepted merge and an edit, a merge that would leave an edge hanging, a
merge whose validator never answers, and an undo. -/
def carefulRun : List (Operation Unit) :=
  [.merge
      { addedNodes := [{ id := .ofNat 2, name := "world", step := .typeText {} }]
        addedEdges := [⟨.ofNat 1, .ofNat 2, none⟩] } .structural,
    .edit "rename" fun workflow => ((), workflow.rename "welcome"),
    .merge { removedNodes := [.ofNat 2] } .structural,
    .merge {} { Validator.structural with delay := none },
    .undo]

theorem isChecked_of_mem_carefulRun :
    ∀ operation ∈ carefulRun, operation.IsChecked := by
  have hrename : ∀ workflow : Workflow, workflow.check = [] →
      (workflow.rename "welcome").check = [] := by
    intro workflow hcheck
    -- The name has no part in what a sound workflow is.
    have hsound := Workflow.check_eq_nil_iff_sound.1 hcheck
    exact Workflow.check_eq_nil_iff_sound.2 { hsound with }
  simp only [carefulRun, List.forall_mem_cons]
  exact ⟨rfl, hrename, rfl, rfl, trivial,
    fun _ hmem => absurd hmem List.not_mem_nil⟩

theorem carefulRun_throughout :
    ∃ answers session,
      (start greeting 2).run? carefulRun = some (answers, session) ∧
      session.history.past.map (·.workflow) = [greeting] ∧
      session.history.future.map (·.workflow.name) = ["welcome"] ∧
      session.Throughout (fun workflow => workflow.check = []) ∧
      (start greeting 2).WasLive carefulRun greeting ∧
      session.redo.2.workflow.check = [] := by
  obtain ⟨⟨answers, session⟩, h⟩ :
      ∃ result, (start greeting 2).run? carefulRun = some result := ⟨_, rfl⟩
  obtain ⟨hproperty, hlive, hcheck⟩ := run_throughout h
  have hpast : session.history.past.map (·.workflow) = [greeting] := by
    obtain ⟨rfl, rfl⟩ := Prod.mk.inj (Option.some.inj h)
    rfl
  have hfuture : session.history.future.map (·.workflow.name) =
      ["welcome"] := by
    obtain ⟨rfl, rfl⟩ := Prod.mk.inj (Option.some.inj h)
    rfl
  refine ⟨answers, session, h, hpast, hfuture, ?_, ?_, ?_⟩
  · exact hproperty _ rfl fun operation hmem =>
      (isChecked_of_mem_carefulRun operation hmem).upholds
  · obtain ⟨snapshot, hsnapshot, heq⟩ :=
      List.mem_map.1 (hpast ▸ List.mem_singleton_self greeting)
    exact heq ▸ hlive snapshot (.inl hsnapshot)
  · exact (hcheck rfl isChecked_of_mem_carefulRun).2.2.1

end Session

end Workbench
