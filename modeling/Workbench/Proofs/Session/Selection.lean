import Workbench.Proofs.Session.Run
import Workbench.Workflow.Edit

/-!
# The selection names a live node

A selection is made of a live node, and every operation that puts another
workflow in the place of the live one looks whether it has that node. So a
selection never dangles, and that is also what makes the rule for the other
operations as simple as it is: since the selection names a live node, to keep it
and to keep it if its node is there come to the same where the live workflow
stays, as with a change recorded, a merge that fails, or an undo that has
nothing to go back to.

The rule looks at the new live workflow and at nothing before the operation. A
selection that was dropped is therefore forgotten, and stays so when its node
comes back.
-/

namespace Workbench.Session

variable {ρ : Type} {session next : Session} {operation : Operation ρ}

/-- What is selected is a node of the live workflow. -/
def SelectsLive (session : Session) : Prop :=
  ∀ id, session.selected = some id →
    ∃ node ∈ session.workflow.nodes, node.id = id

/-- The selection is still what it was, so far as the node is there. -/
def CarriesSelection (session next : Session) : Prop :=
  ∀ id, next.selected = some id ↔
    session.selected = some id ∧ ∃ node ∈ next.workflow.nodes, node.id = id

theorem CarriesSelection.selectsLive (h : session.CarriesSelection next) :
    next.SelectsLive :=
  fun id hselected => ((h id).1 hselected).2

/-- A session whose selection and live workflow are the same carries the
selection on. -/
theorem SelectsLive.carries (h : session.SelectsLive)
    (hselected : next.selected = session.selected)
    (hlive : next.workflow = session.workflow) :
    session.CarriesSelection next := by
  intro id
  rw [hselected, hlive]
  exact ⟨fun hid => ⟨hid, h id hid⟩, fun hid => hid.1⟩

theorem carries_replace (workflow : Workflow) :
    session.CarriesSelection (session.replace workflow) :=
  fun _ => selected_replace_iff

theorem select_eq_true_iff {id : Uuid} :
    (session.select id).1 = true ↔
      ∃ node ∈ session.workflow.nodes, node.id = id := by
  rw [← Workflow.contains_iff]
  unfold select
  split
  · next hcontains => exact iff_of_true rfl hcontains
  · next hcontains => exact iff_of_false Bool.false_ne_true hcontains

theorem selected_select {id : Uuid} :
    (session.select id).2.selected =
      if (session.select id).1 then some id else session.selected := by
  unfold select
  split
  · rfl
  · rfl

theorem workflow_select {id : Uuid} :
    (session.select id).2.workflow = session.workflow := by
  unfold select
  split
  · rfl
  · rfl

theorem SelectsLive.select (h : session.SelectsLive) (id : Uuid) :
    (session.select id).2.SelectsLive := by
  intro other hselected
  rw [selected_select] at hselected
  rw [workflow_select]
  split at hselected
  · next hyes =>
      obtain rfl := Option.some.inj hselected
      exact select_eq_true_iff.1 hyes
  · exact h other hselected

theorem SelectsLive.carries_undo (h : session.SelectsLive) :
    session.CarriesSelection session.undo.2 := by
  unfold undo
  split
  · exact h.carries rfl rfl
  · exact carries_replace _

theorem SelectsLive.carries_redo (h : session.SelectsLive) :
    session.CarriesSelection session.redo.2 := by
  unfold redo
  split
  · exact h.carries rfl rfl
  · exact carries_replace _

/-- An operation that is not about the selection carries it on. -/
theorem SelectsLive.carries_perform? (h : session.SelectsLive)
    (hselect : ∀ id, operation ≠ .select id)
    (hclear : operation ≠ .clearSelection) {answer : Answer ρ}
    (hperform : session.perform? operation = some (answer, next)) :
    session.CarriesSelection next := by
  cases performs_of_perform? hperform with
  | select id => exact absurd rfl (hselect id)
  | clearSelection => exact absurd rfl hclear
  | record label => exact h.carries rfl rfl
  | edit label change => exact carries_replace _
  | undo => exact h.carries_undo
  | redo => exact h.carries_redo
  | failed patch validator error => exact h.carries rfl rfl
  | merged patch validator accepted => exact carries_replace _

/-- One operation. -/
theorem SelectsLive.perform? (h : session.SelectsLive) {answer : Answer ρ}
    (hperform : session.perform? operation = some (answer, next)) :
    next.SelectsLive := by
  by_cases hselect : ∃ id, operation = .select id
  · obtain ⟨id, rfl⟩ := hselect
    obtain ⟨rfl, rfl⟩ := Prod.mk.inj (Option.some.inj hperform)
    exact h.select id
  · by_cases hclear : operation = .clearSelection
    · subst hclear
      obtain ⟨rfl, rfl⟩ := Prod.mk.inj (Option.some.inj hperform)
      intro id hselected
      cases hselected
    · exact (h.carries_perform?
        (not_exists.1 hselect) hclear hperform).selectsLive

/-- Any number of operations. -/
theorem SelectsLive.run? {last : Session} {operations : List (Operation ρ)}
    {answers : List (Answer ρ)} (h : session.SelectsLive)
    (hrun : session.run? operations = some (answers, last)) :
    last.SelectsLive := by
  have hstep : ∀ operation ∈ operations, ∀ (current : Session) answer next,
      current.SelectsLive →
      current.perform? operation = some (answer, next) → next.SelectsLive :=
    fun _ _ _ _ _ hcurrent hperform => hcurrent.perform? hperform
  exact run?_preserves hstep h hrun

/-- Nothing is selected unless it is asked for. -/
theorem selected_eq_none_of_run? {last : Session}
    {operations : List (Operation ρ)} {answers : List (Answer ρ)}
    (hnone : session.selected = none) (hselect : ∀ id, .select id ∉ operations)
    (hrun : session.run? operations = some (answers, last)) :
    last.selected = none := by
  have hstep : ∀ operation ∈ operations, ∀ (current : Session) answer next,
      current.selected = none →
        current.perform? operation = some (answer, next) →
        next.selected = none := by
    intro operation hmem current answer next hcurrent hperform
    by_cases hclear : operation = .clearSelection
    · subst hclear
      obtain ⟨rfl, rfl⟩ := Prod.mk.inj (Option.some.inj hperform)
      rfl
    · have hlive : current.SelectsLive := by
        intro id hid
        cases hcurrent.symm.trans hid
      have hother : ∀ id, operation ≠ .select id :=
        fun id heq => hselect id (heq ▸ hmem)
      have hcarries := hlive.carries_perform? hother hclear hperform
      refine Option.eq_none_iff_forall_ne_some.2 fun id hid => ?_
      cases hcurrent.symm.trans ((hcarries id).1 hid).1
  exact run?_preserves hstep hnone hrun

/-- The selection of a session that a run has come to, and what becomes of
it. -/
structure KeepsSelection (session : Session) : Prop where
  live : ∀ id, session.selected = some id →
    ∃ node ∈ session.workflow.nodes, node.id = id
  select : ∀ id,
    ((session.select id).1 = true ↔
      ∃ node ∈ session.workflow.nodes, node.id = id) ∧
    (session.select id).2.selected =
      if (session.select id).1 then some id else session.selected
  clear : session.clearSelection.selected = none
  /-- Every other operation drops the selection if and only if its node is not
  in the live workflow. -/
  others : ∀ {ρ : Type} (operation : Operation ρ) answer next,
    (∀ id, operation ≠ .select id) → operation ≠ .clearSelection →
      session.perform? operation = some (answer, next) →
        ∀ id, next.selected = some id ↔
          session.selected = some id ∧ ∃ node ∈ next.workflow.nodes,
            node.id = id
  /-- What an undo drops does not come back with its node. -/
  forgotten : session.undo.2.selected = none →
    session.undo.2.redo.2.selected = none
  unasked : ∀ {ρ : Type} (operations : List (Operation ρ)) answers last,
    session.selected = none → (∀ id, .select id ∉ operations) →
      session.run? operations = some (answers, last) → last.selected = none

/-- In every session that a run comes to, the selection names a live node, and
it is kept as long as its node is there. -/
theorem run_keepsSelection {workflow : Workflow} {capacity : Nat}
    {options : MergeOptions} {operations : List (Operation ρ)}
    {answers : List (Answer ρ)}
    (h : (start workflow capacity options).run? operations =
      some (answers, session)) :
    session.KeepsSelection := by
  have hstart : (start workflow capacity options).SelectsLive := by
    intro id hselected
    cases hselected
  have hlive : session.SelectsLive := hstart.run? h
  exact {
    live := hlive
    select := fun id => ⟨select_eq_true_iff, selected_select⟩
    clear := rfl
    others := fun operation answer next hselect hclear hperform =>
      hlive.carries_perform? hselect hclear hperform
    forgotten := fun hnone => by
      have hcarries := hlive.carries_undo.selectsLive.carries_redo
      refine Option.eq_none_iff_forall_ne_some.2 fun id hid => ?_
      cases hnone.symm.trans ((hcarries id).1 hid).1
    unasked := fun operations answers last hnone hselect hrun =>
      selected_eq_none_of_run? hnone hselect hrun }

def blank : Workflow := { id := .ofNat 0, name := "blank" }

/-- Selects a node that has just been added, and then asks for one that is not
there. -/
def fleetingRun : List (Operation Unit) :=
  [.edit "add" fun workflow =>
      ((), workflow.addNode
        { id := .ofNat 1, name := "hello", step := .typeText {} }),
    .select (.ofNat 1), .select (.ofNat 2)]

theorem fleetingRun_keepsSelection :
    ∃ answers session,
      (start blank).run? fleetingRun = some (answers, session) ∧
      session.KeepsSelection ∧ session.selected = some (.ofNat 1) ∧
      session.undo.2.redo.2.workflow.contains (.ofNat 1) = true ∧
      session.undo.2.redo.2.selected = none := by
  obtain ⟨⟨answers, session⟩, h⟩ :
      ∃ result, (start blank).run? fleetingRun = some result := ⟨_, rfl⟩
  have hkeeps := run_keepsSelection h
  refine ⟨answers, session, h, hkeeps, ?_, ?_, hkeeps.forgotten ?_⟩
  all_goals
    obtain ⟨rfl, rfl⟩ := Prod.mk.inj (Option.some.inj h)
    rfl

end Workbench.Session
