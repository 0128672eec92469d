import Mathlib.Data.List.Infix
import Workbench.Proofs.Session.Run

/-!
# A larger capacity changes nothing but how far back one can go

Take two sessions that differ in their capacities only and ask the same of both.
The one with less room drops snapshots that the other still has, and drops them
at other times. What it drops is always the oldest, though, so its past remains
the upper part of the other past (`Abridges`): a new snapshot goes on top of
both, and what is then cut from below leaves the smaller one no longer than it
was allowed to be. Nothing is ever dropped from a future, so the two futures are
the same.

No operation but one looks at how much past there is. An undo finds the same
snapshot on top of both pasts, unless the smaller past is empty and the other is
not. Up to there the two sessions cannot be told apart, and `GoBackAlike` says
that it does not come to this.
-/

namespace Workbench.Session

variable {ρ : Type} {small large : Session}

/-- The first session is the second with less of the past, or as much. -/
structure Abridges (small large : Session) : Prop where
  live : small.workflow = large.workflow
  selected : small.selected = large.selected
  options : small.options = large.options
  future : small.history.future = large.history.future
  past : small.history.past <+: large.history.past
  capacity_le : small.history.capacity ≤ large.history.capacity

theorem abridges_start (workflow : Workflow) {capacity larger : Nat}
    (h : capacity ≤ larger) (options : MergeOptions) :
    (start workflow capacity options).Abridges
      (start workflow larger options) :=
  ⟨rfl, rfl, rfl, rfl, List.prefix_rfl, h⟩

namespace Abridges

variable (h : small.Abridges large)

include h

/-! ## One operation -/

/-- Both pasts get the snapshot on top; then the one is cut at its capacity and
the other not above it. -/
theorem remember (snapshot : Snapshot) :
    small.history.remember snapshot <+: large.history.remember snapshot := by
  have htop :
      snapshot :: small.history.past <+: snapshot :: large.history.past :=
    (List.prefix_cons_inj snapshot).2 h.past
  exact (htop.take _).trans (List.take_prefix_take_left h.capacity_le)

theorem replace (workflow : Workflow) :
    (small.replace workflow).Abridges (large.replace workflow) where
  live := rfl
  selected := congrArg (Option.filter workflow.contains) h.selected
  options := h.options
  future := h.future
  past := h.past
  capacity_le := h.capacity_le

theorem record (label : String) :
    (small.record label).Abridges (large.record label) where
  live := h.live
  selected := h.selected
  options := h.options
  future := rfl
  past := by
    unfold Session.record History.push
    rw [h.live]
    exact h.remember _
  capacity_le := h.capacity_le

theorem select (id : Uuid) :
    (small.select id).1 = (large.select id).1 ∧
      (small.select id).2.Abridges (large.select id).2 := by
  unfold Session.select
  rw [h.live]
  split
  · exact ⟨rfl, rfl, rfl, h.options, h.future, h.past, h.capacity_le⟩
  · exact ⟨rfl, h⟩

theorem edit (label : String) (change : Workflow → ρ × Workflow) :
    (small.edit label change).1 = (large.edit label change).1 ∧
      (small.edit label change).2.Abridges (large.edit label change).2 := by
  unfold Session.edit
  rw [h.live]
  exact ⟨rfl, (h.record label).replace _⟩

/-- The snapshot on top of the smaller past, if there is one, is on top of
both. -/
theorem undo (hback : small.undo.1 = false → large.undo.1 = false) :
    small.undo.1 = large.undo.1 ∧ small.undo.2.Abridges large.undo.2 := by
  have hpast := h.past
  unfold Session.undo History.undo? at hback ⊢
  cases hsmall : small.history.past with
  | nil =>
      cases hlarge : large.history.past with
      | nil => exact ⟨rfl, h⟩
      | cons last past =>
          rw [hsmall, hlarge] at hback
          cases hback rfl
  | cons last past =>
      rw [hsmall] at hpast
      obtain ⟨longer, hlarge, hrest⟩ := List.cons_prefix_iff.1 hpast
      rw [hlarge]
      refine ⟨rfl, Abridges.replace ?_ last.workflow⟩
      exact { h with future := by rw [h.live, h.future], past := hrest }

theorem redo :
    small.redo.1 = large.redo.1 ∧ small.redo.2.Abridges large.redo.2 := by
  unfold Session.redo History.redo?
  rw [h.future]
  cases hfuture : large.history.future with
  | nil => exact ⟨rfl, h⟩
  | cons next future =>
      refine ⟨rfl, Abridges.replace ?_ next.workflow⟩
      exact { h with future := rfl, past := h.live ▸ h.remember _ }

theorem commit (patch : Patch) (merged : Except MergeError Workflow) :
    (small.commit patch merged).1 = (large.commit patch merged).1 ∧
      (small.commit patch merged).2.Abridges (large.commit patch merged).2 := by
  cases merged with
  | error error => exact ⟨rfl, h⟩
  | ok workflow => exact ⟨rfl, (h.record mergeLabel).replace workflow⟩

end Abridges

/-- The same comes back, and the one session that is left is the other with less
of the past. -/
def EndAlike {α : Type} (small large : α × Session) : Prop :=
  small.1 = large.1 ∧ small.2.Abridges large.2

theorem Abridges.perform? (h : small.Abridges large) (operation : Operation ρ)
    (hback : operation = .undo → small.undo.1 = false → large.undo.1 = false) :
    Option.Rel EndAlike (small.perform? operation)
      (large.perform? operation) := by
  cases operation with
  | select id =>
      obtain ⟨hanswer, hnext⟩ := h.select id
      exact .some ⟨congrArg Answer.said hanswer, hnext⟩
  | clearSelection => exact .some ⟨rfl, { h with selected := rfl }⟩
  | record label => exact .some ⟨rfl, h.record label⟩
  | edit label change =>
      obtain ⟨hanswer, hnext⟩ := h.edit label change
      exact .some ⟨congrArg Answer.changed hanswer, hnext⟩
  | undo =>
      obtain ⟨hanswer, hnext⟩ := h.undo (hback rfl)
      exact .some ⟨congrArg Answer.said hanswer, hnext⟩
  | redo =>
      obtain ⟨hanswer, hnext⟩ := h.redo
      exact .some ⟨congrArg Answer.said hanswer, hnext⟩
  | merge patch validator =>
      -- Both candidates and both limits are the same, so the validator cannot
      -- tell the two merges apart.
      unfold Session.perform? merge?
      dsimp only
      rw [h.live, h.options]
      cases large.workflow.merge? patch validator large.options with
      | none => exact .none
      | some merged =>
          obtain ⟨hanswer, hnext⟩ := h.commit patch merged
          exact .some ⟨congrArg Answer.merged hanswer, hnext⟩

/-! ## Runs -/

/-- In the course of the operations no undo is refused by the first session and
not by the second. -/
def GoBackAlike (small large : Session) (operations : List (Operation ρ)) :
    Prop :=
  ∀ before after answers answers' less more,
    operations = before ++ .undo :: after →
    small.run? before = some (answers, less) →
    large.run? before = some (answers', more) →
      less.undo.1 = false → more.undo.1 = false

theorem GoBackAlike.of_prefix {done operations : List (Operation ρ)}
    (h : GoBackAlike small large operations) (hdone : done <+: operations) :
    GoBackAlike small large done := by
  obtain ⟨rest, rfl⟩ := hdone
  intro before after answers answers' less more heq
  refine h before (after ++ rest) answers answers' less more ?_
  rw [heq, List.append_assoc, List.cons_append]

theorem Abridges.run? (h : small.Abridges large)
    {operations : List (Operation ρ)}
    (hback : GoBackAlike small large operations) :
    Option.Rel EndAlike (small.run? operations) (large.run? operations) := by
  induction operations generalizing small large with
  | nil => exact .some ⟨rfl, h⟩
  | cons operation rest ih =>
      have hstep : Option.Rel EndAlike (small.perform? operation)
          (large.perform? operation) := by
        refine h.perform? operation fun hundo => ?_
        subst hundo
        exact hback [] rest [] [] small large rfl rfl rfl
      unfold Session.run?
      generalize hsmall : small.perform? operation = ending,
        hlarge : large.perform? operation = ending' at hstep ⊢
      cases hstep with
      | none => exact .none
      | @some ending ending' hending =>
          obtain ⟨answer, next⟩ := ending
          obtain ⟨answer', next'⟩ := ending'
          obtain ⟨rfl, hnext⟩ : answer = answer' ∧
            next.Abridges next' := hending
          have hrest :
              Option.Rel EndAlike (next.run? rest) (next'.run? rest) := by
            refine ih hnext
              fun before after answers answers' less more heq hless hmore => ?_
            refine hback (operation :: before) after (answer :: answers)
              (answer :: answers') less
              more (congrArg (operation :: ·) heq) ?_ ?_
            · simp only [Session.run?, hsmall, hless]
            · simp only [Session.run?, hlarge, hmore]
          dsimp only
          generalize next.run? rest = last, next'.run? rest = last' at hrest ⊢
          cases hrest with
          | none => exact .none
          | some hlast => exact .some ⟨congrArg (answer :: ·) hlast.1, hlast.2⟩

/-- Two sessions with the same workflow, of which one remembers more, cannot be
told apart after any number of operations but by how far back one can go, as
long as no undo is refused by the one and not by the other. They give the same
answers, they wait for ever for the same validators, they have the same live
workflow, the same selection and the same future, and what the one still has of
the past is the upper part of what the other has. -/
theorem run_abridges {workflow : Workflow} {options : MergeOptions}
    {capacity larger : Nat} (hle : capacity ≤ larger)
    {operations : List (Operation ρ)}
    (hback : GoBackAlike (start workflow capacity options)
      (start workflow larger options) operations) :
    ∀ done, done <+: operations →
      Option.Rel EndAlike ((start workflow capacity options).run? done)
        ((start workflow larger options).run? done) := by
  intro done hdone
  exact (abridges_start workflow hle options).run? (hback.of_prefix hdone)

def blankPage : Workflow := { id := .ofNat 0, name := "blank page" }

/-- Two changes, of which a session with room for one forgets the first, an
undo, a redo, and a merge. -/
def scribbles : List (Operation Unit) :=
  [.edit "title" fun workflow => ((), { workflow with name := "title page" }),
    .edit "heading" fun workflow => ((), { workflow with name := "heading" }),
    .undo, .redo, .merge {} { judge := fun _ => .ok () }]

theorem scribbles_goBackAlike :
    GoBackAlike (start blankPage 1) (start blankPage 3) scribbles := by
  intro before after answers answers' less more heq hless hmore hrefused
  rcases before with _ | ⟨first, _ | ⟨second, _ | ⟨third, before⟩⟩⟩
  · cases heq
  · cases heq
  · -- The only undo comes after the two changes.
    cases heq
    cases hless
    cases hrefused
  · simp only [scribbles, List.cons_append, List.cons.injEq] at heq
    obtain ⟨-, -, -, heq⟩ := heq
    have hmem : .undo ∈ before ++ .undo :: after :=
      List.mem_append_right _ (List.mem_cons_self ..)
    rw [← heq] at hmem
    rcases List.mem_cons.1 hmem with hredo | hmerge
    · cases hredo
    · cases List.mem_singleton.1 hmerge

theorem scribbles_run_abridges :
    Option.Rel EndAlike ((start blankPage 1).run? scribbles)
      ((start blankPage 3).run? scribbles) ∧
      ((start blankPage 1).run? scribbles).map
        (·.2.history.past.map (·.label)) = some ["Apply patch"] ∧
      ((start blankPage 3).run? scribbles).map
        (·.2.history.past.map (·.label)) =
        some ["Apply patch", "heading", "title"] :=
  ⟨run_abridges (by decide) scribbles_goBackAlike scribbles List.prefix_rfl,
    rfl, rfl⟩

end Workbench.Session
