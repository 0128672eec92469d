import Workbench.Proofs.Workflow.Lookup
import Workbench.Session.Basic

/-!
# A merge is an edit or nothing

How a merge ends hangs on three things: whether its validator answers in the
time that the options give it, what it answers, and, if it never does, whether
there is a limit. `MergeOptions.wait_cases` tells these apart once, and from it
follows what the waiting comes to in each case.

A failed merge gives the session back as it was. A merge that succeeds is the
edit that puts the candidate in the place of the live workflow, as far as the
session goes; so there is one way only in which a session changes, and what is
true of edits is true of merges.
-/

namespace Workbench

/-- A validator with the given delay answers, and not after the limit. -/
def MergeOptions.InTime (options : MergeOptions) (delay : Option Duration) :
    Prop :=
  ∃ after, delay = some after ∧ ∀ limit,
    options.limit = some limit → after ≤ limit

/-- The waiting ends with the answer, or with the limit, or not at all. -/
theorem MergeOptions.wait_cases (options : MergeOptions)
    (delay : Option Duration) :
    (options.InTime delay ∧ ∃ after, options.wait delay = .answered after) ∨
    (¬ options.InTime delay ∧ ∃ limit, options.limit = some limit ∧
      options.wait delay = .expired limit) ∨
    (options.limit = none ∧ delay = none ∧ options.wait delay = .endless) := by
  obtain ⟨_ | limit⟩ := options
  · cases delay with
    | none => exact .inr (.inr ⟨rfl, rfl, rfl⟩)
    | some after =>
        refine .inl ⟨⟨after, rfl, fun limit h => ?_⟩, after, rfl⟩
        cases h
  · cases delay with
    | none =>
        refine .inr (.inl ⟨fun h => ?_, limit, rfl, rfl⟩)
        obtain ⟨after, hafter, -⟩ := h
        cases hafter
    | some after =>
        by_cases hle : after ≤ limit
        · refine .inl ⟨⟨after, rfl, fun other h => ?_⟩, after, if_pos hle⟩
          obtain rfl := Option.some.inj h
          exact hle
        · refine .inr (.inl ⟨fun h => ?_, limit, rfl, if_neg hle⟩)
          obtain ⟨other, hother, hin⟩ := h
          obtain rfl := Option.some.inj hother
          exact hle (hin limit rfl)

/-- The structural validator answers at once, so no limit is too short for
it. -/
theorem MergeOptions.inTime_structural (options : MergeOptions) :
    options.InTime Validator.structural.delay :=
  ⟨⟨0⟩, rfl, fun _ _ => Nat.zero_le _⟩

namespace Validator

variable {validator : Validator} {options : MergeOptions} {candidate : Workflow}

/-- The structural validator accepts what the check has nothing against. -/
theorem judge_structural_eq_ok_iff :
    structural.judge candidate = .ok () ↔ candidate.check = [] := by
  unfold structural
  dsimp only
  split
  · next hcheck => exact iff_of_true rfl hcheck
  · next hcheck => exact iff_of_false nofun hcheck

theorem judge_structural_of_rejected (h : candidate.check ≠ []) :
    structural.judge candidate = .error candidate.check := by
  unfold structural
  dsimp only
  split
  · next hcheck => exact absurd hcheck h
  · rfl

theorem ruling?_of_inTime (h : options.InTime validator.delay) :
    validator.ruling? options candidate =
      some ((validator.judge candidate).ruleOn candidate) := by
  unfold ruling?
  obtain ⟨-, after, hwait⟩ | ⟨hlate, -⟩ | ⟨-, hnever, -⟩ :=
    options.wait_cases validator.delay
  · rw [hwait]
  · exact absurd h hlate
  · obtain ⟨after, hafter, -⟩ := h
    cases hnever.symm.trans hafter

theorem ruling?_of_late {limit : Duration} (hlimit : options.limit = some limit)
    (h : ¬ options.InTime validator.delay) :
    validator.ruling? options candidate = some (.error (.timedOut limit)) := by
  unfold ruling?
  obtain ⟨hin, -⟩ | ⟨-, other, hother, hwait⟩ | ⟨hnone, -, -⟩ :=
    options.wait_cases validator.delay
  · exact absurd hin h
  · obtain rfl := Option.some.inj (hother.symm.trans hlimit)
    rw [hwait]
  · cases hnone.symm.trans hlimit

theorem ruling?_eq_none_iff :
    validator.ruling? options candidate = none ↔
      options.limit = none ∧ validator.delay = none := by
  refine ⟨fun h => ?_, fun h => ?_⟩
  · obtain ⟨hin, -⟩ | ⟨hlate, limit, hlimit, -⟩ | ⟨hnone, hnever, -⟩ :=
      options.wait_cases validator.delay
    · cases (ruling?_of_inTime hin).symm.trans h
    · cases (ruling?_of_late hlimit hlate).symm.trans h
    · exact ⟨hnone, hnever⟩
  · obtain ⟨hnone, hnever⟩ := h
    unfold ruling? MergeOptions.wait
    rw [hnone, hnever]

/-- Only the candidate itself is ever accepted, and only by the validator's own
answer. -/
theorem ruling?_eq_some_ok {merged : Workflow}
    (h : validator.ruling? options candidate = some (.ok merged)) :
    validator.judge candidate = .ok () ∧ merged = candidate := by
  obtain ⟨hin, -⟩ | ⟨hlate, limit, hlimit, -⟩ | ⟨hnone, hnever, -⟩ :=
    options.wait_cases validator.delay
  · rw [ruling?_of_inTime hin, Option.some.injEq] at h
    unfold Verdict.ruleOn at h
    split at h
    · next hjudge => exact ⟨hjudge, (Except.ok.inj h).symm⟩
    · cases h
  · cases (ruling?_of_late hlimit hlate).symm.trans h
  · cases (ruling?_eq_none_iff.2 ⟨hnone, hnever⟩).symm.trans h

end Validator

namespace Session

variable {session : Session} {patch : Patch} {validator : Validator}

/-- The edit by which a patch is applied without asking a validator. -/
def applied (session : Session) (patch : Patch) : Session :=
  (session.edit mergeLabel fun live => ((), live.candidate patch)).2

theorem merge?_of_late {limit : Duration}
    (hlimit : session.options.limit = some limit)
    (h : ¬ session.options.InTime validator.delay) :
    session.merge? patch validator =
      some (.error (.timedOut limit), session) := by
  unfold merge? Workflow.merge?
  rw [Validator.ruling?_of_late hlimit h]
  rfl

theorem merge?_of_rejected {reasons : List String}
    (h : session.options.InTime validator.delay)
    (hjudge : validator.judge (session.workflow.candidate patch) =
      .error reasons) :
    session.merge? patch validator =
      some (.error (.rejected reasons), session) := by
  unfold merge? Workflow.merge?
  rw [Validator.ruling?_of_inTime h, hjudge]
  rfl

theorem merge?_of_accepted (h : session.options.InTime validator.delay)
    (hjudge : validator.judge (session.workflow.candidate patch) = .ok ()) :
    session.merge? patch validator =
      some (.ok patch.outcome, session.applied patch) := by
  unfold merge? Workflow.merge?
  rw [Validator.ruling?_of_inTime h, hjudge]
  rfl

theorem merge?_eq_none_iff :
    session.merge? patch validator = none ↔
      session.options.limit = none ∧ validator.delay = none := by
  unfold merge? Workflow.merge?
  rw [Option.map_eq_none_iff, Validator.ruling?_eq_none_iff]

/-- A merge that ends leaves the session as it is, or its validator has accepted
the candidate and the patch is applied. -/
theorem merge?_eq_some {next : Session}
    {result : Except MergeError MergeOutcome}
    (h : session.merge? patch validator = some (result, next)) :
    (∃ error, result = .error error ∧ next = session) ∨
      validator.judge (session.workflow.candidate patch) = .ok () ∧
        result = .ok patch.outcome ∧ next = session.applied patch := by
  obtain ⟨hin, -⟩ | ⟨hlate, limit, hlimit, -⟩ | ⟨hnone, hnever, -⟩ :=
    session.options.wait_cases validator.delay
  · cases hjudge : validator.judge (session.workflow.candidate patch) with
    | error reasons =>
        rw [merge?_of_rejected hin hjudge, Option.some.injEq,
          Prod.mk.injEq] at h
        exact .inl ⟨_, h.1.symm, h.2.symm⟩
    | ok _ =>
        rw [merge?_of_accepted hin hjudge, Option.some.injEq,
          Prod.mk.injEq] at h
        exact .inr ⟨rfl, h.1.symm, h.2.symm⟩
  · rw [merge?_of_late hlimit hlate, Option.some.injEq, Prod.mk.injEq] at h
    exact .inl ⟨_, h.1.symm, h.2.symm⟩
  · cases (merge?_eq_none_iff.2 ⟨hnone, hnever⟩).symm.trans h

/-! ## What an edit does to a session -/

/-- Putting a workflow in the place of the live one keeps a selection that names
one of its nodes. -/
theorem selected_replace_iff {workflow : Workflow} {id : Uuid} :
    (session.replace workflow).selected = some id ↔
      session.selected = some id ∧ ∃ node ∈ workflow.nodes, node.id = id := by
  have hselected : (session.replace workflow).selected =
      session.selected.filter workflow.contains := rfl
  rw [hselected, Option.filter_eq_some_iff, Workflow.contains_iff]

/-- The past after a change: the workflow as it was, and before it as much as
the capacity leaves room for. -/
theorem remember_eq (history : History) (snapshot : Snapshot) :
    history.remember snapshot =
      if history.capacity = 0 then []
      else snapshot :: history.past.take (history.capacity - 1) := by
  unfold History.remember
  split
  · next hzero => rw [hzero, List.take_zero]
  · next hpos =>
      obtain ⟨room, hroom⟩ := Nat.exists_eq_succ_of_ne_zero hpos
      rw [hroom, List.take_succ_cons]
      rfl

/-- An undo takes back the last change and a redo makes it again, if there is
room to record it. -/
theorem undo_redo_edit {label : String} {workflow : Workflow} {edited : Session}
    (hroom : 0 < session.history.capacity)
    (hedited : edited = (session.record label).replace workflow) :
    edited.undo.1 = true ∧ edited.undo.2.workflow = session.workflow ∧
      edited.undo.2.redo.1 = true ∧
      edited.undo.2.redo.2.workflow = workflow := by
  have hpast : edited.history.past =
      ⟨label, session.workflow⟩ :: session.history.past.take
        (session.history.capacity - 1) := by
    rw [hedited]
    exact (remember_eq _ _).trans (if_neg (Nat.ne_of_gt hroom))
  have hlive : edited.workflow = workflow := by
    rw [hedited]
    rfl
  -- What comes off the past goes on the future, and comes back from there.
  have hundo : edited.undo =
      (true, { edited with
        history := { edited.history with
          past := session.history.past.take (session.history.capacity - 1)
          future := ⟨label, workflow⟩ ::
            edited.history.future } }.replace session.workflow) := by
    unfold undo History.undo?
    rw [hpast, hlive]
  rw [hundo]
  exact ⟨rfl, rfl, rfl, rfl⟩

/-- The session has become what the edit makes of it that applies the patch. -/
structure Merged (session : Session) (patch : Patch) (merged : Session) :
    Prop where
  as_edit : merged =
    (session.edit "Apply patch" fun live => ((), live.candidate patch)).2
  live : merged.workflow = session.workflow.candidate patch
  past : merged.history.past =
    if session.history.capacity = 0 then []
    else ⟨"Apply patch", session.workflow⟩ ::
      session.history.past.take (session.history.capacity - 1)
  future : merged.history.future = []
  capacity : merged.history.capacity = session.history.capacity
  selected : ∀ id, merged.selected = some id ↔
    session.selected = some id ∧
      ∃ node ∈ (session.workflow.candidate patch).nodes, node.id = id
  options : merged.options = session.options
  undone : 0 < session.history.capacity →
    merged.undo.1 = true ∧ merged.undo.2.workflow = session.workflow ∧
      merged.undo.2.redo.1 = true ∧
      merged.undo.2.redo.2.workflow = session.workflow.candidate patch

theorem merged_applied (session : Session) (patch : Patch) :
    session.Merged patch (session.applied patch) where
  as_edit := rfl
  live := rfl
  past := remember_eq _ _
  future := rfl
  capacity := rfl
  selected _ := selected_replace_iff
  options := rfl
  undone hroom := undo_redo_edit hroom rfl

/-- A merge whose validator is late or rejects the candidate says so and leaves
the session as it is; a merge whose validator accepts is an edit. There is no
other outcome, unless a validator that never answers is waited for without a
limit. -/
theorem merge?_all_or_nothing (session : Session) (patch : Patch)
    (validator : Validator) :
    (∀ limit, session.options.limit = some limit →
      ¬ session.options.InTime validator.delay →
      session.merge? patch validator =
        some (.error (.timedOut limit), session)) ∧
    (session.options.InTime validator.delay → ∀ reasons,
      validator.judge (session.workflow.candidate patch) = .error reasons →
        session.merge? patch validator =
          some (.error (.rejected reasons), session)) ∧
    (session.options.InTime validator.delay →
      validator.judge (session.workflow.candidate patch) = .ok () →
        ∃ merged,
          session.merge? patch validator = some (.ok patch.outcome, merged) ∧
          session.Merged patch merged) ∧
    (session.merge? patch validator = none ↔
      session.options.limit = none ∧ validator.delay = none) := by
  refine ⟨fun limit hlimit hlate => merge?_of_late hlimit hlate, ?_, ?_,
    merge?_eq_none_iff⟩
  · exact fun hin reasons hjudge => merge?_of_rejected hin hjudge
  · exact fun hin hjudge =>
      ⟨session.applied patch, merge?_of_accepted hin hjudge,
        merged_applied session patch⟩

end Session

end Workbench
