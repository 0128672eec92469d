import Workbench.Proofs.Session.Merge

/-!
# Runs of a session

The operations of a session in one type, and what a list of them does one after
another. An operation ends unless it is a merge that waits for its validator
without a limit and in vain; a run ends if all its operations do. What an
operation that ends can have done is said once, by `Performs`.
-/

namespace Workbench

/-- What can be asked of a session. A change may have a result of type `ρ`. -/
inductive Operation (ρ : Type)
  | select (id : Uuid)
  | clearSelection
  | record (label : String)
  | edit (label : String) (change : Workflow → ρ × Workflow)
  | undo
  | redo
  | merge (patch : Patch) (validator : Validator)

/-- What an operation gives back. -/
inductive Answer (ρ : Type)
  | done
  | said (yes : Bool)
  | changed (result : ρ)
  | merged (result : Except MergeError MergeOutcome)

namespace Session

variable {ρ : Type}

/-- What an operation gives back and what it makes of the session; `none` if it
never ends. -/
def perform? (session : Session) : Operation ρ → Option (Answer ρ × Session)
  | .select id => some (.said (session.select id).1, (session.select id).2)
  | .clearSelection => some (.done, session.clearSelection)
  | .record label => some (.done, session.record label)
  | .edit label change =>
      some (.changed (session.edit label change).1,
        (session.edit label change).2)
  | .undo => some (.said session.undo.1, session.undo.2)
  | .redo => some (.said session.redo.1, session.redo.2)
  | .merge patch validator =>
      (session.merge? patch validator).map fun (result, session) =>
        (.merged result, session)

/-- What can come of an operation that ends. -/
inductive Performs (session : Session) : Operation ρ → Answer ρ → Session → Prop
  | select (id : Uuid) :
      Performs session (.select id) (.said (session.select id).1)
        (session.select id).2
  | clearSelection :
      Performs session .clearSelection .done session.clearSelection
  | record (label : String) :
      Performs session (.record label) .done (session.record label)
  | edit (label : String) (change : Workflow → ρ × Workflow) :
      Performs session (.edit label change)
        (.changed (session.edit label change).1)
        (session.edit label change).2
  | undo : Performs session .undo (.said session.undo.1) session.undo.2
  | redo : Performs session .redo (.said session.redo.1) session.redo.2
  | failed (patch : Patch) (validator : Validator) (error : MergeError) :
      Performs session (.merge patch validator) (.merged (.error error)) session
  | merged (patch : Patch) (validator : Validator)
      (accepted : validator.judge (session.workflow.candidate patch) = .ok ()) :
      Performs session (.merge patch validator) (.merged (.ok patch.outcome))
        (session.applied patch)

theorem performs_of_perform? {session next : Session} {operation : Operation ρ}
    {answer : Answer ρ} (h : session.perform? operation = some (answer, next)) :
    session.Performs operation answer next := by
  cases operation with
  | merge patch validator =>
      obtain ⟨⟨result, merged⟩, hmerge, heq⟩ := Option.map_eq_some_iff.1 h
      obtain ⟨rfl, rfl⟩ := Prod.mk.inj heq
      obtain ⟨error, rfl, rfl⟩ | ⟨haccepted, rfl, rfl⟩ := merge?_eq_some hmerge
      · exact .failed patch validator error
      · exact .merged patch validator haccepted
  | _ =>
      obtain ⟨rfl, rfl⟩ := Prod.mk.inj (Option.some.inj h)
      constructor

/-- The answers to a list of operations and the session after all of them. -/
def run? (session : Session) :
    List (Operation ρ) → Option (List (Answer ρ) × Session)
  | [] => some ([], session)
  | operation :: rest =>
      match session.perform? operation with
      | none => none
      | some (answer, next) =>
          match next.run? rest with
          | none => none
          | some (answers, last) => some (answer :: answers, last)

theorem run?_nil_eq_some {session last : Session} {answers : List (Answer ρ)}
    (h : session.run? [] = some (answers, last)) :
    answers = [] ∧ last = session := by
  rw [run?, Option.some.injEq, Prod.mk.injEq] at h
  exact ⟨h.1.symm, h.2.symm⟩

/-- A run that ends ends after its first operation and then after the others. -/
theorem run?_cons_eq_some {session last : Session} {operation : Operation ρ}
    {rest : List (Operation ρ)} {answers : List (Answer ρ)}
    (h : session.run? (operation :: rest) = some (answers, last)) :
    ∃ answer next answers', session.perform? operation = some (answer, next) ∧
      next.run? rest = some (answers', last) ∧
      answers = answer :: answers' := by
  rw [run?] at h
  split at h
  · cases h
  · next answer next hperform =>
      split at h
      · cases h
      · next answers' last' hrun =>
          rw [Option.some.injEq, Prod.mk.injEq] at h
          obtain ⟨rfl, rfl⟩ := h
          exact ⟨answer, next, answers', hperform, hrun, rfl⟩

/-- What every operation of a run passes on is passed on by the run. -/
theorem run?_preserves {holds : Session → Prop} {session last : Session}
    {operations : List (Operation ρ)} {answers : List (Answer ρ)}
    (hstep : ∀ operation ∈ operations, ∀ current answer next, holds current →
      current.perform? operation = some (answer, next) → holds next)
    (hstart : holds session)
    (h : session.run? operations = some (answers, last)) : holds last := by
  induction operations generalizing session answers with
  | nil =>
      obtain ⟨-, rfl⟩ := run?_nil_eq_some h
      exact hstart
  | cons operation rest ih =>
      obtain ⟨hfirst, hrest⟩ := List.forall_mem_cons.1 hstep
      obtain ⟨answer, next, answers, hperform, hrun, rfl⟩ := run?_cons_eq_some h
      exact ih hrest (hfirst session answer next hstart hperform) hrun

end Session

end Workbench
