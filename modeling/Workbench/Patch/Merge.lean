import Workbench.Duration
import Workbench.Patch.Basic
import Workbench.Workflow.Violation

/-!
# Merging a patch

A patch is merged in two steps: its candidate is built, and a validator is asked
whether the candidate may take the place of the workflow. A validator takes its
time to answer, perhaps for ever; whoever asks sets a limit to the waiting, or
none. The workflow itself is never touched: the outcome of a merge is the
accepted candidate or the reason why there is none.
-/

namespace Workbench

/-- What a validator says of a candidate: accepted, or rejected for the given
reasons. -/
abbrev Verdict := Except (List String) Unit

/-- A judge of candidates that answers after a delay, or never. -/
structure Validator where
  judge : Workflow → Verdict
  delay : Option Duration := some ⟨0⟩

/-- The validator that checks the structure of a workflow, at once. -/
def Validator.structural : Validator where
  judge workflow :=
    match workflow.check with
    | [] => .ok ()
    | reasons => .error reasons

/-- How long a validator is waited for; without a limit, as long as it takes. -/
structure MergeOptions where
  limit : Option Duration := some (.ofSeconds 30)
deriving DecidableEq, Repr

/-- Why a merge did not happen. -/
inductive MergeError
  | rejected (reasons : List String)
  | timedOut (limit : Duration)
  | busy
deriving DecidableEq, Repr

namespace MergeError

def message : MergeError → String
  | rejected reasons =>
      "Patch rejected by structural validation: " ++
        String.intercalate "; " reasons
  | timedOut limit =>
      s!"Structural validator did not answer within {limit.text}"
  | busy => "Another merge is already in progress"

/-- The reasons one by one. -/
def reasons : MergeError → List String
  | rejected reasons => reasons
  | error => [error.message]

end MergeError

/-- When and with what the waiting for a validator ends. -/
inductive Wait
  /-- The validator answers after the given time. -/
  | answered (after : Duration)
  /-- The limit passes first. -/
  | expired (limit : Duration)
  | endless
deriving DecidableEq, Repr

/-- How waiting for a validator with the given delay ends. An answer that comes
just at the limit is in time. -/
def MergeOptions.wait (options : MergeOptions) (delay : Option Duration) :
    Wait :=
  match delay, options.limit with
  | none, none => .endless
  | none, some limit => .expired limit
  | some delay, none => .answered delay
  | some delay, some limit =>
      if delay ≤ limit then .answered delay else .expired limit

/-- The candidate if the verdict accepts it. -/
def Verdict.ruleOn (verdict : Verdict) (candidate : Workflow) :
    Except MergeError Workflow :=
  match verdict with
  | .ok () => .ok candidate
  | .error reasons => .error (.rejected reasons)

/-- What comes of a candidate once the waiting for its validator ends; `none` if
it never does. -/
def Validator.ruling? (validator : Validator) (options : MergeOptions)
    (candidate : Workflow) : Option (Except MergeError Workflow) :=
  match options.wait validator.delay with
  | .answered _ => some ((validator.judge candidate).ruleOn candidate)
  | .expired limit => some (.error (.timedOut limit))
  | .endless => none

/-- Merges a patch into a workflow; `none` if the waiting never ends. -/
def Workflow.merge? (workflow : Workflow) (patch : Patch)
    (validator : Validator) (options : MergeOptions) :
    Option (Except MergeError Workflow) :=
  validator.ruling? options (workflow.candidate patch)

/-- What a merge changed, by the length of the patch's lists, and its
warnings. -/
structure MergeOutcome where
  added : Nat
  removed : Nat
  updated : Nat
  warnings : List String
deriving DecidableEq, Repr

def Patch.outcome (patch : Patch) : MergeOutcome where
  added := patch.addedNodes.length
  removed := patch.removedNodes.length
  updated := patch.updatedNodes.length
  warnings := patch.warnings

end Workbench
