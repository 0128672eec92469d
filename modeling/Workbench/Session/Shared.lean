import Workbench.Session.Basic

/-!
# Sessions shared between tasks

Several tasks work on one session, one at a time. Whoever has the session keeps
others out until it is done; an action waits its turn, but a merge may hold the
session long, from the moment its candidate is built until its validator has
answered or the limit has passed. A merge does not wait for the session itself:
it is refused as busy unless the session is free, so that it is never built on a
workflow that is about to change.

Which of the tasks that wait is next, and what happens in between, is left open
by `Shared.step`: a list of events is one course of events among all that can
be. Under a schedule of starting times the tasks that wait are served in the
order in which they came, as soon as the session is given back.
-/

namespace Workbench

/-- Something done with the session in one go. -/
abbrev Action (ρ : Type) := Session → ρ × Session

/-- What a task wants of the session. -/
inductive Request (ρ : Type)
  | merge (patch : Patch) (validator : Validator)
  | act (action : Action ρ)

/-- Asks for the live workflow, to be handed over in the given form. -/
def Request.snapshot {ρ : Type} (form : Workflow → ρ) : Request ρ :=
  .act fun session => (form session.workflow, session)

/-- What a task gets. -/
inductive Reply (ρ : Type)
  | merged (result : Except MergeError MergeOutcome)
  | done (result : ρ)

/-- Who has the session. -/
inductive Holder (ρ : Type)
  | free
  /-- A merge whose validator has not answered; the candidate was built when it
  began. -/
  | merging (task : Nat) (patch : Patch) (validator : Validator)
      (candidate : Workflow)
  /-- A task that waited for the session and is about to act. -/
  | granted (task : Nat) (action : Action ρ)

/-- A session with its holder, the tasks that wait, and the replies so far, the
latest first. -/
structure Shared (ρ : Type) where
  session : Session
  holder : Holder ρ := .free
  waiting : List (Nat × Action ρ) := []
  replies : List (Nat × Reply ρ) := []

/-- What can happen to a shared session. -/
inductive SharedEvent (ρ : Type)
  | request (task : Nat) (request : Request ρ)
  /-- The session, if it is free, passes to the task at the given place among
  those that wait. -/
  | grant (place : Nat)
  /-- The task to which the session was passed acts and gives it back. -/
  | act
  /-- The merge that has the session ends, as its validator answers or the limit
  passes. -/
  | conclude

namespace Shared

variable {ρ : Type}

/-- Lets a task act, notes the reply and frees the session. -/
def perform (shared : Shared ρ) (task : Nat) (action : Action ρ) : Shared ρ :=
  let (result, session) := action shared.session
  { shared with
    session
    holder := .free
    replies := (task, .done result) :: shared.replies }

/-- Ends a merge with its outcome, notes the reply and frees the session. -/
def finish (shared : Shared ρ) (task : Nat) (patch : Patch)
    (merged : Except MergeError Workflow) : Shared ρ :=
  let (result, session) := shared.session.commit patch merged
  { shared with
    session
    holder := .free
    replies := (task, .merged result) :: shared.replies }

/-- What an event makes of a shared session. An event that cannot happen changes
nothing. -/
def step (shared : Shared ρ) : SharedEvent ρ → Shared ρ
  | .request task (.merge patch validator) =>
      match shared.holder with
      | .free =>
          { shared with
            holder := .merging task patch validator
              (shared.session.workflow.candidate patch) }
      | _ =>
          { shared with
            replies := (task, .merged (.error .busy)) :: shared.replies }
  | .request task (.act action) =>
      { shared with waiting := shared.waiting ++ [(task, action)] }
  | .grant place =>
      match shared.holder, shared.waiting[place]? with
      | .free, some (task, action) =>
          { shared with
            holder := .granted task action
            waiting := shared.waiting.eraseIdx place }
      | _, _ => shared
  | .act =>
      match shared.holder with
      | .granted task action => shared.perform task action
      | _ => shared
  | .conclude =>
      match shared.holder with
      | .merging task patch validator candidate =>
          match validator.ruling? shared.session.options candidate with
          | some merged => shared.finish task patch merged
          | none => shared
      | _ => shared

/-- What a course of events makes of a shared session. -/
def play (shared : Shared ρ) (events : List (SharedEvent ρ)) : Shared ρ :=
  events.foldl step shared

/-! ## Schedules -/

/-- Lets the tasks that wait act one after another, if the session is free. -/
def drain (shared : Shared ρ) : Shared ρ :=
  Nat.repeat (·.play [.grant 0, .act]) shared.waiting.length shared

/-- When the merge ends that holds the session since the given time. -/
def due? (shared : Shared ρ) (now : Duration) : Option Duration :=
  match shared.holder with
  | .merging _ _ validator _ =>
      match shared.session.options.wait validator.delay with
      | .answered after => some ⟨now.nanoseconds + after.nanoseconds⟩
      | .expired limit => some ⟨now.nanoseconds + limit.nanoseconds⟩
      | .endless => none
  | _ => none

/-- Ends the merge if it is due by the given time. -/
def settle (shared : Shared ρ) (due : Option Duration) (now : Duration) :
    Shared ρ × Option Duration :=
  match due with
  | none => (shared, none)
  | some time =>
      if time ≤ now then ((shared.step .conclude).drain, none)
      else (shared, due)

/-- Runs tasks in the order of their starting times and then waits for the last
merge to end. -/
def run (shared : Shared ρ) (due : Option Duration) :
    List (Duration × Nat × Request ρ) → Shared ρ
  | [] =>
      match due with
      | none => shared
      | some _ => (shared.step .conclude).drain
  | (start, task, request) :: rest =>
      let (settled, pending) := shared.settle due start
      let requested := (settled.step (.request task request)).drain
      match pending with
      | some _ => requested.run pending rest
      | none =>
          -- A merge that begins here may be over at once.
          let (settled, pending) :=
            requested.settle (requested.due? start) start
          settled.run pending rest

/-- The replies and the session after a schedule of requests, each with its
starting time. Tasks are numbered by their places in the list, and of those that
start together the earlier one comes first. -/
def schedule (session : Session) (requests : List (Duration × Request ρ)) :
    Shared ρ :=
  let tasks :=
    requests.zipIdx.map fun ((start, request), task) => (start, task, request)
  run { session } none (tasks.mergeSort fun a b => decide (a.1 ≤ b.1))

end Shared

end Workbench
