import Workbench.Graph.Connectivity
import Workbench.Patch.Merge
import Workbench.Session.History

/-!
# Editing sessions

A session is a live workflow with its history and with a node that may be
selected. A change records the workflow as it was and then replaces it;
afterwards the selection is dropped if its node is gone. A merge is a change
like any other if the validator accepts it, and nothing at all if not.
-/

namespace Workbench

structure Session where
  workflow : Workflow
  history : History
  selected : Option Uuid := none
  options : MergeOptions := {}
deriving DecidableEq

namespace Session

/-- A new session with a workflow. -/
def start (workflow : Workflow) (capacity : Nat := History.usualCapacity)
    (options : MergeOptions := {}) : Session :=
  { workflow, history := { capacity }, options }

/-- Selects a node of the live workflow; says whether it exists. -/
def select (session : Session) (id : Uuid) : Bool × Session :=
  if session.workflow.contains id then
    (true, { session with selected := some id })
  else (false, session)

def clearSelection (session : Session) : Session :=
  { session with selected := none }

/-- Drops a selection that names no node of the live workflow. -/
def reconcile (session : Session) : Session :=
  { session with selected := session.selected.filter session.workflow.contains }

/-- Records the live workflow to come back to. -/
def record (session : Session) (label : String) : Session :=
  { session with history := session.history.push label session.workflow }

/-- Puts another workflow in the place of the live one. -/
def replace (session : Session) (workflow : Workflow) : Session :=
  { session with workflow }.reconcile

/-- Records the live workflow and changes it. The change may have a result. -/
def edit {α : Type} (session : Session) (label : String)
    (change : Workflow → α × Workflow) : α × Session :=
  let (result, workflow) := change session.workflow
  (result, (session.record label).replace workflow)

/-- Goes back to the workflow before the last change; says whether there is
one. -/
def undo (session : Session) : Bool × Session :=
  match session.history.undo? session.workflow with
  | none => (false, session)
  | some (workflow, history) =>
      (true, { session with history }.replace workflow)

/-- Returns to the workflow after the change that was undone last; says whether
there is one. -/
def redo (session : Session) : Bool × Session :=
  match session.history.redo? session.workflow with
  | none => (false, session)
  | some (workflow, history) =>
      (true, { session with history }.replace workflow)

/-- The label under which a merge is recorded. -/
def mergeLabel : String := "Apply patch"

/-- Makes the outcome of a merge live, or leaves the session as it is. -/
def commit (session : Session) (patch : Patch)
    (merged : Except MergeError Workflow) :
    Except MergeError MergeOutcome × Session :=
  match merged with
  | .error error => (.error error, session)
  | .ok workflow =>
      (.ok patch.outcome, (session.record mergeLabel).replace workflow)

/-- Merges a patch into the live workflow; `none` if the waiting never ends. -/
def merge? (session : Session) (patch : Patch) (validator : Validator) :
    Option (Except MergeError MergeOutcome × Session) :=
  (session.workflow.merge? patch validator session.options).map
    (session.commit patch)

def runGate (session : Session) : Except RunRefused Unit :=
  session.workflow.runGate

end Session

end Workbench
