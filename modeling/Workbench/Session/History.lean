import Workbench.Workflow.Basic

/-!
# Undo history

A history remembers earlier workflows to go back to and, after going back, the
later ones to return to. Both are stacks with the nearest workflow on top. Each
workflow carries the label of the change that leads away from it, or, on the way
forward, to it; so a step back and forth keeps the labels where they belong.

The past holds as many workflows as the capacity says; beyond that the oldest
are dropped. Recording a new change forgets the future.
-/

namespace Workbench

/-- A workflow and the label of a change. -/
structure Snapshot where
  label : String
  workflow : Workflow
deriving DecidableEq

structure History where
  capacity : Nat
  past : List Snapshot := []
  future : List Snapshot := []
deriving DecidableEq

namespace History

/-- The capacity of a history that nobody chose one for. -/
def usualCapacity : Nat := 50

/-- The past with a snapshot on top, cut to the capacity. -/
def remember (history : History) (snapshot : Snapshot) : List Snapshot :=
  (snapshot :: history.past).take history.capacity

/-- Records the workflow as it is before a change with the given label. -/
def push (history : History) (label : String) (current : Workflow) : History :=
  { history with past := history.remember ⟨label, current⟩, future := [] }

/-- The workflow before the last change, and the history seen from there. -/
def undo? (history : History) (current : Workflow) :
    Option (Workflow × History) :=
  match history.past with
  | [] => none
  | last :: past =>
      some (last.workflow,
        { history with
          past
          future := ⟨last.label, current⟩ :: history.future })

/-- The workflow after the change that was undone last, and the history seen
from there. -/
def redo? (history : History) (current : Workflow) :
    Option (Workflow × History) :=
  match history.future with
  | [] => none
  | next :: future =>
      some (next.workflow,
        { history with
          past := history.remember ⟨next.label, current⟩
          future })

/-- Forgets past and future. -/
def clear (history : History) : History :=
  { history with past := [], future := [] }

/-- The label of the change that would be undone. -/
def undoLabel? (history : History) : Option String :=
  history.past.head?.map (·.label)

/-- The label of the change that would be redone. -/
def redoLabel? (history : History) : Option String :=
  history.future.head?.map (·.label)

end History

end Workbench
