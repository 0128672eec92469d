import Workbench.Json.Document

/-!
# Conditions

A condition compares a value that is known when a workflow runs with a fixed
one. Here conditions are only kept and passed on; whether one holds is for the
engine that runs the workflow.
-/

namespace Workbench

/-- How the two sides of a condition are compared. -/
inductive Operator
  | equals
  | notEquals
  | greaterThan
  | greaterThanOrEqual
  | lessThan
  | lessThanOrEqual
  | contains
  | notContains
  | isEmpty
  | isNotEmpty
deriving DecidableEq, Repr

/-- A comparison of the value named on the left with the document on the
right. -/
structure Condition where
  left : String
  operator : Operator
  right : FreeForm
deriving DecidableEq

/-- A named branch of a switch and the condition for taking it. -/
structure SwitchCase where
  name : String
  condition : Condition
deriving DecidableEq

end Workbench
