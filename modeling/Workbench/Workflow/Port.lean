/-!
# Ports

A step leaves through one of its ports. An ordinary step has a single port
without a name; the steps that direct the flow have named ones.
-/

namespace Workbench

/-- A named port of a step. -/
inductive Port
  | ifTrue
  | ifFalse
  | switchCase (name : String)
  | switchDefault
  | loopBody
  | loopDone
deriving DecidableEq, Repr

namespace Port

/-- The short name shown to people. -/
def label : Port → String
  | ifTrue => "true"
  | ifFalse => "false"
  | switchCase name => "case:" ++ name
  | switchDefault => "default"
  | loopBody => "body"
  | loopDone => "done"

end Port

end Workbench
