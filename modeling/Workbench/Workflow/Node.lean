import Workbench.Workflow.Step

/-!
# Nodes

A node is a step with a name, an identifier and the settings for running it.
-/

namespace Workbench

/-- How much of a step's run is recorded. -/
inductive TraceLevel
  | off
  | minimal
  | full
deriving DecidableEq, Repr

inductive CheckKind
  | textPresent
  | textAbsent
  | templateFound
  | windowTitleMatches
deriving DecidableEq, Repr

/-- What becomes of a node whose check fails. -/
inductive OnFailure
  | failNode
  | warnOnly
deriving DecidableEq, Repr

/-- A condition looked at after a step has run. -/
structure Check where
  name : String
  kind : CheckKind
  params : FreeForm := .null
  onFailure : OnFailure := .failNode
deriving DecidableEq

/-- A node of a workflow. Times are in milliseconds; the settling time passes
after the step. -/
structure Node where
  id : Uuid
  name : String
  step : Step
  enabled : Bool := true
  timeout : Option UInt64 := none
  settle : Option UInt64 := none
  retries : UInt32 := 0
  trace : TraceLevel := .minimal
  expectedOutcome : Option String := none
  checks : List Check := []
deriving DecidableEq

namespace Node

def disable (node : Node) : Node := { node with enabled := false }

def addCheck (node : Node) (check : Check) : Node :=
  { node with checks := node.checks ++ [check] }

def isLoop (node : Node) : Bool := node.step.isLoop

/-- The head of the loop that the node ends, if it ends one. -/
def closes? (node : Node) : Option Uuid := node.step.closes?

end Node

end Workbench
