import Workbench.Uuid
import Workbench.Workflow.Condition
import Workbench.Workflow.Port

/-!
# Steps

What a node of a workflow does: act on the desktop, ask a tool or an assistant,
or direct the flow. Each kind of step has a record of its own parameters. The
kind decides the ports that edges may leave from.
-/

namespace Workbench

inductive MouseButton
  | left
  | right
  | middle
deriving DecidableEq, Repr

/-- How the window to be focused is named. -/
inductive FocusMethod
  | appName
  | windowId
  | pid
deriving DecidableEq, Repr

/-- A click on a target found by name or at a point of the screen. -/
structure Click where
  target : Option String := none
  x : Option Binary64 := none
  y : Option Binary64 := none
  button : MouseButton := .left
  count : UInt32 := 1
deriving DecidableEq

structure TypeText where
  text : String := ""
deriving DecidableEq

structure PressKey where
  key : String := ""
  modifiers : List String := []
deriving DecidableEq

structure Scroll where
  deltaY : Int32 := 0
  x : Option Binary64 := none
  y : Option Binary64 := none
deriving DecidableEq

structure Screenshot where
  target : Option String := none
  includeOcr : Bool := false
deriving DecidableEq

structure FindText where
  searchText : String := ""
deriving DecidableEq

/-- The least likeness that counts as a match unless a step asks for another:
0.88. -/
def usualThreshold : Binary64 := ⟨false, 7926335344172073, -53, by decide⟩

structure FindImage where
  template : Option String := none
  threshold : Binary64 := usualThreshold
  maxResults : UInt32 := 3
deriving DecidableEq

structure ListWindows where
  appName : Option String := none
deriving DecidableEq

structure FocusWindow where
  method : FocusMethod := .appName
  value : Option String := none
deriving DecidableEq

structure ToolCall where
  tool : String := ""
  arguments : FreeForm := .null
deriving DecidableEq

/-- A goal in natural language, left to an assistant with some tools. -/
structure AiStep where
  prompt : String := ""
  allowedTools : Option (List String) := none
  maxToolCalls : Option UInt32 := none
deriving DecidableEq

structure If where
  condition : Condition
deriving DecidableEq

/-- The cases are tried in order; the default needs no mention. -/
structure Switch where
  cases : List SwitchCase := []
deriving DecidableEq

/-- The head of a loop; the condition is looked at after each pass. -/
structure Loop where
  exitCondition : Condition
  maxIterations : UInt32 := 100
deriving DecidableEq

/-- The end of the body of the loop with the given head. -/
structure EndLoop where
  loopId : Uuid
deriving DecidableEq

/-- A step of a workflow. -/
inductive Step
  | click (params : Click)
  | typeText (params : TypeText)
  | pressKey (params : PressKey)
  | scroll (params : Scroll)
  | takeScreenshot (params : Screenshot)
  | findText (params : FindText)
  | findImage (params : FindImage)
  | listWindows (params : ListWindows)
  | focusWindow (params : FocusWindow)
  | toolCall (params : ToolCall)
  | aiStep (params : AiStep)
  | ifThen (params : If)
  | switch (params : Switch)
  | loop (params : Loop)
  | endLoop (params : EndLoop)
deriving DecidableEq

instance : Inhabited Step := ⟨.typeText {}⟩

/-- The broad kinds of steps. -/
inductive StepCategory
  | action
  | controlFlow
  | assistant
deriving DecidableEq, Repr

namespace Step

def category : Step → StepCategory
  | ifThen _ | switch _ | loop _ | endLoop _ => .controlFlow
  | aiStep _ => .assistant
  | _ => .action

/-- The name of the kind, as shown to people. -/
def displayName : Step → String
  | click _ => "Click"
  | typeText _ => "Type Text"
  | pressKey _ => "Press Key"
  | scroll _ => "Scroll"
  | takeScreenshot _ => "Take Screenshot"
  | findText _ => "Find Text"
  | findImage _ => "Find Image"
  | listWindows _ => "List Windows"
  | focusWindow _ => "Focus Window"
  | toolCall _ => "Tool Call"
  | aiStep _ => "AI Step"
  | ifThen _ => "If"
  | switch _ => "Switch"
  | loop _ => "Loop"
  | endLoop _ => "End Loop"

/-- The ports that edges may leave from; `none` is the port without a name. -/
def ports : Step → List (Option Port)
  | ifThen _ => [some .ifTrue, some .ifFalse]
  | switch params =>
      params.cases.map (fun c => some (.switchCase c.name)) ++
        [some .switchDefault]
  | loop _ => [some .loopBody, some .loopDone]
  | _ => [none]

def isLoop : Step → Bool
  | loop _ => true
  | _ => false

/-- The head of the loop that the step ends, if it ends one. -/
def closes? : Step → Option Uuid
  | endLoop params => some params.loopId
  | _ => none

end Step

end Workbench
