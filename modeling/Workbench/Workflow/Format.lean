import Workbench.Json.Variant
import Workbench.Workflow.Basic

/-!
# The file format of workflows

How workflows and all that they consist of are written as documents: the names
of the fields, their order, and which of them may be left out. Everything that
is read or written goes by these descriptions.
-/

namespace Workbench

/-- Identifiers stand in documents as texts. -/
def Uuid.codec : Codec Uuid :=
  .parsed "a formatted UUID string" .badIdentifier Uuid.text Uuid.ofText?

namespace Port

/-- The record of a switch case's port. -/
def caseRecord : Record String where
  title := "struct variant EdgeOutput::SwitchCase"
  types := [String]
  fields := .cons (.required "name" .string) .nil
  ofRow := fun (name, ()) => name
  toRow name := (name, ())

def write : Port → Json
  | ifTrue => .string "IfTrue"
  | ifFalse => .string "IfFalse"
  | switchCase name => .object [("SwitchCase", caseRecord.write name)]
  | switchDefault => .string "SwitchDefault"
  | loopBody => .string "LoopBody"
  | loopDone => .string "LoopDone"

def cases : EnumCases Port :=
  [("IfTrue", .plain ifTrue), ("IfFalse", .plain ifFalse),
    ("SwitchCase", .fields (caseRecord.reader.map switchCase)),
    ("SwitchDefault", .plain switchDefault), ("LoopBody", .plain loopBody),
    ("LoopDone", .plain loopDone)]

def codec : Codec Port := ⟨write, cases.read⟩

end Port

def Edge.record : Record Edge where
  title := "struct Edge"
  types := [Uuid, Uuid, Option Port]
  fields :=
    .cons (.required "from" Uuid.codec) <|
    .cons (.required "to" Uuid.codec) <|
    .cons (.default "output" Port.codec.option none) .nil
  ofRow := fun (source, target, port, ()) => { source, target, port }
  toRow e := (e.source, e.target, e.port, ())

/-! ## Conditions -/

namespace Operator

def name : Operator → String
  | equals => "Equals"
  | notEquals => "NotEquals"
  | greaterThan => "GreaterThan"
  | greaterThanOrEqual => "GreaterThanOrEqual"
  | lessThan => "LessThan"
  | lessThanOrEqual => "LessThanOrEqual"
  | contains => "Contains"
  | notContains => "NotContains"
  | isEmpty => "IsEmpty"
  | isNotEmpty => "IsNotEmpty"

def codec : Codec Operator :=
  .enumeration name
    [equals, notEquals, greaterThan, greaterThanOrEqual, lessThan,
      lessThanOrEqual, contains, notContains, isEmpty, isNotEmpty]

end Operator

def Condition.record : Record Condition where
  title := "struct Condition"
  types := [String, Operator, FreeForm]
  fields :=
    .cons (.required "left" .string) <|
    .cons (.required "operator" Operator.codec) <|
    .cons (.default "right" .freeForm .null) .nil
  ofRow := fun (left, operator, right, ()) => { left, operator, right }
  toRow c := (c.left, c.operator, c.right, ())

def SwitchCase.record : Record SwitchCase where
  title := "struct SwitchCase"
  types := [String, Condition]
  fields :=
    .cons (.required "name" .string) <|
    .cons (.required "condition" Condition.record.codec) .nil
  ofRow := fun (name, condition, ()) => { name, condition }
  toRow c := (c.name, c.condition, ())

/-! ## Steps -/

def MouseButton.codec : Codec MouseButton :=
  .enumeration
    (fun | .left => "Left" | .right => "Right" | .middle => "Middle")
    [.left, .right, .middle]

def FocusMethod.codec : Codec FocusMethod :=
  .enumeration
    (fun | .appName => "AppName" | .windowId => "WindowId" | .pid => "Pid")
    [.appName, .windowId, .pid]

def Click.record : Record Click where
  title := "struct ClickParams"
  types :=
    [Option String, Option Binary64, Option Binary64, MouseButton, UInt32]
  fields :=
    .cons (.default "target" Codec.string.option none) <|
    .cons (.default "x" Codec.float.option none) <|
    .cons (.default "y" Codec.float.option none) <|
    .cons (.default "button" MouseButton.codec .left) <|
    .cons (.default "click_count" .word32 1) .nil
  ofRow :=
    fun (target, x, y, button, count, ()) => { target, x, y, button, count }
  toRow p := (p.target, p.x, p.y, p.button, p.count, ())

def TypeText.record : Record TypeText where
  title := "struct TypeTextParams"
  types := [String]
  fields := .cons (.required "text" .string) .nil
  ofRow := fun (text, ()) => { text }
  toRow p := (p.text, ())

def PressKey.record : Record PressKey where
  title := "struct PressKeyParams"
  types := [String, List String]
  fields :=
    .cons (.required "key" .string) <|
    .cons (.default "modifiers" Codec.string.list []) .nil
  ofRow := fun (key, modifiers, ()) => { key, modifiers }
  toRow p := (p.key, p.modifiers, ())

def Scroll.record : Record Scroll where
  title := "struct ScrollParams"
  types := [Int32, Option Binary64, Option Binary64]
  fields :=
    .cons (.required "delta_y" .signed32) <|
    .cons (.default "x" Codec.float.option none) <|
    .cons (.default "y" Codec.float.option none) .nil
  ofRow := fun (deltaY, x, y, ()) => { deltaY, x, y }
  toRow p := (p.deltaY, p.x, p.y, ())

def Screenshot.record : Record Screenshot where
  title := "struct ScreenshotParams"
  types := [Option String, Bool]
  fields :=
    .cons (.default "target" Codec.string.option none) <|
    .cons (.default "include_ocr" .bool false) .nil
  ofRow := fun (target, includeOcr, ()) => { target, includeOcr }
  toRow p := (p.target, p.includeOcr, ())

def FindText.record : Record FindText where
  title := "struct FindTextParams"
  types := [String]
  fields := .cons (.required "search_text" .string) .nil
  ofRow := fun (searchText, ()) => { searchText }
  toRow p := (p.searchText, ())

/-- The template may be missing from an object but not from an array. -/
def FindImage.record : Record FindImage where
  title := "struct FindImageParams"
  types := [Option String, Binary64, UInt32]
  fields :=
    .cons ⟨"template_image", Codec.string.option, some none, none⟩ <|
    .cons (.default "threshold" .float usualThreshold) <|
    .cons (.default "max_results" .word32 3) .nil
  ofRow := fun (template, threshold, maxResults, ()) =>
    { template, threshold, maxResults }
  toRow p := (p.template, p.threshold, p.maxResults, ())

def ListWindows.record : Record ListWindows where
  title := "struct ListWindowsParams"
  types := [Option String]
  fields := .cons (.default "app_name" Codec.string.option none) .nil
  ofRow := fun (appName, ()) => { appName }
  toRow p := (p.appName, ())

def FocusWindow.record : Record FocusWindow where
  title := "struct FocusWindowParams"
  types := [FocusMethod, Option String]
  fields :=
    .cons (.required "method" FocusMethod.codec) <|
    .cons (.default "value" Codec.string.option none) .nil
  ofRow := fun (method, value, ()) => { method, value }
  toRow p := (p.method, p.value, ())

def ToolCall.record : Record ToolCall where
  title := "struct ToolCallParams"
  types := [String, FreeForm]
  fields :=
    .cons (.required "tool_name" .string) <|
    .cons (.default "arguments" .freeForm .null) .nil
  ofRow := fun (tool, arguments, ()) => { tool, arguments }
  toRow p := (p.tool, p.arguments, ())

def AiStep.record : Record AiStep where
  title := "struct AiStepParams"
  types := [String, Option (List String), Option UInt32]
  fields :=
    .cons (.required "prompt" .string) <|
    .cons (.default "allowed_tools" Codec.string.list.option none) <|
    .cons (.default "max_tool_calls" Codec.word32.option none) .nil
  ofRow := fun (prompt, allowedTools, maxToolCalls, ()) =>
    { prompt, allowedTools, maxToolCalls }
  toRow p := (p.prompt, p.allowedTools, p.maxToolCalls, ())

def If.record : Record If where
  title := "struct IfParams"
  types := [Condition]
  fields := .cons (.required "condition" Condition.record.codec) .nil
  ofRow := fun (condition, ()) => { condition }
  toRow p := (p.condition, ())

def Switch.record : Record Switch where
  title := "struct SwitchParams"
  types := [List SwitchCase]
  fields := .cons (.required "cases" SwitchCase.record.codec.list) .nil
  ofRow := fun (cases, ()) => { cases }
  toRow p := (p.cases, ())

def Loop.record : Record Loop where
  title := "struct LoopParams"
  types := [Condition, UInt32]
  fields :=
    .cons (.required "exit_condition" Condition.record.codec) <|
    .cons (.default "max_iterations" .word32 100) .nil
  ofRow :=
    fun (exitCondition, maxIterations, ()) => { exitCondition, maxIterations }
  toRow p := (p.exitCondition, p.maxIterations, ())

def EndLoop.record : Record EndLoop where
  title := "struct EndLoopParams"
  types := [Uuid]
  fields := .cons (.required "loop_id" Uuid.codec) .nil
  ofRow := fun (loopId, ()) => { loopId }
  toRow p := (p.loopId, ())

namespace Step

/-- The tag of a step and the entries for its parameters. -/
def entries : Step → String × List (String × Json)
  | click p => ("Click", Click.record.entries p)
  | typeText p => ("TypeText", TypeText.record.entries p)
  | pressKey p => ("PressKey", PressKey.record.entries p)
  | scroll p => ("Scroll", Scroll.record.entries p)
  | takeScreenshot p => ("TakeScreenshot", Screenshot.record.entries p)
  | findText p => ("FindText", FindText.record.entries p)
  | findImage p => ("FindImage", FindImage.record.entries p)
  | listWindows p => ("ListWindows", ListWindows.record.entries p)
  | focusWindow p => ("FocusWindow", FocusWindow.record.entries p)
  | toolCall p => ("McpToolCall", ToolCall.record.entries p)
  | aiStep p => ("AiStep", AiStep.record.entries p)
  | ifThen p => ("If", If.record.entries p)
  | switch p => ("Switch", Switch.record.entries p)
  | loop p => ("Loop", Loop.record.entries p)
  | endLoop p => ("EndLoop", EndLoop.record.entries p)

def choice : Choice Step where
  title := "internally tagged enum NodeType"
  tagName := "type"
  cases :=
    [("Click", Click.record.reader.map click),
      ("TypeText", TypeText.record.reader.map typeText),
      ("PressKey", PressKey.record.reader.map pressKey),
      ("Scroll", Scroll.record.reader.map scroll),
      ("TakeScreenshot", Screenshot.record.reader.map takeScreenshot),
      ("FindText", FindText.record.reader.map findText),
      ("FindImage", FindImage.record.reader.map findImage),
      ("ListWindows", ListWindows.record.reader.map listWindows),
      ("FocusWindow", FocusWindow.record.reader.map focusWindow),
      ("McpToolCall", ToolCall.record.reader.map toolCall),
      ("AiStep", AiStep.record.reader.map aiStep),
      ("If", If.record.reader.map ifThen),
      ("Switch", Switch.record.reader.map switch),
      ("Loop", Loop.record.reader.map loop),
      ("EndLoop", EndLoop.record.reader.map endLoop)]
  entries := entries

end Step

/-! ## Nodes and workflows -/

def TraceLevel.codec : Codec TraceLevel :=
  .enumeration
    (fun | .off => "Off" | .minimal => "Minimal" | .full => "Full")
    [.off, .minimal, .full]

def CheckKind.codec : Codec CheckKind :=
  .enumeration
    (fun
      | .textPresent => "TextPresent"
      | .textAbsent => "TextAbsent"
      | .templateFound => "TemplateFound"
      | .windowTitleMatches => "WindowTitleMatches")
    [.textPresent, .textAbsent, .templateFound, .windowTitleMatches]

def OnFailure.codec : Codec OnFailure :=
  .enumeration (fun | .failNode => "FailNode" | .warnOnly => "WarnOnly")
    [.failNode, .warnOnly]

def Check.record : Record Check where
  title := "struct Check"
  types := [String, CheckKind, FreeForm, OnFailure]
  fields :=
    .cons (.required "name" .string) <|
    .cons (.required "check_type" CheckKind.codec) <|
    .cons (.default "params" .freeForm .null) <|
    .cons (.default "on_fail" OnFailure.codec .failNode) .nil
  ofRow :=
    fun (name, kind, params, onFailure, ()) => { name, kind, params, onFailure }
  toRow c := (c.name, c.kind, c.params, c.onFailure, ())

def Node.record : Record Node where
  title := "struct Node"
  types :=
    [Uuid, String, Step, Bool, Option UInt64, Option UInt64, UInt32, TraceLevel,
      Option String, List Check]
  fields :=
    .cons (.required "id" Uuid.codec) <|
    .cons (.required "name" .string) <|
    .cons (.required "node_type" Step.choice.codec) <|
    .cons (.default "enabled" .bool true) <|
    .cons (.default "timeout_ms" Codec.word64.option none) <|
    .cons (.default "settle_ms" Codec.word64.option none) <|
    .cons (.default "retries" .word32 0) <|
    .cons (.default "trace_level" TraceLevel.codec .minimal) <|
    .cons (.default "expected_outcome" Codec.string.option none) <|
    .cons (.default "checks" Check.record.codec.list []) .nil
  ofRow := fun (id, name, step, enabled, timeout, settle, retries, trace,
      expectedOutcome, checks, ()) =>
    { id, name, step, enabled, timeout, settle, retries, trace
      expectedOutcome, checks }
  toRow n :=
    (n.id, n.name, n.step, n.enabled, n.timeout, n.settle, n.retries, n.trace,
      n.expectedOutcome, n.checks, ())

def Workflow.record : Record Workflow where
  title := "struct Workflow"
  types := [Uuid, String, List Node, List Edge]
  fields :=
    .cons (.required "id" Uuid.codec) <|
    .cons (.required "name" .string) <|
    .cons (.default "nodes" Node.record.codec.list []) <|
    .cons (.default "edges" Edge.record.codec.list []) .nil
  ofRow := fun (id, name, nodes, edges, ()) => { id, name, nodes, edges }
  toRow w := (w.id, w.name, w.nodes, w.edges, ())

namespace Node

def codec : Codec Node := record.codec

end Node

namespace Edge

def codec : Codec Edge := record.codec

end Edge

namespace Workflow

def codec : Codec Workflow := record.codec

/-- The workflow that a text stands for. -/
def ofText (text : String) : Except Fault Workflow := codec.ofText text

/-- The text of the workflow, as it is kept in files. -/
def toText (workflow : Workflow) : String := codec.toText .pretty workflow

/-- Equality with numbers compared by value. -/
def sameValue (a b : Workflow) : Bool :=
  (codec.write a).sameValue (codec.write b)

end Workflow

end Workbench
