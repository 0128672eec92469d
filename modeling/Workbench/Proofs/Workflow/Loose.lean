import Workbench.Proofs.Json.Loose
import Workbench.Proofs.Workflow.Format

/-!
# Workflows and patches from documents written by hand

What has to stand in the document of a workflow and what need not, field by
field: these tables are what a person or another program may go by. A document
within them is read as the same value as the one that is written for it, from
memory and from any text that stands for it. All there is to prove is that the
descriptions by which records are read agree with the tables, once for each
record.
-/

namespace Workbench

/-! ## What may differ -/

def Edge.leeways : List Leeway :=
  [{ name := "from" }, { name := "to" },
    { name := "output", spare := some .null }]

def Condition.leeways : List Leeway :=
  [{ name := "left" }, { name := "operator" },
    { name := "right", spare := some .null }]

def SwitchCase.leeways : List Leeway :=
  [{ name := "name" },
    { name := "condition", alike := Json.LooseRecord Condition.leeways }]

def Click.leeways : List Leeway :=
  [{ name := "target", spare := some .null },
    { name := "x", spare := some .null },
    { name := "y", spare := some .null },
    { name := "button", spare := some (.string "Left") },
    { name := "click_count", spare := some (Codec.word32.write 1) }]

def TypeText.leeways : List Leeway := [{ name := "text" }]

def PressKey.leeways : List Leeway :=
  [{ name := "key" }, { name := "modifiers", spare := some (.array []) }]

def Scroll.leeways : List Leeway :=
  [{ name := "delta_y" }, { name := "x", spare := some .null },
    { name := "y", spare := some .null }]

def Screenshot.leeways : List Leeway :=
  [{ name := "target", spare := some .null },
    { name := "include_ocr", spare := some (.bool false) }]

def FindText.leeways : List Leeway := [{ name := "search_text" }]

def FindImage.leeways : List Leeway :=
  [{ name := "template_image", spare := some .null },
    { name := "threshold", spare := some (Codec.float.write usualThreshold) },
    { name := "max_results", spare := some (Codec.word32.write 3) }]

def ListWindows.leeways : List Leeway :=
  [{ name := "app_name", spare := some .null }]

def FocusWindow.leeways : List Leeway :=
  [{ name := "method" }, { name := "value", spare := some .null }]

def ToolCall.leeways : List Leeway :=
  [{ name := "tool_name" }, { name := "arguments", spare := some .null }]

def AiStep.leeways : List Leeway :=
  [{ name := "prompt" }, { name := "allowed_tools", spare := some .null },
    { name := "max_tool_calls", spare := some .null }]

def If.leeways : List Leeway :=
  [{ name := "condition", alike := Json.LooseRecord Condition.leeways }]

def Switch.leeways : List Leeway :=
  [{ name := "cases"
     alike := Json.LooseItems (Json.LooseRecord SwitchCase.leeways) }]

def Loop.leeways : List Leeway :=
  [{ name := "exit_condition", alike := Json.LooseRecord Condition.leeways },
    { name := "max_iterations", spare := some (Codec.word32.write 100) }]

def EndLoop.leeways : List Leeway := [{ name := "loop_id" }]

/-- The tables of the parameters by the tag of the step. -/
def Step.leeways : List (String × List Leeway) :=
  [("Click", Click.leeways), ("TypeText", TypeText.leeways),
    ("PressKey", PressKey.leeways),
    ("Scroll", Scroll.leeways), ("TakeScreenshot", Screenshot.leeways),
    ("FindText", FindText.leeways), ("FindImage", FindImage.leeways),
    ("ListWindows", ListWindows.leeways), ("FocusWindow", FocusWindow.leeways),
    ("McpToolCall", ToolCall.leeways), ("AiStep", AiStep.leeways),
    ("If", If.leeways),
    ("Switch", Switch.leeways), ("Loop", Loop.leeways),
    ("EndLoop", EndLoop.leeways)]

def Check.leeways : List Leeway :=
  [{ name := "name" }, { name := "check_type" },
    { name := "params", spare := some .null },
    { name := "on_fail", spare := some (.string "FailNode") }]

def Node.leeways : List Leeway :=
  [{ name := "id" }, { name := "name" },
    { name := "node_type", alike := Json.LooseTagged "type" Step.leeways },
    { name := "enabled", spare := some (.bool true) },
    { name := "timeout_ms", spare := some .null },
    { name := "settle_ms", spare := some .null },
    { name := "retries", spare := some (Codec.word32.write 0) },
    { name := "trace_level", spare := some (.string "Minimal") },
    { name := "expected_outcome", spare := some .null },
    { name := "checks"
      alike := Json.LooseItems (Json.LooseRecord Check.leeways)
      spare := some (.array []) }]

def Workflow.leeways : List Leeway :=
  [{ name := "id" }, { name := "name" },
    { name := "nodes"
      alike := Json.LooseItems (Json.LooseRecord Node.leeways)
      spare := some (.array []) },
    { name := "edges"
      alike := Json.LooseItems (Json.LooseRecord Edge.leeways)
      spare := some (.array []) }]

def Patch.leeways : List Leeway :=
  [{ name := "added_nodes"
     alike := Json.LooseItems (Json.LooseRecord Node.leeways)
     spare := some (.array []) },
    { name := "removed_node_ids", spare := some (.array []) },
    { name := "updated_nodes"
      alike := Json.LooseItems (Json.LooseRecord Node.leeways)
      spare := some (.array []) },
    { name := "added_edges"
      alike := Json.LooseItems (Json.LooseRecord Edge.leeways)
      spare := some (.array []) },
    { name := "removed_edges"
      alike := Json.LooseItems (Json.LooseRecord Edge.leeways)
      spare := some (.array []) },
    { name := "warnings", spare := some (.array []) }]

/-! ## The descriptions agree with the tables -/

section

open Codec

variable {name : String} {types : List Type} {fields : Fields types}
  {leeways : List Leeway}

/-- A text that may be missing. -/
theorem optionalString_lenient (h : fields.Lenient leeways) :
    (Fields.cons (.default name Codec.string.option none) fields).Lenient
      ({ name, spare := some .null } :: leeways) :=
  .spared rfl (option_faithful string_faithful nofun) h

/-- A number that may be missing. -/
theorem optionalFloat_lenient (h : fields.Lenient leeways) :
    (Fields.cons (.default name Codec.float.option none) fields).Lenient
      ({ name, spare := some .null } :: leeways) :=
  .spared rfl (option_faithful float_faithful fun _ h => by cases h) h

theorem Uuid.codec_faithful : Uuid.codec.Faithful :=
  parsed_faithful ofText?_text

theorem Edge.record_lenient : Edge.record.Lenient Edge.leeways :=
  ⟨by decide, fun _ => rfl,
    .exact Uuid.codec_faithful <| .exact Uuid.codec_faithful <|
    .spared rfl
      (option_faithful Port.codec_faithful (by rintro (_ | _) <;> nofun)) .nil⟩

theorem Condition.record_lenient : Condition.record.Lenient Condition.leeways :=
  ⟨by decide, fun _ => rfl,
    .exact string_faithful <|
      .exact (enumeration_faithful fun a => by cases a <;> rfl) <|
    .spared rfl freeForm_faithful .nil⟩

theorem SwitchCase.record_lenient :
    SwitchCase.record.Lenient SwitchCase.leeways :=
  ⟨by decide, fun _ => rfl,
    .exact string_faithful <| .required Condition.record_lenient.codec .nil⟩

theorem Click.record_lenient : Click.record.Lenient Click.leeways :=
  ⟨by decide, fun _ => rfl,
    optionalString_lenient <| optionalFloat_lenient <| optionalFloat_lenient <|
    .spared rfl (enumeration_faithful fun a => by cases a <;> rfl) <|
    .spared rfl word32_faithful .nil⟩

theorem TypeText.record_lenient : TypeText.record.Lenient TypeText.leeways :=
  ⟨by decide, fun _ => rfl, .exact string_faithful .nil⟩

theorem PressKey.record_lenient : PressKey.record.Lenient PressKey.leeways :=
  ⟨by decide, fun _ => rfl,
    .exact string_faithful <| .spared rfl (list_faithful string_faithful) .nil⟩

theorem Scroll.record_lenient : Scroll.record.Lenient Scroll.leeways :=
  ⟨by decide, fun _ => rfl,
    .exact signed32_faithful <| optionalFloat_lenient <|
      optionalFloat_lenient .nil⟩

theorem Screenshot.record_lenient :
    Screenshot.record.Lenient Screenshot.leeways :=
  ⟨by decide, fun _ => rfl,
    optionalString_lenient <| .spared rfl bool_faithful .nil⟩

theorem FindText.record_lenient : FindText.record.Lenient FindText.leeways :=
  ⟨by decide, fun _ => rfl, .exact string_faithful .nil⟩

theorem FindImage.record_lenient :
    FindImage.record.Lenient FindImage.leeways := by
  have htemplate : Codec.string.option.Faithful :=
    option_faithful string_faithful nofun
  refine ⟨by decide, fun _ => rfl,
    .cons rfl htemplate.lenient (fun a ha => ?_) ?_⟩
  · exact congrArg some (htemplate.injective (Option.some.inj ha))
  · exact .spared rfl float_faithful <| .spared rfl word32_faithful .nil

theorem ListWindows.record_lenient :
    ListWindows.record.Lenient ListWindows.leeways :=
  ⟨by decide, fun _ => rfl, optionalString_lenient .nil⟩

theorem FocusWindow.record_lenient :
    FocusWindow.record.Lenient FocusWindow.leeways :=
  ⟨by decide, fun _ => rfl,
    .exact (enumeration_faithful fun a => by cases a <;> rfl) <|
      optionalString_lenient .nil⟩

theorem ToolCall.record_lenient : ToolCall.record.Lenient ToolCall.leeways :=
  ⟨by decide, fun _ => rfl,
    .exact string_faithful <| .spared rfl freeForm_faithful .nil⟩

theorem AiStep.record_lenient : AiStep.record.Lenient AiStep.leeways :=
  ⟨by decide, fun _ => rfl,
    .exact string_faithful <|
    .spared rfl (option_faithful (list_faithful string_faithful) nofun) <|
    .spared rfl (option_faithful word32_faithful nofun) .nil⟩

theorem If.record_lenient : If.record.Lenient If.leeways :=
  ⟨by decide, fun _ => rfl, .required Condition.record_lenient.codec .nil⟩

theorem Switch.record_lenient : Switch.record.Lenient Switch.leeways :=
  ⟨by decide, fun _ => rfl, .required SwitchCase.record_lenient.codec.list .nil⟩

theorem Loop.record_lenient : Loop.record.Lenient Loop.leeways :=
  ⟨by decide, fun _ => rfl,
    .required Condition.record_lenient.codec <|
      .spared rfl word32_faithful .nil⟩

theorem EndLoop.record_lenient : EndLoop.record.Lenient EndLoop.leeways :=
  ⟨by decide, fun _ => rfl, .exact Uuid.codec_faithful .nil⟩

theorem Step.choice_lenient :
    Step.choice.codec.Lenient (Json.LooseTagged "type" Step.leeways) := by
  have hknown : ∀ {ρ : Type} {record : Record ρ} {make : ρ → Step}
      {leeways : List Leeway}, record.Lenient leeways →
        choice.Knows record make → ∀ p,
          Step.leeways.lookup (entries (make p)).1 = some leeways →
            choice.codec.LenientAt (Json.LooseTagged "type" Step.leeways)
              (make p) :=
    fun hrecord hknows _ hcase => hknows.lenientAt hrecord hcase
  intro step
  cases step with
  | click p => exact hknown Click.record_lenient {} p rfl
  | typeText p => exact hknown TypeText.record_lenient {} p rfl
  | pressKey p => exact hknown PressKey.record_lenient {} p rfl
  | scroll p => exact hknown Scroll.record_lenient {} p rfl
  | takeScreenshot p => exact hknown Screenshot.record_lenient {} p rfl
  | findText p => exact hknown FindText.record_lenient {} p rfl
  | findImage p => exact hknown FindImage.record_lenient {} p rfl
  | listWindows p => exact hknown ListWindows.record_lenient {} p rfl
  | focusWindow p => exact hknown FocusWindow.record_lenient {} p rfl
  | toolCall p => exact hknown ToolCall.record_lenient {} p rfl
  | aiStep p => exact hknown AiStep.record_lenient {} p rfl
  | ifThen p => exact hknown If.record_lenient {} p rfl
  | switch p => exact hknown Switch.record_lenient {} p rfl
  | loop p => exact hknown Loop.record_lenient {} p rfl
  | endLoop p => exact hknown EndLoop.record_lenient {} p rfl

theorem Check.record_lenient : Check.record.Lenient Check.leeways :=
  ⟨by decide, fun _ => rfl,
    .exact string_faithful <|
      .exact (enumeration_faithful fun a => by cases a <;> rfl) <|
    .spared rfl freeForm_faithful <|
    .spared rfl (enumeration_faithful fun a => by cases a <;> rfl) .nil⟩

theorem Node.record_lenient : Node.record.Lenient Node.leeways := by
  have hchecks : Check.record.codec.list.Faithful :=
    list_faithful (Check.record_regular (n := 0)).faithful.codec
  exact ⟨by decide, fun _ => rfl,
    .exact Uuid.codec_faithful <| .exact string_faithful <|
      .required Step.choice_lenient <|
    .spared rfl bool_faithful <|
      .spared rfl (option_faithful word64_faithful nofun) <|
    .spared rfl (option_faithful word64_faithful nofun) <|
      .spared rfl word32_faithful <|
    .spared rfl (enumeration_faithful fun a => by cases a <;> rfl) <|
      optionalString_lenient <|
    .default rfl hchecks Check.record_lenient.codec.list .nil⟩

theorem nodes_faithful : Node.record.codec.list.Faithful :=
  list_faithful Node.record_regular.faithful.codec

theorem edges_faithful : Edge.record.codec.list.Faithful :=
  list_faithful (Edge.record_regular (n := 0)).faithful.codec

theorem Workflow.record_lenient : Workflow.record.Lenient Workflow.leeways :=
  ⟨by decide, fun _ => rfl,
    .exact Uuid.codec_faithful <| .exact string_faithful <|
    .default rfl nodes_faithful Node.record_lenient.codec.list <|
    .default rfl edges_faithful Edge.record_lenient.codec.list .nil⟩

theorem Patch.record_lenient : Patch.record.Lenient Patch.leeways :=
  ⟨by decide, fun _ => rfl,
    .default rfl nodes_faithful Node.record_lenient.codec.list <|
    .spared rfl (list_faithful Uuid.codec_faithful) <|
    .default rfl nodes_faithful Node.record_lenient.codec.list <|
    .default rfl edges_faithful Edge.record_lenient.codec.list <|
    .default rfl edges_faithful Edge.record_lenient.codec.list <|
    .spared rfl (list_faithful string_faithful) .nil⟩

end

/-- Whoever writes the document of a workflow or of a patch may put the fields
of every record in any order, the tag of a step among them, may add fields that
nobody reads, and may leave out what has its usual value: what is read is the
same. -/
theorem read_loosely :
    (∀ workflow : Workflow,
      Json.LooseRecord Workflow.leeways (Workflow.codec.write workflow)
        (Workflow.codec.write workflow) ∧
      ∀ document, Json.LooseRecord Workflow.leeways
        (Workflow.codec.write workflow) document →
        Workflow.codec.Yields document workflow) ∧
    ∀ patch : Patch,
      Json.LooseRecord Patch.leeways (Patch.codec.write patch)
        (Patch.codec.write patch) ∧
      ∀ document,
        Json.LooseRecord Patch.leeways (Patch.codec.write patch) document →
        Patch.codec.Yields document patch := by
  refine ⟨fun workflow => ?_, fun patch => ?_⟩
  · have hlenient :
        Workflow.codec.LenientAt (Json.LooseRecord Workflow.leeways) workflow :=
      Workflow.record_lenient.codec workflow
    exact ⟨hlenient.written, fun _ => hlenient.yields⟩
  · have hlenient :
        Patch.codec.LenientAt (Json.LooseRecord Patch.leeways) patch :=
      Patch.record_lenient.codec patch
    exact ⟨hlenient.written, fun _ => hlenient.yields⟩

/-- A loop with nothing in it. -/
def idle : Node where
  id := .ofNat 1
  name := "idle"
  step := .loop { exitCondition := ⟨"x", .isEmpty, .null⟩ }

/-- Its condition and its parameters, out of order, with a note, and without
what goes without saying. -/
def idleCondition : Json :=
  .object [("operator", .string "IsEmpty"), ("left", .string "x")]

def idleStep : Json :=
  .object
    [("exit_condition", idleCondition), ("type", .string "Loop"),
      ("note", .array [.null])]

def idleNode : Json :=
  .object
    [("node_type", idleStep), ("colour", .string "red"),
      ("name", .string "idle"), ("id", .string (Uuid.ofNat 1).text)]

def idleWorkflow : Json :=
  .object
    [("nodes", .array [idleNode]), ("version", .bool true),
      ("id", .string (Uuid.ofNat 0).text), ("name", .string "by hand")]

theorem idleWorkflow_loose :
    Json.LooseRecord Workflow.leeways
      (Workflow.codec.write
        { id := .ofNat 0, name := "by hand", nodes := [idle] })
      idleWorkflow := by
  have hcondition : Json.LooseRecord Condition.leeways
      (Condition.record.codec.write ⟨"x", .isEmpty, .null⟩) idleCondition :=
    .intro ⟨_, [], .keep rfl <| .keep rfl <| .leave rfl .nil, by simp, by
      decide +kernel⟩
  have hstep : Json.LooseTagged "type" Step.leeways
      (Step.choice.codec.write idle.step) idleStep :=
    .intro rfl ⟨_, [("note", .array [.null])],
      .keep rfl <| .keep hcondition <| .leave rfl .nil, by
        simp [Loop.leeways], by decide +kernel⟩
  have hnode :
      Json.LooseRecord Node.leeways (Node.record.codec.write idle) idleNode :=
    .intro ⟨_, [("colour", .string "red")],
      .keep rfl <| .keep rfl <| .keep hstep <| .leave rfl <| .leave rfl <|
        .leave rfl <| .leave rfl <| .leave rfl <| .leave rfl <| .leave rfl .nil,
      by simp [Node.leeways], by decide +kernel⟩
  exact .intro ⟨_, [("version", .bool true)],
    .keep rfl <| .keep rfl <| .keep (.intro (.cons hnode .nil)) <|
      .leave rfl .nil,
    by simp [Workflow.leeways], by decide +kernel⟩

/-- The loop is read in full, and a patch that says nothing changes nothing. -/
theorem idleWorkflow_read_loosely :
    Workflow.codec.ofJson idleWorkflow =
        .ok { id := .ofNat 0, name := "by hand", nodes := [idle] } ∧
      Workflow.ofText (idleWorkflow.render .pretty) =
        .ok { id := .ofNat 0, name := "by hand", nodes := [idle] } ∧
      Patch.codec.ofJson (.object [("reason", .string "none")]) = .ok {} := by
  have hpatch : Json.LooseRecord Patch.leeways (Patch.codec.write {})
      (.object [("reason", .string "none")]) :=
    .intro ⟨_, [("reason", .string "none")],
      .leave rfl <| .leave rfl <| .leave rfl <| .leave rfl <| .leave rfl <|
        .leave rfl .nil,
      by simp [Patch.leeways], .refl _⟩
  obtain ⟨hworkflow, hrevise⟩ := read_loosely
  have hread := (hworkflow _).2 idleWorkflow idleWorkflow_loose
  have hrendered :=
    hread.ofRendered (by decide +kernel) (by decide +kernel) .pretty (by simp)
  exact ⟨hread.ofJson, hrendered, ((hrevise {}).2 _ hpatch).ofJson⟩

end Workbench
