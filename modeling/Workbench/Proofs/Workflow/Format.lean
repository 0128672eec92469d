import Workbench.Patch.Basic
import Workbench.Proofs.Json.Regular

/-!
# The file format reads what it writes

Every record of the format is described by its fields, so all there is to look
at are the descriptions (`Record.Regular`), from the leaves up to workflows and
patches. Two types are not plain records. A port is an enumeration with one case
that has a field; and a step is a tagged choice, for which the tag of each kind
of step has to find the record that the step is written with.

The numbers say how many brackets a value may bring along that its text did not
have: a workflow has seven open where the condition of a switch case is written.
-/

namespace Workbench

/-! ## Identifiers -/

namespace Uuid

theorem mapM_hexDigit? (digits : List (Fin 16)) :
    (digits.map hexChar).mapM hexDigit? = some digits := by
  induction digits with
  | nil => rfl
  | cons d digits ih => simp [List.mapM_cons, hexDigit?_hexChar, ih]

theorem ofDigits?_map_hexChar (id : Uuid) :
    ofDigits? (id.digits.map hexChar) = some id := by
  rw [ofDigits?, mapM_hexDigit?, Option.bind_some, dif_pos id.length_digits]

/-- Without its hyphens the written form is digits. -/
theorem ofGroups?_append {a b c d e : List Char} (ha : a.length = 8)
    (hb : b.length = 4) (hc : c.length = 4) (hd : d.length = 4) :
    ofGroups? (a ++ '-' :: b ++ '-' :: c ++ '-' :: d ++ '-' :: e) =
      ofDigits? (a ++ b ++ c ++ d ++ e) := by
  simp [ofGroups?, List.getElem?_append, List.drop_append,
    List.drop_of_length_le, ha, hb, hc, hd]

theorem take_drop_groups (cs : List Char) :
    cs.take 8 ++ (cs.drop 8).take 4 ++ (cs.drop 12).take 4 ++
      (cs.drop 16).take 4 ++ cs.drop 20 =
      cs := by
  have hjoin : ∀ n,
      (cs.drop n).take 4 ++ cs.drop (n + 4) = cs.drop n := fun n => by
    rw [← List.drop_drop, List.take_append_drop]
  rw [List.append_assoc, hjoin 16, List.append_assoc, hjoin 12,
    List.append_assoc, hjoin 8, List.take_append_drop]

theorem ofText?_text (id : Uuid) : ofText? id.text = some id := by
  have hlength : id.chars.length = 36 := by simp [chars, id.length_digits]
  have hgroups : ofGroups? id.chars = ofDigits? (id.digits.map hexChar) := by
    refine (ofGroups?_append ?_ ?_ ?_ ?_).trans
      (congrArg _ (take_drop_groups _)) <;>
      simp [id.length_digits]
  rw [ofText?, text, String.toList_ofList]
  simp only [hlength, hgroups, ofDigits?_map_hexChar]

theorem codec_regular {n : Nat} : codec.Regular n :=
  Codec.leaf_regular (Codec.parsed_faithful ofText?_text) fun _ => rfl

end Uuid

/-! ## Edges -/

namespace Port

theorem codec_faithful : codec.Faithful := by
  intro mode port hroom
  cases port with
  | switchCase name =>
      cases mode with
      | text room =>
          -- There is room for the two brackets, and nothing else is asked of
          -- it.
          obtain ⟨room, rfl⟩ := Nat.exists_eq_add_of_le' hroom
          rfl
      | document | buffered => rfl
  | _ => rfl

theorem codec_regular {n : Nat} : codec.Regular (n + 2) := by
  refine ⟨codec_faithful, Codec.bounded_of_le fun port => ?_⟩
  cases port with
  | switchCase name => exact Nat.le_add_left 2 n
  | _ => exact Nat.zero_le _

end Port

theorem Edge.record_regular {n : Nat} : Edge.record.Regular (n + 2) :=
  ⟨by decide, fun _ => rfl, fun _ => rfl,
    .required Uuid.codec_regular, .required Uuid.codec_regular,
    .default
      (Codec.option_regular Port.codec_regular (by rintro (_ | _) <;> nofun))
      (Nat.zero_le _),
    trivial⟩

/-! ## Conditions -/

theorem Operator.codec_regular {n : Nat} : Operator.codec.Regular n :=
  Codec.enumeration_regular fun a => by cases a <;> rfl

theorem Condition.record_regular {n : Nat} : Condition.record.Regular n :=
  ⟨by decide, fun _ => rfl, fun _ => rfl,
    .required Codec.string_regular, .required Operator.codec_regular,
    .default Codec.freeForm_regular (Nat.zero_le _), trivial⟩

theorem SwitchCase.record_regular {n : Nat} :
    SwitchCase.record.Regular (n + 1) :=
  ⟨by decide, fun _ => rfl, fun _ => rfl,
    .required Codec.string_regular,
    .required Condition.record_regular.codec, trivial⟩

/-! ## Steps -/

theorem MouseButton.codec_regular {n : Nat} : MouseButton.codec.Regular n :=
  Codec.enumeration_regular fun a => by cases a <;> rfl

theorem FocusMethod.codec_regular {n : Nat} : FocusMethod.codec.Regular n :=
  Codec.enumeration_regular fun a => by cases a <;> rfl

theorem optionalString_regular {name : String} {n : Nat} :
    (Field.default name Codec.string.option none).Regular n :=
  .default (Codec.option_regular Codec.string_regular nofun) (Nat.zero_le n)

theorem optionalFloat_regular {name : String} {n : Nat} :
    (Field.default name Codec.float.option none).Regular n :=
  .default (Codec.option_regular Codec.float_regular fun _ h => by
    cases h) (Nat.zero_le n)

theorem Click.record_regular : Click.record.Regular 3 :=
  ⟨by decide, fun _ => rfl, fun _ => rfl,
    optionalString_regular, optionalFloat_regular, optionalFloat_regular,
    .default MouseButton.codec_regular (Nat.zero_le _),
    .default Codec.word32_regular (Nat.zero_le _), trivial⟩

theorem TypeText.record_regular : TypeText.record.Regular 3 :=
  ⟨by decide, fun _ => rfl, fun _ => rfl,
    .required Codec.string_regular, trivial⟩

theorem PressKey.record_regular : PressKey.record.Regular 3 :=
  ⟨by decide, fun _ => rfl, fun _ => rfl,
    .required Codec.string_regular,
    .default (Codec.list_regular Codec.string_regular) (by decide), trivial⟩

theorem Scroll.record_regular : Scroll.record.Regular 3 :=
  ⟨by decide, fun _ => rfl, fun _ => rfl,
    .required Codec.signed32_regular, optionalFloat_regular,
    optionalFloat_regular, trivial⟩

theorem Screenshot.record_regular : Screenshot.record.Regular 3 :=
  ⟨by decide, fun _ => rfl, fun _ => rfl,
    optionalString_regular,
    .default Codec.bool_regular (Nat.zero_le _), trivial⟩

theorem FindText.record_regular : FindText.record.Regular 3 :=
  ⟨by decide, fun _ => rfl, fun _ => rfl,
    .required Codec.string_regular, trivial⟩

theorem FindImage.record_regular : FindImage.record.Regular 3 :=
  ⟨by decide, fun _ => rfl, fun _ => rfl,
    ⟨Codec.option_regular Codec.string_regular nofun, fun _ h => by
      cases h; decide, nofun⟩,
    .default Codec.float_regular (Nat.zero_le _),
    .default Codec.word32_regular (Nat.zero_le _), trivial⟩

theorem ListWindows.record_regular : ListWindows.record.Regular 3 :=
  ⟨by decide, fun _ => rfl, fun _ => rfl,
    optionalString_regular, trivial⟩

theorem FocusWindow.record_regular : FocusWindow.record.Regular 3 :=
  ⟨by decide, fun _ => rfl, fun _ => rfl,
    .required FocusMethod.codec_regular, optionalString_regular, trivial⟩

theorem ToolCall.record_regular : ToolCall.record.Regular 3 :=
  ⟨by decide, fun _ => rfl, fun _ => rfl,
    .required Codec.string_regular,
    .default Codec.freeForm_regular (Nat.zero_le _), trivial⟩

theorem AiStep.record_regular : AiStep.record.Regular 3 :=
  ⟨by decide, fun _ => rfl, fun _ => rfl,
    .required Codec.string_regular,
    .default (Codec.option_regular
      (Codec.list_regular Codec.string_regular) nofun) (Nat.zero_le _),
    .default (Codec.option_regular Codec.word32_regular nofun) (Nat.zero_le _),
    trivial⟩

theorem If.record_regular : If.record.Regular 3 :=
  ⟨by decide, fun _ => rfl, fun _ => rfl,
    .required Condition.record_regular.codec, trivial⟩

theorem Switch.record_regular : Switch.record.Regular 3 :=
  ⟨by decide, fun _ => rfl, fun _ => rfl,
    .required (Codec.list_regular SwitchCase.record_regular.codec), trivial⟩

theorem Loop.record_regular : Loop.record.Regular 3 :=
  ⟨by decide, fun _ => rfl, fun _ => rfl,
    .required Condition.record_regular.codec,
    .default Codec.word32_regular (Nat.zero_le _), trivial⟩

theorem EndLoop.record_regular : EndLoop.record.Regular 3 :=
  ⟨by decide, fun _ => rfl, fun _ => rfl,
    .required Uuid.codec_regular, trivial⟩

namespace Step

theorem choice_faithful : choice.codec.Faithful := by
  intro mode step hroom
  have hread : ∀ {ρ : Type} {record : Record ρ} {make : ρ → Step},
      record.Regular 3 → choice.Knows record make → ∀ p, make p = step →
        choice.read mode (.ofJson (choice.write step)) = .ok step := by
    rintro ρ record make hregular hknows p rfl
    exact hknows.read_write hregular.faithful p hroom
  cases step with
  | click p => exact hread Click.record_regular {} p rfl
  | typeText p => exact hread TypeText.record_regular {} p rfl
  | pressKey p => exact hread PressKey.record_regular {} p rfl
  | scroll p => exact hread Scroll.record_regular {} p rfl
  | takeScreenshot p => exact hread Screenshot.record_regular {} p rfl
  | findText p => exact hread FindText.record_regular {} p rfl
  | findImage p => exact hread FindImage.record_regular {} p rfl
  | listWindows p => exact hread ListWindows.record_regular {} p rfl
  | focusWindow p => exact hread FocusWindow.record_regular {} p rfl
  | toolCall p => exact hread ToolCall.record_regular {} p rfl
  | aiStep p => exact hread AiStep.record_regular {} p rfl
  | ifThen p => exact hread If.record_regular {} p rfl
  | switch p => exact hread Switch.record_regular {} p rfl
  | loop p => exact hread Loop.record_regular {} p rfl
  | endLoop p => exact hread EndLoop.record_regular {} p rfl

theorem choice_bounded : choice.Bounded 3 := by
  have hreads : ∀ {ρ : Type} {record : Record ρ} {make : ρ → Step},
      record.Regular 3 → (∀ p, (entries (make p)).2 = record.entries p) →
        choice.ReadsWithin 3 (record.reader.map make) :=
    fun hregular hentries => Choice.readsWithin_map hregular.bounded hentries
  exact ⟨hreads Click.record_regular fun _ => rfl,
    hreads TypeText.record_regular fun _ => rfl,
    hreads PressKey.record_regular fun _ => rfl,
    hreads Scroll.record_regular fun _ => rfl,
    hreads Screenshot.record_regular fun _ => rfl,
    hreads FindText.record_regular fun _ => rfl,
    hreads FindImage.record_regular fun _ => rfl,
    hreads ListWindows.record_regular fun _ => rfl,
    hreads FocusWindow.record_regular fun _ => rfl,
    hreads ToolCall.record_regular fun _ => rfl,
    hreads AiStep.record_regular fun _ => rfl,
    hreads If.record_regular fun _ => rfl,
    hreads Switch.record_regular fun _ => rfl,
    hreads Loop.record_regular fun _ => rfl,
    hreads EndLoop.record_regular fun _ => rfl⟩

theorem choice_regular : choice.codec.Regular 4 :=
  ⟨choice_faithful, choice_bounded.codec⟩

end Step

/-! ## Nodes, workflows and patches -/

theorem TraceLevel.codec_regular {n : Nat} : TraceLevel.codec.Regular n :=
  Codec.enumeration_regular fun a => by cases a <;> rfl

theorem CheckKind.codec_regular {n : Nat} : CheckKind.codec.Regular n :=
  Codec.enumeration_regular fun a => by cases a <;> rfl

theorem OnFailure.codec_regular {n : Nat} : OnFailure.codec.Regular n :=
  Codec.enumeration_regular fun a => by cases a <;> rfl

theorem Check.record_regular {n : Nat} : Check.record.Regular n :=
  ⟨by decide, fun _ => rfl, fun _ => rfl,
    .required Codec.string_regular, .required CheckKind.codec_regular,
    .default Codec.freeForm_regular (Nat.zero_le _),
    .default OnFailure.codec_regular (Nat.zero_le _), trivial⟩

theorem Node.record_regular : Node.record.Regular 4 :=
  ⟨by decide, fun _ => rfl, fun _ => rfl,
    .required Uuid.codec_regular, .required Codec.string_regular,
    .required Step.choice_regular,
    .default Codec.bool_regular (Nat.zero_le _),
    .default (Codec.option_regular Codec.word64_regular nofun) (Nat.zero_le _),
    .default (Codec.option_regular Codec.word64_regular nofun) (Nat.zero_le _),
    .default Codec.word32_regular (Nat.zero_le _),
    .default TraceLevel.codec_regular (Nat.zero_le _),
    optionalString_regular,
    .default (Codec.list_regular Check.record_regular.codec) (by decide),
    trivial⟩

theorem Workflow.record_regular : Workflow.record.Regular 6 :=
  ⟨by decide, fun _ => rfl, fun _ => rfl,
    .required Uuid.codec_regular, .required Codec.string_regular,
    .default (Codec.list_regular Node.record_regular.codec) (by decide),
    .default (Codec.list_regular Edge.record_regular.codec) (by decide),
    trivial⟩

theorem Patch.record_regular : Patch.record.Regular 6 :=
  ⟨by decide, fun _ => rfl, fun _ => rfl,
    .default (Codec.list_regular Node.record_regular.codec) (by decide),
    .default (Codec.list_regular Uuid.codec_regular) (by decide),
    .default (Codec.list_regular Node.record_regular.codec) (by decide),
    .default (Codec.list_regular Edge.record_regular.codec) (by decide),
    .default (Codec.list_regular Edge.record_regular.codec) (by decide),
    .default (Codec.list_regular Codec.string_regular) (by decide), trivial⟩

/-- A workflow comes back from its text, and so does a patch from either of its
texts, as long as no 128 brackets are open at once and every binary64 number in
it is read from its digits as itself. So a workflow that was loaded can be saved
and loaded for ever: the text stays as it is after the first time, and so do the
identifiers of the nodes and the edges. -/
theorem reading_undoes_writing :
    (∀ workflow : Workflow, (Workflow.codec.write workflow).FloatsReadBack →
      (Workflow.codec.write workflow).nesting < 128 →
        Workflow.ofText workflow.toText = .ok workflow) ∧
    (∀ patch : Patch, (Patch.codec.write patch).FloatsReadBack →
      (Patch.codec.write patch).nesting < 128 →
        ∀ layout ∈ [Layout.compact, .pretty],
          Patch.ofText (Patch.codec.toText layout patch) = .ok patch) ∧
    (∀ text workflow, Workflow.ofText text = .ok workflow →
      (Workflow.codec.write workflow).FloatsReadBack →
        ∃ again, Workflow.ofText workflow.toText = .ok again ∧
          again.toText = workflow.toText ∧
          again.nodes.map (·.id) = workflow.nodes.map (·.id) ∧
          again.edges = workflow.edges) := by
  have hworkflow : Workflow.codec.Regular 7 := Workflow.record_regular.codec
  have hpatch : Patch.codec.Regular 7 := Patch.record_regular.codec
  refine ⟨fun workflow => hworkflow.ofText_toText Layout.isBlank_pretty, ?_, ?_⟩
  · intro patch hfloats hnesting layout hlayout
    simp only [List.mem_cons, List.not_mem_nil, or_false] at hlayout
    rcases hlayout with rfl | rfl
    · exact hpatch.ofText_toText Layout.isBlank_compact hfloats hnesting
    · exact hpatch.ofText_toText Layout.isBlank_pretty hfloats hnesting
  · intro text workflow hread hfloats
    have hnesting := hworkflow.nesting_lt_of_ofText (by decide) hread
    exact ⟨workflow, hworkflow.ofText_toText Layout.isBlank_pretty hfloats
      hnesting, rfl, rfl, rfl⟩

/-- A click between two pixels, a call with free-form arguments, and a switch;
the name needs escapes. -/
def specimen : Workflow where
  id := .ofNat 1
  name := "Ünï\"\\\t\x01"
  nodes :=
    [{ id := .ofNat 2, name := ""
       step := .click { x := some ⟨false, 4503599627370496, -53, by decide⟩ } },
      { id := .ofNat 3, name := "call", timeout := some 5
        step := .toolCall
          { arguments := .ofJson (.object
            [("b", .array [.null]), ("a", .array [])]) } },
      { id := .ofNat 4, name := "choose"
        step := .switch
          { cases := [⟨"far",
            { left := "x", operator := .isEmpty, right := .null }⟩] }
        checks := [{ name := "seen", kind := .textPresent }] }]
  edges :=
    [⟨.ofNat 4, .ofNat 2, some (.switchCase "far")⟩, ⟨.ofNat 2, .ofNat 3, none⟩]

/-- The nodes of the specimen added, and its edges removed. -/
def specimenPatch : Patch where
  addedNodes := specimen.nodes
  removedEdges := specimen.edges
  warnings := ["\n"]

theorem specimen_reads_back :
    (Workflow.codec.write specimen).FloatsReadBack ∧
      (Patch.codec.write specimenPatch).FloatsReadBack ∧
      (Workflow.codec.write specimen).nesting = 7 ∧
      (Patch.codec.write specimenPatch).nesting = 7 ∧
      Workflow.ofText specimen.toText = .ok specimen ∧
      Patch.ofText (Patch.codec.toText .compact specimenPatch) =
        .ok specimenPatch ∧
      ∃ again, Workflow.ofText specimen.toText = .ok again ∧
      again.toText = specimen.toText := by
  have hfloats : (Workflow.codec.write specimen).FloatsReadBack := by
    decide +kernel
  have hpatch : (Patch.codec.write specimenPatch).FloatsReadBack := by
    decide +kernel
  have hnesting : (Workflow.codec.write specimen).nesting = 7 := by
    decide +kernel
  have hdeep : (Patch.codec.write specimenPatch).nesting = 7 := by
    decide +kernel
  obtain ⟨hwrite, hrevise, hagain⟩ := reading_undoes_writing
  have hread := hwrite specimen hfloats (by omega)
  obtain ⟨again, hsame, htext, -, -⟩ :=
    hagain specimen.toText specimen hread hfloats
  exact ⟨hfloats, hpatch, hnesting, hdeep, hread,
    hrevise specimenPatch hpatch (by omega) .compact (by simp), again,
    hsame, htext⟩

end Workbench
