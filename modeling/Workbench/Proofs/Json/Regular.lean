import Workbench.Proofs.Json.Bounded
import Workbench.Proofs.Json.Written

/-!
# Texts that read back

A codec that is faithful and has a bound is *regular*, and a format is regular
if its records are described by regular fields of different names. Then what is
written comes back from the text, in either layout, as long as its binary64
numbers do and no more brackets are open at once than a text may have. And what
was read from a text never has too many, so it can be written and read again.
-/

namespace Workbench

/-! ## Regular descriptions -/

structure Codec.Regular {α : Type} (codec : Codec α) (n : Nat) : Prop where
  faithful : codec.Faithful
  bounded : codec.Bounded n

/-- The codec is regular, and what is taken where no value is given is no deeper
either. -/
structure Field.Regular {α : Type} (field : Field α) (n : Nat) : Prop where
  codec : field.codec.Regular n
  absent : ∀ a, field.absent = some a → (field.codec.write a).nesting ≤ n
  beyond : ∀ a, field.beyond = some a → (field.codec.write a).nesting ≤ n

def Fields.Regular {types : List Type} (n : Nat) : Fields types → Prop
  | nil => True
  | cons field rest => field.Regular n ∧ rest.Regular n

structure Record.Regular {ρ : Type} (record : Record ρ) (n : Nat) : Prop where
  names : record.fields.names.Nodup
  ofRow_toRow : ∀ value, record.ofRow (record.toRow value) = value
  toRow_ofRow : ∀ row, record.toRow (record.ofRow row) = row
  fields : record.fields.Regular n

namespace Field

variable {α : Type} {name : String} {codec : Codec α} {value : α} {n : Nat}

theorem Regular.required (h : codec.Regular n) :
    (required name codec).Regular n :=
  ⟨h, nofun, nofun⟩

theorem Regular.default (h : codec.Regular n)
    (hvalue : (codec.write value).nesting ≤ n) :
    (default name codec value).Regular n where
  codec := h
  absent _ ha := Option.some.inj ha ▸ hvalue
  beyond _ ha := Option.some.inj ha ▸ hvalue

end Field

theorem Fields.Regular.faithful {types : List Type} {fields : Fields types}
    {n : Nat} (h : fields.Regular n) : fields.Faithful := by
  induction fields with
  | nil => trivial
  | cons field rest ih => exact ⟨h.1.codec.faithful, ih h.2⟩

theorem Fields.Regular.bounded {types : List Type} {fields : Fields types}
    {n : Nat} (h : fields.Regular n) : fields.Bounded n := by
  induction fields with
  | nil => trivial
  | cons field rest ih =>
      exact ⟨⟨h.1.codec.bounded, h.1.absent, h.1.beyond⟩, ih h.2⟩

namespace Record.Regular

variable {ρ : Type} {record : Record ρ} {n : Nat}

theorem faithful (h : record.Regular n) : record.Faithful :=
  ⟨h.fields.faithful, h.names, h.ofRow_toRow⟩

theorem bounded (h : record.Regular n) : record.Bounded n :=
  ⟨h.fields.bounded, h.toRow_ofRow⟩

theorem codec (h : record.Regular n) : record.codec.Regular (n + 1) :=
  ⟨h.faithful.codec, h.bounded.codec⟩

end Record.Regular

namespace Codec

variable {α : Type} {codec : Codec α} {n : Nat}

/-- A codec that opens no brackets has any bound. -/
theorem leaf_regular (h : codec.Faithful)
    (hleaf : ∀ a, (codec.write a).nesting = 0) : codec.Regular n :=
  ⟨h, bounded_of_le fun a =>
    Nat.le_trans (Nat.le_of_eq (hleaf a)) (Nat.zero_le n)⟩

theorem string_regular : string.Regular n :=
  leaf_regular string_faithful fun _ => rfl

theorem bool_regular : bool.Regular n := leaf_regular bool_faithful fun _ => rfl

theorem word32_regular : word32.Regular n :=
  leaf_regular word32_faithful fun _ => rfl

theorem signed32_regular : signed32.Regular n :=
  leaf_regular signed32_faithful fun _ => rfl

theorem word64_regular : word64.Regular n :=
  leaf_regular word64_faithful fun _ => rfl

theorem float_regular : float.Regular n :=
  leaf_regular float_faithful fun _ => rfl

theorem freeForm_regular : freeForm.Regular n :=
  ⟨freeForm_faithful, freeForm_bounded.mono (Nat.zero_le n)⟩

theorem enumeration_regular {name : α → String} {values : List α}
    (h : ∀ a, (values.map fun a => (name a, EnumCase.plain a)).lookup (name a) =
      some (.plain a)) :
    (enumeration name values).Regular n :=
      leaf_regular (enumeration_faithful h) fun _ => rfl

theorem option_regular (h : codec.Regular n)
    (hnull : ∀ a, codec.write a ≠ .null) :
    codec.option.Regular n :=
      ⟨option_faithful h.faithful hnull, option_bounded h.bounded⟩

theorem list_regular (h : codec.Regular n) : codec.list.Regular (n + 1) :=
  ⟨list_faithful h.faithful, list_bounded h.bounded⟩

/-! ## Texts -/

variable {layout : Layout}

/-- Blanks behind a written value make no difference. -/
theorem Regular.ofText_append (h : codec.Regular n) (hlayout : layout.IsBlank)
    {a : α} {text : String} {blanks : List Char}
    (hblanks : ∀ c ∈ blanks, Text.isBlank c = true)
    (htext : text.toList = (codec.toText layout a).toList ++ blanks)
    (hfloats : (codec.write a).FloatsReadBack)
    (hnesting : (codec.write a).nesting < 128) : codec.ofText text = .ok a := by
  have hroom : Mode.wholeText.Holds (codec.write a).nesting :=
    Nat.le_of_lt_succ hnesting
  have hnothing : Text.dropBlanks blanks = [] := by
    rw [← List.append_nil blanks, Text.dropBlanks_append hblanks]
    rfl
  rw [toText, Json.render, String.toList_ofList] at htext
  rw [ofText, Json.scan_append hlayout hfloats hblanks htext]
  refine bind_eq_ok_iff.2 ⟨a, h.faithful hroom, ?_⟩
  rw [Option.map_some, hnothing]
  rfl

theorem Regular.ofText_toText (h : codec.Regular n) (hlayout : layout.IsBlank)
    {a : α} (hfloats : (codec.write a).FloatsReadBack)
    (hnesting : (codec.write a).nesting < 128) :
    codec.ofText (codec.toText layout a) = .ok a :=
  h.ofText_append hlayout Text.isBlank_nil
    (List.append_nil _).symm hfloats hnesting

/-- What was read from a text has no more brackets open than a text may have. -/
theorem Regular.nesting_lt_of_ofText (h : codec.Regular n) (hn : n < 128)
    {text : String} {a : α} (hread : codec.ofText text = .ok a) :
    (codec.write a).nesting < 128 := by
  obtain ⟨b, hb, hread⟩ := bind_eq_ok_iff.1 hread
  have hsame : b = a := by
    split at hread
    · exact Except.ok.inj hread
    · cases hread
  rw [← hsame]
  exact Nat.lt_succ_of_le
    (h.bounded hb (Nat.le_refl 127) (Nat.le_of_lt_succ hn))

end Codec

end Workbench
