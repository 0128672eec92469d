import Workbench.Json.Variant
import Workbench.Proofs.Json.Nesting

/-!
# Codecs that read what they write

A codec is faithful if every value comes back from the document it is written
as, in every mode that has room for the document. Faithful codecs put together
make faithful codecs. A record needs fields of different names for that, and an
optional value must not be written like none at all.

A tagged record is read in two steps, and the second is from memory, where there
is always room.
-/

namespace Workbench

namespace Codec

variable {α : Type} {codec : Codec α}

def Faithful (codec : Codec α) : Prop :=
  ∀ {mode : Mode} {a : α}, mode.Holds (codec.write a).nesting →
    codec.read mode (.ofJson (codec.write a)) = .ok a

/-! ## Leaves -/

theorem string_faithful : string.Faithful := fun _ => rfl

theorem bool_faithful : bool.Faithful := by
  intro mode b _
  cases b <;> rfl

theorem integer_faithful {wanted : String} {toNumber : α → Number}
    {ofInt? : Int → Option α}
    (h : ∀ a, ∃ n range, toNumber a = .int n range ∧ ofInt? n = some a) :
    (integer wanted toNumber ofInt?).Faithful := by
  intro mode a _
  obtain ⟨n, range, hnumber, hint⟩ := h a
  refine bind_eq_ok_iff.2 ⟨toNumber a, rfl, ?_⟩
  rw [hnumber]
  simp only [hint]
  rfl

theorem word32_faithful : word32.Faithful := by
  refine integer_faithful fun w => ⟨_, _, rfl, ?_⟩
  have := w.toNat_lt
  rw [if_pos ⟨by omega, by omega⟩]
  simp

theorem signed32_faithful : signed32.Faithful := by
  refine integer_faithful fun w => ⟨_, _, rfl, ?_⟩
  have := w.toInt_lt
  have := w.le_toInt
  rw [if_pos ⟨by omega, by omega⟩]
  simp

theorem word64_faithful : word64.Faithful := by
  refine integer_faithful fun w => ⟨_, _, rfl, ?_⟩
  have := w.toNat_lt
  rw [if_pos ⟨by omega, by omega⟩]
  simp

theorem float_faithful : float.Faithful := fun _ => rfl

theorem parsed_faithful {wanted : String} {fault : Fault} {toText : α → String}
    {ofText? : String → Option α} (h : ∀ a, ofText? (toText a) = some a) :
    (parsed wanted fault toText ofText?).Faithful := by
  intro mode a _
  refine bind_eq_ok_iff.2 ⟨toText a, rfl, ?_⟩
  rw [h]

theorem freeForm_faithful : freeForm.Faithful := by
  intro mode a h
  refine bind_eq_ok_iff.2 ⟨a.json, Tree.readWhole_ofJson a.json h, ?_⟩
  obtain ⟨document, hsorted⟩ := a
  simp only [FreeForm.ofJson, Json.sort_eq_self document hsorted]
  rfl

theorem enumeration_faithful {name : α → String} {values : List α}
    (h : ∀ a, (values.map fun a => (name a, EnumCase.plain a)).lookup (name a) =
      some (.plain a)) :
    (enumeration name values).Faithful := by
  intro mode a _
  refine bind_eq_ok_iff.2 ⟨name a, rfl, ?_⟩
  refine bind_eq_ok_iff.2 ⟨.plain a, ?_, rfl⟩
  rw [EnumCases.find, h]

/-! ## Optional values and lists -/

theorem read_option_of_ne {mode : Mode} {tree : Tree}
    (h : ∀ spelling, tree ≠ .word .null spelling) :
    codec.option.read mode tree =
      (do return some (← codec.read mode tree)) := by
  cases tree with
  | word w spelling =>
      cases w with
      | null => exact absurd rfl (h spelling)
      | true | false => rfl
  | _ => rfl

theorem option_faithful (h : codec.Faithful)
    (hnull : ∀ a, codec.write a ≠ .null) : codec.option.Faithful := by
  intro mode a hroom
  cases a with
  | none => rfl
  | some a =>
      have hread : codec.read mode (.ofJson (codec.write a)) = .ok a := h hroom
      have hwrite : ∀ spelling,
          Tree.ofJson (codec.write a) ≠ .word .null spelling := by
        intro spelling heq
        cases hj : codec.write a with
        | null => exact hnull a hj
        | bool b => rw [hj] at heq; cases b <;> cases heq
        | number | string | array | object => rw [hj] at heq; cases heq
      exact (read_option_of_ne hwrite).trans (bind_eq_ok_iff.2 ⟨a, hread, rfl⟩)

theorem readItems_map_write (h : codec.Faithful) {mode : Mode} {as : List α}
    (hroom : mode.Holds (Json.nestingOfItems (as.map codec.write))) :
    codec.readItems mode (Tree.ofItems (as.map codec.write)) = .ok as := by
  induction as with
  | nil => rfl
  | cons a as ih =>
      obtain ⟨ha, has⟩ := Mode.holds_max_iff.1 hroom
      exact bind_eq_ok_iff.2 ⟨a, h ha, bind_eq_ok_iff.2 ⟨as, ih has, rfl⟩⟩

theorem list_faithful (h : codec.Faithful) : codec.list.Faithful := by
  intro mode as hroom
  obtain ⟨inner, henter, hinner⟩ := Mode.exists_enter hroom
  exact bind_eq_ok_iff.2 ⟨inner, henter, readItems_map_write h hinner⟩

end Codec

/-! ## Records -/

namespace Fields

variable {α : Type} {types : List Type}

/-- Each field reads what it writes. -/
def Faithful {types : List Type} : Fields types → Prop
  | nil => True
  | cons field rest => field.codec.Faithful ∧ rest.Faithful

/-- Every field given. -/
def filled {types : List Type} : Fields types → Row types → Slots types
  | nil, _ => ()
  | cons _ rest, (a, row) => (some a, rest.filled row)

theorem complete_filled (fields : Fields types) (row : Row types) :
    fields.complete (fields.filled row) = .ok row := by
  induction fields with
  | nil => rfl
  | cons field rest ih =>
      obtain ⟨a, row⟩ := row
      exact bind_eq_ok_iff.2 ⟨row, ih row, rfl⟩

theorem names_entries (fields : Fields types) (row : Row types) :
    (fields.entries row).map (·.1) = fields.names := by
  induction fields with
  | nil => rfl
  | cons field rest ih =>
      obtain ⟨a, row⟩ := row
      exact congrArg (field.name :: ·) (ih row)

/-- Entries of other names are read as if the first field were not there. -/
theorem readMembers_cons_of_ne {field : Field α} {rest : Fields types}
    {mode : Mode} {slot : Option α} {slots filled : Slots types}
    {entries : List (String × Json)} (hnames : ∀ e ∈ entries, e.1 ≠ field.name)
    (h : rest.readMembers mode slots (Tree.ofEntries entries) = .ok filled) :
    (cons field rest).readMembers mode (slot, slots) (Tree.ofEntries entries) =
      .ok (slot, filled) := by
  induction entries generalizing slots with
  | nil =>
      cases h
      rfl
  | cons e entries ih =>
      obtain ⟨key, value⟩ := e
      have hkey : key ≠ field.name :=
        hnames (key, value) (List.mem_cons_self ..)
      have hrest : ∀ e ∈ entries, e.1 ≠ field.name := fun e he =>
        hnames e (List.mem_cons_of_mem _ he)
      rw [Tree.ofEntries, readMembers] at h ⊢
      obtain ⟨name, hname, h⟩ := bind_eq_ok_iff.1 h
      cases hname
      refine bind_eq_ok_iff.2 ⟨key, rfl, ?_⟩
      simp only [offer, if_neg hkey]
      cases hoffer : rest.offer key slots with
      | taken =>
          rw [hoffer] at h
          cases h
      | unknown =>
          rw [hoffer] at h
          obtain ⟨skipped, hskip, h⟩ := bind_eq_ok_iff.1 h
          exact bind_eq_ok_iff.2 ⟨skipped, hskip, ih hrest h⟩
      | free fill =>
          rw [hoffer] at h
          obtain ⟨next, hfill, h⟩ := bind_eq_ok_iff.1 h
          exact bind_eq_ok_iff.2
            ⟨(slot, next), bind_eq_ok_iff.2 ⟨next, hfill, rfl⟩, ih hrest h⟩

theorem readMembers_entries {fields : Fields types} {mode : Mode}
    {row : Row types} (hfields : fields.Faithful) (hnames : fields.names.Nodup)
    (hroom : mode.Holds (Json.nestingOfEntries (fields.entries row))) :
    fields.readMembers mode fields.noSlots
        (Tree.ofEntries (fields.entries row)) =
      .ok (fields.filled row) := by
  induction fields with
  | nil => rfl
  | cons field rest ih =>
      obtain ⟨a, row⟩ := row
      obtain ⟨hfirst, hlater⟩ := List.nodup_cons.1 hnames
      obtain ⟨ha, hrow⟩ := Mode.holds_max_iff.1 hroom
      have hnext := ih hfields.2 hlater hrow
      rw [entries, Tree.ofEntries, readMembers]
      refine bind_eq_ok_iff.2 ⟨field.name, rfl, ?_⟩
      rw [noSlots, offer, if_pos rfl]
      refine bind_eq_ok_iff.2
        ⟨(some a, rest.noSlots), bind_eq_ok_iff.2 ⟨a, hfields.1 ha, rfl⟩, ?_⟩
      refine readMembers_cons_of_ne (fun e he heq => hfirst ?_) hnext
      rw [← names_entries rest row, ← heq]
      exact List.mem_map_of_mem he

end Fields

namespace Record

variable {ρ : Type} {record : Record ρ} {mode : Mode} {value : ρ}

/-- The fields are faithful and have different names, and the record is made up
of them. -/
structure Faithful (record : Record ρ) : Prop where
  fields : record.fields.Faithful
  names : record.fields.names.Nodup
  ofRow_toRow : ∀ value, record.ofRow (record.toRow value) = value

theorem Faithful.readMembers (h : record.Faithful)
    (hroom : mode.Holds (Json.nestingOfEntries (record.entries value))) :
    record.readMembers mode (Tree.ofEntries (record.entries value)) =
      .ok value := by
  refine bind_eq_ok_iff.2
    ⟨_, Fields.readMembers_entries h.fields h.names hroom, ?_⟩
  refine bind_eq_ok_iff.2 ⟨_, Fields.complete_filled _ _, ?_⟩
  rw [h.ofRow_toRow]
  rfl

theorem Faithful.codec (h : record.Faithful) : record.codec.Faithful := by
  intro mode value hroom
  obtain ⟨inner, henter, hinner⟩ := Mode.exists_enter hroom
  exact bind_eq_ok_iff.2 ⟨inner, henter, h.readMembers hinner⟩

end Record

/-! ## Tagged records -/

namespace Choice

variable {α : Type} {choice : Choice α} {mode : Mode} {a : α}

theorem gather_entries {reader : Option (RecordReader α)}
    {entries : List (String × Json)}
    (hnames : ∀ e ∈ entries, e.1 ≠ choice.tagName)
    (hroom : mode.Holds (Json.nestingOfEntries entries)) :
    choice.gather mode reader (Tree.ofEntries entries) =
      .ok (reader, entries) := by
  induction entries with
  | nil => rfl
  | cons e entries ih =>
      obtain ⟨key, value⟩ := e
      have hkey : key ≠ choice.tagName :=
        hnames (key, value) (List.mem_cons_self ..)
      obtain ⟨hvalue, hrest⟩ := Mode.holds_max_iff.1 hroom
      have hlater := ih (fun e he => hnames e (List.mem_cons_of_mem _ he)) hrest
      rw [Tree.ofEntries, gather]
      refine bind_eq_ok_iff.2 ⟨key, rfl, ?_⟩
      rw [if_neg hkey]
      refine bind_eq_ok_iff.2 ⟨value, Tree.readWhole_ofJson value hvalue, ?_⟩
      exact bind_eq_ok_iff.2 ⟨(reader, entries), hlater, rfl⟩

/-- A record is one of those that the tag decides between, under the tag that
its values are written with. -/
structure Knows {ρ : Type} (choice : Choice α) (record : Record ρ)
    (make : ρ → α) : Prop where
  untagged : choice.tagName ∉ record.fields.names := by decide
  entries_eq : ∀ value,
    (choice.entries (make value)).2 = record.entries value := by
    exact fun _ => rfl
  lookup_eq : ∀ value, choice.cases.lookup (choice.entries (make value)).1 =
    some (record.reader.map make) := by exact fun _ => rfl

theorem Knows.read_write {ρ : Type} {record : Record ρ} {make : ρ → α}
    (h : choice.Knows record make) (hrecord : record.Faithful) (value : ρ)
    (hroom : mode.Holds (choice.write (make value)).nesting) :
    choice.read mode (.ofJson (choice.write (make value))) =
      .ok (make value) := by
  have hwrite : choice.write (make value) =
      .object ((choice.tagName, .string (choice.entries (make value)).1) ::
        record.entries value) :=
    congrArg (fun entries => Json.object (_ :: entries)) (h.entries_eq value)
  rw [hwrite] at hroom ⊢
  obtain ⟨inner, henter, hinner⟩ := Mode.exists_enter hroom
  obtain ⟨-, hentries⟩ := Mode.holds_max_iff.1 hinner
  have hnames : ∀ e ∈ record.entries value, e.1 ≠ choice.tagName := by
    rintro e he heq
    refine h.untagged ?_
    rw [← record.fields.names_entries (record.toRow value), ← heq]
    exact List.mem_map_of_mem he
  have htag : choice.find (choice.entries (make value)).1 =
      .ok (record.reader.map make) := by
    rw [find, h.lookup_eq]
  have hgather : choice.gather inner none
      (.more (.sound choice.tagName)
        (.string (.sound (choice.entries (make value)).1))
        (Tree.ofEntries (record.entries value))) =
      .ok (some (record.reader.map make), record.entries value) := by
    rw [gather]
    refine bind_eq_ok_iff.2 ⟨choice.tagName, rfl, ?_⟩
    rw [if_pos rfl, Option.isSome_none, if_neg Bool.false_ne_true]
    refine bind_eq_ok_iff.2 ⟨_, bind_eq_ok_iff.2 ⟨_, rfl, htag⟩, ?_⟩
    exact gather_entries hnames hentries
  refine bind_eq_ok_iff.2 ⟨inner, henter, ?_⟩
  refine bind_eq_ok_iff.2 ⟨_, hgather, ?_⟩
  exact bind_eq_ok_iff.2 ⟨value, hrecord.readMembers trivial, rfl⟩

end Choice

end Workbench
