import Workbench.Json.Codec

/-!
# Records

A record is described by the list of its fields, each with a name, a codec and
what to take when the document does not give it. The description is all there is
to say about the format: how a record is written, how it is read from an object
in whatever order its fields come, and how it is read from an array of its
fields in the order of declaration.

Fields nobody declared are passed over, a field given twice is a fault, and so
is a field that is neither given nor has something to take in its place. Faults
are met in the order of the document; whether fields are missing is looked at in
the end.
-/

namespace Workbench

/-- A field of a record. -/
structure Field (α : Type) where
  name : String
  codec : Codec α
  /-- The value where an object does not name the field. -/
  absent : Option α
  /-- The value where an array ends before the field. -/
  beyond : Option α

namespace Field

/-- A field that has to be given. -/
def required {α : Type} (name : String) (codec : Codec α) : Field α :=
  ⟨name, codec, none, none⟩

/-- A field with a value of its own where it is not given. -/
def default {α : Type} (name : String) (codec : Codec α) (value : α) :
    Field α :=
  ⟨name, codec, some value, some value⟩

end Field

/-- The fields of a record with values of the given types. -/
inductive Fields : List Type → Type 1
  | nil : Fields []
  | cons {α : Type} {types : List Type} (field : Field α)
      (rest : Fields types) :
      Fields (α :: types)

/-- A value for each field. -/
abbrev Row : List Type → Type
  | [] => Unit
  | α :: types => α × Row types

/-- For each field the value that was given for it, if one was. -/
abbrev Slots : List Type → Type
  | [] => Unit
  | α :: types => Option α × Slots types

namespace Fields

/-- The number of fields. -/
def count {types : List Type} : Fields types → Nat
  | nil => 0
  | cons _ rest => rest.count + 1

def names {types : List Type} : Fields types → List String
  | nil => []
  | cons field rest => field.name :: rest.names

/-- No field given yet. -/
def noSlots {types : List Type} : Fields types → Slots types
  | nil => ()
  | cons _ rest => (none, rest.noSlots)

/-- The entries of an object with the given values. -/
def entries {types : List Type} :
    Fields types → Row types → List (String × Json)
  | nil, _ => []
  | cons field rest, (a, row) =>
      (field.name, field.codec.write a) :: rest.entries row

/-- What the fields have to say to a key. -/
inductive Offer (types : List Type)
  | unknown
  | taken
  | free (fill : Mode → Tree → Except Fault (Slots types))

/-- The field with the given key, if there is one and it is still free. -/
def offer {types : List Type} (key : String) :
    Fields types → Slots types → Offer types
  | nil, _ => .unknown
  | cons field rest, (slot, slots) =>
      if key = field.name then
        match slot with
        | some _ => .taken
        | none =>
            .free fun mode tree =>
              do return (some (← field.codec.read mode tree), slots)
      else
        match rest.offer key slots with
        | .unknown => .unknown
        | .taken => .taken
        | .free fill =>
            .free fun mode tree => do return (slot, ← fill mode tree)

/-- Reads the members of an object in the order in which they come. -/
def readMembers {types : List Type} (fields : Fields types) (mode : Mode)
    (slots : Slots types) :
    Members → Except Fault (Slots types)
  | .stop stop => do
      liftFault stop.read
      return slots
  | .lone key fault => do
      let name ← liftFault key.read
      match fields.offer name slots with
      | .taken => .error (.duplicateField name)
      | _ => .error (.text fault)
  | .more key value rest => do
      let name ← liftFault key.read
      match fields.offer name slots with
      | .taken => .error (.duplicateField name)
      | .unknown =>
          liftFault value.skip
          fields.readMembers mode slots rest
      | .free fill => do
          let slots ← fill mode value
          fields.readMembers mode slots rest

/-- The values of all fields, or the first one that is missing. -/
def complete {types : List Type} :
    Fields types → Slots types → Except Fault (Row types)
  | nil, _ => .ok ()
  | cons field rest, (slot, slots) => do
      match slot.or field.absent with
      | some a => return (a, ← rest.complete slots)
      | none => .error (.missingField field.name)

/-- Reads the fields off the items of an array, `index` of which have been read;
what remains of the items is left over. The fault for too few items says how
many there are to be. -/
def readItems {types : List Type} (wanted : String) (mode : Mode)
    (index : Nat) :
    Fields types → Items → Except Fault (Row types × Items)
  | nil, items => .ok ((), items)
  | cons field rest, .more item items => do
      let a ← field.codec.read mode item
      let (row, items) ← rest.readItems wanted mode (index + 1) items
      return ((a, row), items)
  | cons field rest, .stop stop => do
      liftFault stop.read
      match field.beyond with
      | some a =>
          let (row, items) ← rest.readItems wanted mode index (.stop stop)
          return ((a, row), items)
      | none => .error (.wrongLength index wanted)

end Fields

/-- The number of items. -/
def Items.count : Items → Nat
  | .more _ rest => rest.count + 1
  | _ => 0

/-- A count of things, with the plural where it is due. -/
def countOf (count : Nat) (thing : String) : String :=
  if count = 1 then s!"{count} {thing}" else s!"{count} {thing}s"

/-- The fault of an array that goes on after the last of `count` fields. -/
def excessFault (mode : Mode) (count : Nat) : Items → Option Fault
  | .stop .closed => none
  | items =>
      match mode with
      | .document =>
          some (.wrongLength (count + items.count) "fewer elements in array")
      | .buffered =>
          some (.wrongLength (count + items.count)
            (countOf count "element" ++ " in sequence"))
      | .text _ =>
          match items with
          | .stop .trailingComma => some (.text .trailingComma)
          | .stop .cut => some (.text .listCutShort)
          | _ => some (.text .trailingCharacters)

/-- A record type with the description of its fields. The title names the type
in faults. -/
structure Record (ρ : Type) where
  title : String
  types : List Type
  fields : Fields types
  ofRow : Row types → ρ
  toRow : ρ → Row types

/-- How a record is read once its bracket has been entered: from the members of
an object or from the items of an array. -/
structure RecordReader (α : Type) where
  title : String
  readMembers : Mode → Members → Except Fault α
  readItems : Mode → Items → Except Fault α

namespace RecordReader

/-- Reads a record from an object or an array. -/
def read {α : Type} (reader : RecordReader α) (mode : Mode) :
    Tree → Except Fault α
  | .object members => do reader.readMembers (← mode.enter) members
  | .array items => do reader.readItems (← mode.enter) items
  | tree => .error (tree.wrongType reader.title)

/-- Reads a record and makes something of it. -/
def map {α β : Type} (make : α → β) (reader : RecordReader α) :
    RecordReader β where
  title := reader.title
  readMembers mode members := do return make (← reader.readMembers mode members)
  readItems mode items := do return make (← reader.readItems mode items)

end RecordReader

namespace Record

/-- The entries of a record written as an object. -/
def entries {ρ : Type} (record : Record ρ) (value : ρ) : List (String × Json) :=
  record.fields.entries (record.toRow value)

def write {ρ : Type} (record : Record ρ) (value : ρ) : Json :=
  .object (record.entries value)

/-- Reads a record from the members of an object. -/
def readMembers {ρ : Type} (record : Record ρ) (mode : Mode)
    (members : Members) :
    Except Fault ρ := do
  let slots ← record.fields.readMembers mode record.fields.noSlots members
  return record.ofRow (← record.fields.complete slots)

/-- Reads a record from the items of an array. -/
def readItems {ρ : Type} (record : Record ρ) (mode : Mode) (items : Items) :
    Except Fault ρ := do
  let count := record.fields.count
  let (row, rest) ←
    record.fields.readItems
      (record.title ++ " with " ++ countOf count "element") mode 0 items
  match excessFault mode count rest with
  | some fault => .error fault
  | none => return record.ofRow row

def reader {ρ : Type} (record : Record ρ) : RecordReader ρ :=
  ⟨record.title, record.readMembers, record.readItems⟩

def codec {ρ : Type} (record : Record ρ) : Codec ρ :=
  ⟨record.write, record.reader.read⟩

end Record

end Workbench
