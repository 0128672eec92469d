import Workbench.Json.Record

/-!
# Enumerations and tagged records

An *enumeration* is written as the name of a case. A case can also be written as
an object with the name as its only key: over `null` for a plain case, over the
fields of the case for one that has some.

A *tagged* choice is a record with one field more, the tag, that tells which
record it is. The tag may stand anywhere in the object, so the other fields are
read as a whole first and looked at again when the tag is known. As an array,
the tag is the first item.
-/

namespace Workbench

/-- A case of an enumeration: a value, or the values that a record makes. -/
inductive EnumCase (α : Type)
  | plain (value : α)
  | fields (reader : RecordReader α)

/-- The cases of an enumeration by name. -/
abbrev EnumCases (α : Type) := List (String × EnumCase α)

namespace EnumCases

variable {α : Type}

/-- The case of the given name. -/
def find (cases : EnumCases α) (name : String) : Except Fault (EnumCase α) :=
  match cases.lookup name with
  | some case => .ok case
  | none => .error (.unknownVariant name (cases.map (·.1)))

/-- The value for a name alone. -/
def readName (cases : EnumCases α) (name : String) : Except Fault α := do
  match ← cases.find name with
  | .plain a => return a
  | .fields .. => .error (.wrongType .unitVariant "struct variant")

/-- The value of a plain case, which stands over `null`; what was buffered may
also be empty. -/
def readPlain (mode : Mode) (a : α) : Tree → Except Fault α
  | .word .null (.ok ()) => .ok a
  | tree =>
      match mode, tree with
      | .buffered, .object (.stop .closed) => .ok a
      | _, _ => .error (tree.wrongType "unit")

/-- The value for a name that stands over a tree. -/
def readOver (mode : Mode) (tree : Tree) : EnumCase α → Except Fault α
  | .plain a => readPlain mode a tree
  | .fields reader =>
      match mode, tree with
      | .text _, _ => reader.read mode tree
      | _, .object members => reader.readMembers mode members
      | .buffered, .array items => reader.readItems mode items
      | _, _ => .error (tree.wrongType "struct variant")

/-- Reads the members of an object in a text, which are to be a single one. -/
def readTextMembers (cases : EnumCases α) (mode : Mode) :
    Members → Except Fault α
  | .more key value rest => do
      let case ← cases.find (← liftFault key.read)
      let a ← readOver mode value case
      match rest with
      | .stop .closed => return a
      | .stop .cut => .error (.text .objectCutShort)
      | _ => .error (.text .valueExpected)
  | .lone key fault => do
      let _ ← cases.find (← liftFault key.read)
      .error (.text fault)
  | .stop .keyless => .error (.text .keyNotString)
  | .stop .cut => .error (.text .objectCutShort)
  | _ => .error (.text .valueExpected)

/-- Reads a value of the enumeration. -/
def read (cases : EnumCases α) (mode : Mode) : Tree → Except Fault α
  | .string lexeme => do cases.readName (← liftFault lexeme.read)
  | .object members =>
      match mode with
      | .text _ => do cases.readTextMembers (← mode.enter) members
      | _ =>
          match members with
          | .more key value (.stop .closed) => do
              readOver mode value (← cases.find (← liftFault key.read))
          | _ => .error .notSingleKey
  | tree =>
      match mode, tree with
      | .text _, .missing => .error (.text .valueCutShort)
      | .text _, _ => .error (.text .valueExpected)
      | _, _ => .error (tree.wrongType "string or map")

end EnumCases

namespace Codec

/-- An enumeration of plain cases. -/
def enumeration {α : Type} (name : α → String) (values : List α) : Codec α where
  write a := .string (name a)
  read := EnumCases.read (values.map fun a => (name a, .plain a))

end Codec

/-- A tagged choice: the name of its tag, how the record of each case is read,
and the tag and the other entries of a value. The title names the type in
faults. -/
structure Choice (α : Type) where
  title : String
  tagName : String
  cases : List (String × RecordReader α)
  entries : α → String × List (String × Json)

namespace Choice

variable {α : Type}

/-- Writes the tag and then the fields. -/
def write (choice : Choice α) (a : α) : Json :=
  let (tag, entries) := choice.entries a
  .object ((choice.tagName, .string tag) :: entries)

/-- The reader for the given tag. -/
def find (choice : Choice α) (tag : String) : Except Fault (RecordReader α) :=
  match choice.cases.lookup tag with
  | some reader => .ok reader
  | none => .error (.unknownVariant tag (choice.cases.map (·.1)))

/-- The reader that a tag tells. -/
def readTag (choice : Choice α) : Tree → Except Fault (RecordReader α)
  | .string lexeme => do choice.find (← liftFault lexeme.read)
  | tree => .error (tree.wrongType "variant identifier")

/-- Reads the members of an object, the tag apart from the others. -/
def gather (choice : Choice α) (mode : Mode)
    (reader : Option (RecordReader α)) :
    Members → Except Fault (Option (RecordReader α) × List (String × Json))
  | .stop stop => do
      liftFault stop.read
      return (reader, [])
  | .lone key fault => do
      let name ← liftFault key.read
      if name = choice.tagName ∧ reader.isSome then
        .error (.duplicateField name)
      else .error (.text fault)
  | .more key value rest => do
      let name ← liftFault key.read
      if name = choice.tagName then
        if reader.isSome then .error (.duplicateField name)
        else
          let found ← choice.readTag value
          choice.gather mode (some found) rest
      else
        let document ← value.readWhole mode
        let (reader, others) ← choice.gather mode reader rest
        return (reader, (name, document) :: others)

/-- Reads a value of the choice. -/
def read (choice : Choice α) (mode : Mode) : Tree → Except Fault α
  | .object members => do
      match ← choice.gather (← mode.enter) none members with
      | (none, _) => .error (.missingField choice.tagName)
      | (some reader, others) =>
          reader.readMembers .buffered (Tree.ofEntries others)
  | .array items => do
      let mode ← mode.enter
      match items with
      | .more tag rest =>
          let reader ← choice.readTag tag
          let others ← Tree.readItems mode rest
          reader.readItems .buffered (Tree.ofItems others)
      | .stop stop =>
          liftFault stop.read
          .error (.missingField choice.tagName)
  | tree => .error (tree.wrongType choice.title)

def codec (choice : Choice α) : Codec α := ⟨choice.write, choice.read⟩

end Choice

end Workbench
