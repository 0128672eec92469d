import Workbench.Json.Render
import Workbench.Json.Scan

/-!
# Codecs

A codec for a type writes its values as documents and reads them back from
trees. Reading is done in one of three modes, for a record can stand in a text,
in a document, or in the part of either that was read as a whole before its kind
was known. The modes accept the same records; they differ in how faults are
named, and only a text limits the number of brackets that are open at once.
-/

namespace Workbench

/-- Where a record is read from. -/
inductive Mode
  /-- A text, in which so many brackets more may be opened. -/
  | text (room : Nat)
  | document
  /-- What was read as a whole and is looked at a second time. -/
  | buffered
deriving DecidableEq, Repr

namespace Mode

/-- The mode for a whole text: 127 brackets may be open at once. -/
def wholeText : Mode := .text 127

/-- The mode inside of a bracket that opens here. -/
def enter : Mode → Except Fault Mode
  | text 0 => .error (.text .tooDeep)
  | text (room + 1) => .ok (.text room)
  | mode => .ok mode

end Mode

/-- A fault of the text as a fault of the document. -/
def liftFault {α : Type} : Except TextFault α → Except Fault α
  | .ok a => .ok a
  | .error fault => .error (.text fault)

namespace Tree

/-- The fault of a tree that stands where something else is wanted; its own
fault comes first. -/
def wrongType (wanted : String) (tree : Tree) : Fault :=
  match tree.found with
  | .ok found => .wrongType found wanted
  | .error fault => .text fault

mutual

/-- The document that a tree stands for. -/
def readWhole (mode : Mode) : Tree → Except Fault Json
  | .missing => .error (.text .valueCutShort)
  | .junk => .error (.text .valueExpected)
  | .word w spelling => do
      liftFault spelling
      return match w with
        | .null => .null
        | .true => .bool true
        | .false => .bool false
  | .number lexeme => do return .number (← liftFault lexeme.read)
  | .string lexeme => do return .string (← liftFault lexeme.read)
  | .array items => do return .array (← readItems (← mode.enter) items)
  | .object members => do return .object (← readMembers (← mode.enter) members)

def readItems (mode : Mode) : Items → Except Fault (List Json)
  | .stop stop => do
      liftFault stop.read
      return []
  | .more item rest => do
      let value ← readWhole mode item
      return value :: (← readItems mode rest)

def readMembers (mode : Mode) : Members → Except Fault (List (String × Json))
  | .stop stop => do
      liftFault stop.read
      return []
  | .lone key fault => do
      let _ ← liftFault key.read
      .error (.text fault)
  | .more key value rest => do
      let name ← liftFault key.read
      let value ← readWhole mode value
      return (name, value) :: (← readMembers mode rest)

end

end Tree

/-- How values of a type are written as documents and read back. -/
structure Codec (α : Type) where
  write : α → Json
  read : Mode → Tree → Except Fault α

namespace Codec

/-- The value that a document stands for. -/
def ofJson {α : Type} (codec : Codec α) (document : Json) : Except Fault α :=
  codec.read .document (.ofJson document)

/-- The value that a whole text stands for. Nothing but blanks may follow it. -/
def ofText {α : Type} (codec : Codec α) (text : String) : Except Fault α := do
  let (tree, rest) := Text.scan text
  let a ← codec.read .wholeText tree
  match rest.map Text.dropBlanks with
  | some [] => return a
  | _ => .error (.text .trailingCharacters)

/-- The text of a value. -/
def toText {α : Type} (codec : Codec α) (layout : Layout) (a : α) : String :=
  (codec.write a).render layout

def string : Codec String where
  write := .string
  read _
    | .string lexeme => liftFault lexeme.read
    | tree => .error (tree.wrongType "a string")

def bool : Codec Bool where
  write := .bool
  read _
    | .word .true (.ok ()) => .ok true
    | .word .false (.ok ()) => .ok false
    | tree => .error (tree.wrongType "a boolean")

/-- Values that are written as integers; `ofInt?` knows which integers are in
bounds. -/
def integer {α : Type} (wanted : String) (toNumber : α → Number)
    (ofInt? : Int → Option α) : Codec α where
  write a := .number (toNumber a)
  read _
    | .number lexeme => do
        match ← liftFault lexeme.read with
        | .int n h =>
            (ofInt? n).elim (.error (.outOfBounds (.int n h) wanted)) .ok
        | .float x => .error (.wrongType (.number (.float x)) wanted)
    | tree => .error (tree.wrongType wanted)

/-- Unsigned 32-bit words. -/
def word32 : Codec UInt32 :=
  integer "u32"
    (fun w => .int w.toNat (by have := w.toNat_lt; unfold Number.IsWord; omega))
    (fun n => if 0 ≤ n ∧ n < 4294967296 then some (.ofNat n.toNat) else none)

/-- Signed 32-bit words. -/
def signed32 : Codec Int32 :=
  integer "i32"
    (fun w => .int w.toInt (by
      have := w.toInt_lt; have := w.le_toInt; unfold Number.IsWord; omega))
    (fun n => if -2147483648 ≤ n ∧
      n < 2147483648 then some (.ofInt n) else none)

/-- Unsigned 64-bit words. -/
def word64 : Codec UInt64 :=
  integer "u64"
    (fun w => .int w.toNat (by have := w.toNat_lt; unfold Number.IsWord; omega))
    (fun n =>
      if 0 ≤ n ∧ n < 18446744073709551616 then some (.ofNat n.toNat) else none)

/-- Binary64 numbers; an integer is rounded to one. -/
def float : Codec Binary64 where
  write x := .number (.float x)
  read _
    | .number lexeme => do
        match (← liftFault lexeme.read).float? with
        | some x => .ok x
        | none => .error (.text .numberOutOfRange)
    | tree => .error (tree.wrongType "f64")

/-- Values with a text of their own. -/
def parsed {α : Type} (wanted : String) (fault : Fault) (toText : α → String)
    (ofText? : String → Option α) : Codec α where
  write a := .string (toText a)
  read _
    | .string lexeme => do
        match ofText? (← liftFault lexeme.read) with
        | some a => .ok a
        | none => .error fault
    | tree => .error (tree.wrongType wanted)

/-- Any document; the order of fields in it is of no account. -/
def freeForm : Codec FreeForm where
  write a := a.json
  read mode tree := do return .ofJson (← tree.readWhole mode)

/-- A value or `null`. -/
def option {α : Type} (codec : Codec α) : Codec (Option α) where
  write
    | some a => codec.write a
    | none => .null
  read mode
    | .word .null spelling => do
        liftFault spelling
        return none
    | tree => do return some (← codec.read mode tree)

/-- The values that the items of an array stand for. -/
def readItems {α : Type} (codec : Codec α) (mode : Mode) :
    Items → Except Fault (List α)
  | .stop stop => do
      liftFault stop.read
      return []
  | .more item rest => do
      let a ← codec.read mode item
      return a :: (← readItems codec mode rest)

/-- An array of values. -/
def list {α : Type} (codec : Codec α) : Codec (List α) where
  write as := .array (as.map codec.write)
  read mode
    | .array items => do codec.readItems (← mode.enter) items
    | tree => .error (tree.wrongType "a sequence")

end Codec

end Workbench
