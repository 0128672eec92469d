import Workbench.Json.Number
import Workbench.Text.Quoted

/-!
# What can be wrong with a document

A text can fail to be JSON (`TextFault`), and a JSON document can fail to be the
record that is wanted (`Fault`). Each fault says what was found and what was
expected; the wording is in `message` and nowhere else.
-/

namespace Workbench

/-- A reason why a text is not a JSON document. -/
inductive TextFault
  | valueCutShort
  | listCutShort
  | objectCutShort
  | stringCutShort
  | colonExpected
  | listCommaExpected
  | objectCommaExpected
  | wordExpected
  | valueExpected
  | badEscape
  | badNumber
  | numberOutOfRange
  | halfSurrogatePair
  | controlCharacter
  | keyNotString
  | loneSurrogate
  | trailingComma
  | trailingCharacters
  | tooDeep
deriving DecidableEq, Repr

/-- The kind of fault, as a program that handles faults sees it. -/
inductive FaultCategory
  | grammar
  | cutShort
  | data
deriving DecidableEq, Repr

namespace TextFault

def message : TextFault → String
  | valueCutShort => "EOF while parsing a value"
  | listCutShort => "EOF while parsing a list"
  | objectCutShort => "EOF while parsing an object"
  | stringCutShort => "EOF while parsing a string"
  | colonExpected => "expected `:`"
  | listCommaExpected => "expected `,` or `]`"
  | objectCommaExpected => "expected `,` or `\x7d`"
  | wordExpected => "expected ident"
  | valueExpected => "expected value"
  | badEscape => "invalid escape"
  | badNumber => "invalid number"
  | numberOutOfRange => "number out of range"
  | halfSurrogatePair => "unexpected end of hex escape"
  | controlCharacter =>
      "control character (\\u0000-\\u001F) found while parsing a string"
  | keyNotString => "key must be a string"
  | loneSurrogate => "lone leading surrogate in hex escape"
  | trailingComma => "trailing comma"
  | trailingCharacters => "trailing characters"
  | tooDeep => "recursion limit exceeded"

/-- A text that merely stops too early could still become a document. -/
def category : TextFault → FaultCategory
  | valueCutShort | listCutShort | objectCutShort | stringCutShort => .cutShort
  | _ => .grammar

end TextFault

/-- What stands where something else was wanted. -/
inductive Found
  | null
  | boolean (value : Bool)
  | number (value : Number)
  | string (value : String)
  | sequence
  | map
  | unitVariant
deriving DecidableEq

namespace Found

def describe : Found → String
  | null => "null"
  | boolean value => s!"boolean `{value}`"
  | number (.int n h) => s!"integer `{String.ofList (Number.int n h).text}`"
  | number (.float x) =>
      s!"floating point `{String.ofList (Number.floatText x)}`"
  | string value => "string " ++ quoted value
  | sequence => "sequence"
  | map => "map"
  | unitVariant => "unit variant"

end Found

/-- A reason why a document is not the record that is wanted. -/
inductive Fault
  | text (fault : TextFault)
  | wrongType (found : Found) (wanted : String)
  | outOfBounds (value : Number) (wanted : String)
  | notSingleKey
  | missingField (name : String)
  | duplicateField (name : String)
  | unknownVariant (name : String) (known : List String)
  | wrongLength (count : Nat) (wanted : String)
  | badIdentifier
deriving DecidableEq

namespace Fault

/-- The alternatives of a choice: two are joined by "or", more are listed. -/
def alternatives (names : List String) : String :=
  let quoted := names.map fun name => "`" ++ name ++ "`"
  match quoted with
  | [] => "no variants"
  | [a] => a
  | [a, b] => a ++ " or " ++ b
  | many => "one of " ++ String.intercalate ", " many

def message : Fault → String
  | text fault => fault.message
  | wrongType found wanted =>
      s!"invalid type: {found.describe}, expected {wanted}"
  | outOfBounds value wanted =>
      s!"invalid value: {(Found.number value).describe}, expected {wanted}"
  | notSingleKey => "invalid value: map, expected map with a single key"
  | missingField name => s!"missing field `{name}`"
  | duplicateField name => s!"duplicate field `{name}`"
  | unknownVariant name known =>
      s!"unknown variant `{name}`, expected {alternatives known}"
  | wrongLength count wanted => s!"invalid length {count}, expected {wanted}"
  | badIdentifier => "UUID parsing failed"

def category : Fault → FaultCategory
  | text fault => fault.category
  | _ => .data

end Fault

end Workbench
