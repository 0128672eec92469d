import Workbench.Json.Document
import Workbench.Text.Hex

/-!
# Writing documents

A document is written in one of two layouts. The *compact* one has no blanks at
all; the *pretty* one gives every item and every field a line of its own,
indented by two blanks for each bracket it stands in, and puts a blank after a
colon. An empty array or object is a pair of brackets in both.

In strings only quotation marks, backslashes and control characters are escaped.
-/

namespace Workbench

/-- What stands between the tokens of a written document. -/
structure Layout where
  /-- Before an item, a field or a closing bracket that stands in so many
  brackets. -/
  lineBreak : Nat → List Char
  colon : List Char

namespace Layout

def compact : Layout := ⟨fun _ => [], [':']⟩

def pretty : Layout :=
  ⟨fun depth => '\n' :: List.replicate (2 * depth) ' ', [':', ' ']⟩

end Layout

namespace Json

/-- A character as it stands in a written string. -/
def escape (c : Char) : List Char :=
  if c = '"' then ['\\', '"']
  else if c = '\\' then ['\\', '\\']
  else if c = '\x08' then ['\\', 'b']
  else if c = '\x0c' then ['\\', 'f']
  else if c = '\n' then ['\\', 'n']
  else if c = '\r' then ['\\', 'r']
  else if c = '\t' then ['\\', 't']
  else if c.toNat < 0x20 then
    ['\\', 'u', '0', '0', hexChar (lastHexDigit (c.toNat / 16)),
      hexChar (lastHexDigit c.toNat)]
  else [c]

/-- A string between quotation marks. -/
def renderString (s : String) : List Char :=
  '"' :: s.toList.flatMap escape ++ ['"']

mutual

/-- The characters of a document that stands in `depth` brackets. -/
def renderAt (layout : Layout) (depth : Nat) : Json → List Char
  | null => ['n', 'u', 'l', 'l']
  | bool true => ['t', 'r', 'u', 'e']
  | bool false => ['f', 'a', 'l', 's', 'e']
  | number n => n.text
  | string s => renderString s
  | array [] => ['[', ']']
  | array (item :: rest) =>
      '[' ::
        (layout.lineBreak (depth + 1) ++ renderAt layout (depth + 1) item ++
        renderItems layout (depth + 1) rest ++ layout.lineBreak depth ++ [']'])
  | object [] => ['{', '}']
  | object ((key, value) :: rest) =>
      '{' ::
        (layout.lineBreak (depth + 1) ++ renderString key ++ layout.colon ++
        renderAt layout (depth + 1) value ++
        renderEntries layout (depth + 1) rest ++
        layout.lineBreak depth ++ ['}'])

/-- Further items, each after a comma. -/
def renderItems (layout : Layout) (depth : Nat) : List Json → List Char
  | [] => []
  | item :: rest =>
      ',' :: (layout.lineBreak depth ++ renderAt layout depth item ++
        renderItems layout depth rest)

/-- Further fields, each after a comma. -/
def renderEntries (layout : Layout) (depth : Nat) :
    List (String × Json) → List Char
  | [] => []
  | (key, value) :: rest =>
      ',' :: (layout.lineBreak depth ++ renderString key ++ layout.colon ++
        renderAt layout depth value ++ renderEntries layout depth rest)

end

/-- The text of a document. -/
def render (layout : Layout) (document : Json) : String :=
  String.ofList (document.renderAt layout 0)

end Json

end Workbench
