import Workbench.Json.Document
import Workbench.Json.Lexeme

/-!
# JSON text as a tree with its faults in place

Which fault a reader reports depends on what it wants: a misspelt number does no
harm where an earlier field is of the wrong type, and a trailing comma is named
differently in a field that is skipped. So a text is first laid out as a tree
that holds every fault where it occurs, and whoever walks the tree reports the
first fault on its way.

Nothing follows a fault of grammar, so such a fault ends all the lists it stands
in. A document without faults is a tree too (`ofJson`).
-/

namespace Workbench

/-- The words that JSON knows. -/
inductive Word
  | null
  | true
  | false
deriving DecidableEq, Repr

namespace Word

def letters : Word → List Char
  | null => ['n', 'u', 'l', 'l']
  | true => ['t', 'r', 'u', 'e']
  | false => ['f', 'a', 'l', 's', 'e']

/-- The word that starts with the given letter. -/
def startingWith? : Char → Option Word
  | 'n' => some null
  | 't' => some true
  | 'f' => some false
  | _ => none

end Word

/-- Where the items of an array stop. -/
inductive ItemsStop
  | closed
  /-- At a comma and then the closing bracket. -/
  | trailingComma
  | cut
  /-- At neither a comma nor the closing bracket, after an item. -/
  | junk
deriving DecidableEq, Repr

/-- Where the members of an object stop. -/
inductive MembersStop
  | closed
  /-- At a comma and then the closing brace. -/
  | trailingComma
  | cut
  | cutAfterComma
  /-- At neither a comma nor the closing brace, after a member. -/
  | junk
  /-- Where a key is due, at something else. -/
  | keyless
deriving DecidableEq, Repr

/-- What a reader makes of it where items stop. -/
def ItemsStop.read : ItemsStop → Except TextFault Unit
  | closed => .ok ()
  | trailingComma => .error .trailingComma
  | cut => .error .listCutShort
  | junk => .error .listCommaExpected

/-- What is made of it in an array that is passed over. -/
def ItemsStop.skip : ItemsStop → Except TextFault Unit
  | trailingComma => .error .valueExpected
  | stop => stop.read

/-- What a reader makes of it where members stop. -/
def MembersStop.read : MembersStop → Except TextFault Unit
  | closed => .ok ()
  | trailingComma => .error .trailingComma
  | cut => .error .objectCutShort
  | cutAfterComma => .error .valueCutShort
  | junk => .error .objectCommaExpected
  | keyless => .error .keyNotString

/-- What is made of it in an object that is passed over. -/
def MembersStop.skip : MembersStop → Except TextFault Unit
  | trailingComma => .error .keyNotString
  | cutAfterComma => .error .objectCutShort
  | stop => stop.read

mutual

/-- A value in a text. -/
inductive Tree
  /-- The text ends where a value is due. -/
  | missing
  /-- A character that starts no value. -/
  | junk
  | word (word : Word) (spelling : Except TextFault Unit)
  | number (lexeme : Lexeme Number)
  | string (lexeme : Lexeme String)
  | array (items : Items)
  | object (members : Members)

/-- The items of an array from some point on. -/
inductive Items
  | stop (stop : ItemsStop)
  | more (item : Tree) (rest : Items)

/-- The members of an object from some point on. -/
inductive Members
  | stop (stop : MembersStop)
  /-- A key with something else than a colon after it. -/
  | lone (key : Lexeme String) (fault : TextFault)
  | more (key : Lexeme String) (value : Tree) (rest : Members)

end

namespace Tree

mutual

/-- A document as a tree without faults. -/
def ofJson : Json → Tree
  | .null => word .null (.ok ())
  | .bool b => word (if b then .true else .false) (.ok ())
  | .number n => number (.sound n)
  | .string s => string (.sound s)
  | .array items => array (ofItems items)
  | .object entries => object (ofEntries entries)

def ofItems : List Json → Items
  | [] => .stop .closed
  | item :: rest => .more (ofJson item) (ofItems rest)

def ofEntries : List (String × Json) → Members
  | [] => .stop .closed
  | (key, value) :: rest => .more (.sound key) (ofJson value) (ofEntries rest)

end

/-- What a reader finds that wants a value of another kind. Leaves are read in
full for that, brackets are not entered. -/
def found : Tree → Except TextFault Found
  | missing => .error .valueCutShort
  | junk => .error .valueExpected
  | word w spelling =>
      spelling.map fun _ =>
        match w with
        | .null => .null
        | .true => .boolean true
        | .false => .boolean false
  | number lexeme => lexeme.read.map .number
  | string lexeme => lexeme.read.map .string
  | array _ => .ok .sequence
  | object _ => .ok .map

mutual

/-- Passes over a value that is not wanted. -/
def skip : Tree → Except TextFault Unit
  | missing => .error .valueCutShort
  | junk => .error .valueExpected
  | word _ spelling => spelling
  | number lexeme => lexeme.skip
  | string lexeme => lexeme.skip
  | array items => skipItems items
  | object members => skipMembers members

def skipItems : Items → Except TextFault Unit
  | .stop stop => stop.skip
  | .more item rest => do
      skip item
      skipItems rest

def skipMembers : Members → Except TextFault Unit
  | .stop stop => stop.skip
  | .lone key fault => do
      key.skip
      .error fault
  | .more key value rest => do
      key.skip
      skip value
      skipMembers rest

end

end Tree

end Workbench
