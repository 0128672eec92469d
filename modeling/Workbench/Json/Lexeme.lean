import Workbench.Json.Fault
import Workbench.Text.Hex

/-!
# Words, numerals and strings of JSON text

The leaves of a JSON text. Each is looked at in two ways. To *read* a leaf is to
find out what it stands for, which asks more than its grammar: the magnitude of
a number must be in range, and the surrogates in a string must come in pairs. To
*skip* it, as for a field nobody wants, its grammar is enough. Where the text is
at fault in both ways the two may name different faults.

A string is cut into pieces first: characters, and code units written as `\u`
with four digits. Only reading puts the units together.
-/

namespace Workbench

/-- What a leaf of a text comes to when it is read and when it is skipped. -/
structure Lexeme (α : Type) where
  read : Except TextFault α
  skip : Except TextFault Unit

namespace Lexeme

/-- A leaf without fault. -/
def sound {α : Type} (value : α) : Lexeme α := ⟨.ok value, .ok ()⟩

end Lexeme

namespace Text

def isBlank (c : Char) : Bool := c = ' ' || c = '\n' || c = '\t' || c = '\r'

/-- The text from its first character on that is no blank. -/
def dropBlanks (cs : List Char) : List Char := cs.dropWhile isBlank

theorem length_dropBlanks_le (cs : List Char) :
    (dropBlanks cs).length ≤ cs.length :=
  (List.dropWhile_suffix isBlank).length_le

/-! ## Words -/

/-- The rest of a text after the letters of a word, or the fault in it. -/
def expectLetters : (letters cs : List Char) → Except TextFault (List Char)
  | [], cs => .ok cs
  | _ :: _, [] => .error .valueCutShort
  | letter :: letters, c :: cs =>
      if c = letter then expectLetters letters cs else .error .wordExpected

theorem length_le_of_expectLetters {letters cs rest : List Char}
    (h : expectLetters letters cs = .ok rest) : rest.length ≤ cs.length := by
  induction letters generalizing cs with
  | nil => cases h; exact Nat.le_refl _
  | cons letter letters ih =>
    cases cs with
    | nil => cases h
    | cons c cs =>
      rw [expectLetters] at h
      split at h
      · exact Nat.le_succ_of_le (ih h)
      · cases h

/-! ## Numerals -/

def isDigit (c : Char) : Bool := '0' ≤ c && c ≤ '9'

def digitValue (c : Char) : Nat := c.toNat - '0'.toNat

/-- A run of digits and the text after it. -/
def digits (cs : List Char) : List Nat × List Char :=
  ((cs.takeWhile isDigit).map digitValue, cs.dropWhile isDigit)

/-- The fault of a numeral that lacks a digit where the text goes on with `cs`:
a reader tells the end of the text from a wrong character. -/
def digitMissing (cs : List Char) : Lexeme Number :=
  ⟨.error (if cs.isEmpty then .valueCutShort else .badNumber),
    .error .badNumber⟩

/-- The fraction of a numeral, if one follows. -/
def fraction (cs : List Char) :
    Except (Lexeme Number) (Option (List Nat) × List Char) :=
  match cs with
  | '.' :: rest =>
      match digits rest with
      | ([], after) => .error (digitMissing after)
      | (ds, after) => .ok (some ds, after)
  | _ => .ok (none, cs)

/-- The sign of an exponent and the text after it; without a sign it is
positive. -/
def exponentSign : List Char → Bool × List Char
  | '+' :: rest => (false, rest)
  | '-' :: rest => (true, rest)
  | rest => (false, rest)

/-- The exponent of a numeral, if one follows. -/
def exponent (cs : List Char) :
    Except (Lexeme Number) (Option (Bool × List Nat) × List Char) :=
  match cs with
  | c :: rest =>
      if c = 'e' || c = 'E' then
        let (below, rest) := exponentSign rest
        match digits rest with
        | ([], after) => .error (digitMissing after)
        | (ds, after) => .ok (some (below, ds), after)
      else .ok (none, cs)
  | [] => .ok (none, [])

/-- The whole digits of a numeral: a zero stands alone. -/
def wholeDigits (cs : List Char) :
    Except (Lexeme Number) (List Nat × List Char) :=
  match digits cs with
  | ([], after) => .error (digitMissing after)
  | (0 :: _ :: _, _) => .error ⟨.error .badNumber, .error .badNumber⟩
  | (ds, after) => .ok (ds, after)

/-- The numeral at the start of the text and what follows it, or the fault in
it. -/
def numeral (cs : List Char) : Except (Lexeme Number) (Numeral × List Char) := do
  let (negative, rest) :=
    match cs with
    | '-' :: rest => (true, rest)
    | _ => (false, cs)
  let (whole, rest) ← wholeDigits rest
  let (fraction, rest) ← fraction rest
  let (exponent, rest) ← exponent rest
  return (⟨negative, whole, fraction, exponent⟩, rest)

/-- A numeral as a leaf: reading it wants its magnitude in range. -/
def numberLexeme (n : Numeral) : Lexeme Number :=
  ⟨n.number?.elim (.error .numberOutOfRange) .ok, .ok ()⟩

/-! ## Strings -/

/-- A piece of a string: a character, or a code unit that was written in
hexadecimal. -/
inductive Piece
  | char (c : Char)
  | unit (n : Nat)
deriving DecidableEq

/-- How the pieces of a string come to an end. -/
inductive StringEnd
  | closed
  | cut
  | control
  | badEscape
  | badDigits
deriving DecidableEq

/-- The code unit of four hexadecimal digits. -/
def hexUnit? (a b c d : Char) : Option Nat := do
  let a ← hexDigit? a
  let b ← hexDigit? b
  let c ← hexDigit? c
  let d ← hexDigit? d
  return ((a.val * 16 + b.val) * 16 + c.val) * 16 + d.val

/-- The character that a backslash and the given letter stand for. -/
def escaped? : Char → Option Char
  | '"' => some '"'
  | '\\' => some '\\'
  | '/' => some '/'
  | 'b' => some '\x08'
  | 'f' => some '\x0c'
  | 'n' => some '\n'
  | 'r' => some '\r'
  | 't' => some '\t'
  | _ => none

/-- The pieces of a string, how they end, and the text after its closing
quotation mark. -/
structure StringBody where
  pieces : List Piece
  stop : StringEnd
  rest : List Char

namespace StringBody

def stopAt (stop : StringEnd) : StringBody := ⟨[], stop, []⟩

def push (piece : Piece) (body : StringBody) : StringBody :=
  { body with pieces := piece :: body.pieces }

end StringBody

/-- The body of a string whose opening quotation mark has been taken. -/
def stringBody : List Char → StringBody
  | [] => .stopAt .cut
  | '"' :: rest => ⟨[], .closed, rest⟩
  | '\\' :: [] => .stopAt .cut
  | '\\' :: 'u' :: a :: b :: c :: d :: rest =>
      match hexUnit? a b c d with
      | some n => (stringBody rest).push (.unit n)
      | none => .stopAt .badDigits
  | '\\' :: 'u' :: few =>
      -- Four bytes that are no digits are a fault of their own; fewer end the
      -- text.
      .stopAt
        (if (String.ofList few).utf8ByteSize < 4 then .cut else .badDigits)
  | '\\' :: c :: rest =>
      match escaped? c with
      | some c => (stringBody rest).push (.char c)
      | none => .stopAt .badEscape
  | c :: rest =>
      if c.toNat < 0x20 then .stopAt .control
      else (stringBody rest).push (.char c)

theorem length_stringBody_le (cs : List Char) :
    (stringBody cs).rest.length ≤ cs.length := by
  fun_induction stringBody cs <;>
    simp_all [StringBody.push, StringBody.stopAt] <;> omega

namespace StringEnd

/-- The fault of the end itself, if it is one. -/
def fault : StringEnd → Except TextFault Unit
  | closed => .ok ()
  | cut => .error .stringCutShort
  | control => .error .controlCharacter
  | badEscape | badDigits => .error .badEscape

/-- The fault of an end that comes where the second half of a surrogate pair is
due. -/
def pairFault : StringEnd → TextFault
  | cut => .stringCutShort
  | badDigits => .badEscape
  | closed | control | badEscape => .halfSurrogatePair

end StringEnd

def isHighSurrogate (n : Nat) : Bool := 0xD800 ≤ n && n ≤ 0xDBFF

def isLowSurrogate (n : Nat) : Bool := 0xDC00 ≤ n && n ≤ 0xDFFF

/-- The characters that the pieces of a string stand for. A high surrogate needs
a low one after it, and together they are one character. -/
def assemble (stop : StringEnd) : List Piece → Except TextFault (List Char)
  | [] => stop.fault.map fun _ => []
  | .char c :: rest => (assemble stop rest).map (c :: ·)
  | [.unit high] =>
      if isLowSurrogate high then .error .loneSurrogate
      else if isHighSurrogate high then .error stop.pairFault
      else stop.fault.map fun _ => [Char.ofNat high]
  | .unit high :: .unit low :: rest =>
      if isLowSurrogate high then .error .loneSurrogate
      else if isHighSurrogate high then
        if isLowSurrogate low then
          (assemble stop rest).map
            (Char.ofNat
              (0x10000 + (high - 0xD800) * 0x400 + (low - 0xDC00)) :: ·)
        else .error .loneSurrogate
      else (assemble stop (.unit low :: rest)).map (Char.ofNat high :: ·)
  | .unit high :: .char c :: rest =>
      if isLowSurrogate high then .error .loneSurrogate
      else if isHighSurrogate high then .error .halfSurrogatePair
      else (assemble stop rest).map (Char.ofNat high :: c :: ·)

/-- A string as a leaf: reading it puts its pieces together. -/
def stringLexeme (body : StringBody) : Lexeme String :=
  ⟨(assemble body.stop body.pieces).map String.ofList, body.stop.fault⟩

end Text

end Workbench
