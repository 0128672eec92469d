import Workbench.Text.Hex

/-!
# Identifiers

Workflows and nodes are named by universally unique identifiers: 128 bits,
thought of as thirty-two hexadecimal digits and compared digit by digit. The
written form groups the digits by hyphens. Read are also the digits without
hyphens, the written form in braces, and the written form as a uniform resource
name.
-/

namespace Workbench

/-- A universally unique identifier. -/
structure Uuid where
  digits : List (Fin 16)
  length_digits : digits.length = 32
deriving DecidableEq

namespace Uuid

/-- The identifier with the last thirty-two digits of a number. -/
def ofNat (n : Nat) : Uuid :=
  ⟨lastHexDigits 32 n, length_lastHexDigits ..⟩

/-- The identifier with the digits of a random number, marked as random: one
digit for the version and two bits for the variant are fixed. -/
def ofRandom (n : Nat) : Uuid :=
  let digits := (ofNat n).digits
  let variant := (digits[16]?.getD (lastHexDigit 0)).val % 4 + 8
  ⟨(digits.set 12 (lastHexDigit 4)).set 16 (lastHexDigit variant), by
    simp [(ofNat n).length_digits, digits]⟩

/-- The identifier that is zero throughout. -/
def zero : Uuid := ⟨List.replicate 32 (lastHexDigit 0), by simp⟩

instance : Inhabited Uuid := ⟨zero⟩

instance : LT Uuid := ⟨fun a b => a.digits < b.digits⟩

instance (a b : Uuid) : Decidable (a < b) :=
  inferInstanceAs (Decidable (a.digits < b.digits))

/-- The characters of the written form: groups of eight, four, four, four and
twelve digits. -/
def chars (id : Uuid) : List Char :=
  let cs := id.digits.map hexChar
  cs.take 8 ++ '-' :: (cs.drop 8).take 4 ++ '-' :: (cs.drop 12).take 4 ++
    '-' :: (cs.drop 16).take 4 ++ '-' :: cs.drop 20

/-- The written form. -/
def text (id : Uuid) : String := String.ofList id.chars

instance : ToString Uuid := ⟨text⟩

/-- The identifier with the given thirty-two digits. -/
def ofDigits? (cs : List Char) : Option Uuid :=
  (cs.mapM hexDigit?).bind fun digits =>
    if h : digits.length = 32 then some ⟨digits, h⟩ else none

/-- The identifier in its written form, with hyphens where they belong. -/
def ofGroups? (cs : List Char) : Option Uuid :=
  if cs[8]? = some '-' ∧ cs[13]? = some '-' ∧ cs[18]? = some '-' ∧
    cs[23]? = some '-' then
    ofDigits? (cs.take 8 ++ (cs.drop 9).take 4 ++ (cs.drop 14).take 4 ++
      (cs.drop 19).take 4 ++ cs.drop 24)
  else none

/-- What stands before the written form in a uniform resource name. -/
def resourceScheme : List Char := ['u', 'r', 'n', ':', 'u', 'u', 'i', 'd', ':']

/-- The identifier that a text stands for. -/
def ofText? (text : String) : Option Uuid :=
  let cs := text.toList
  match cs.length with
  | 32 => ofDigits? cs
  | 36 => ofGroups? cs
  | 38 =>
      if cs.head? = some '{' ∧ cs.getLast? = some '}' then
        ofGroups? cs.tail.dropLast
      else none
  | 45 =>
      if (cs.take 9).map Char.toLower = resourceScheme then
        ofGroups? (cs.drop 9)
      else none
  | _ => none

end Uuid

end Workbench
