/-!
# Hexadecimal digits

The sixteen digits and the characters for them. Writing uses lower-case letters;
reading takes letters of either case.
-/

namespace Workbench

/-- The last digit of a number. -/
def lastHexDigit (n : Nat) : Fin 16 := ⟨n % 16, Nat.mod_lt n (by decide)⟩

/-- The last digits of a number, so many of them. -/
def lastHexDigits : (count n : Nat) → List (Fin 16)
  | 0, _ => []
  | count + 1, n => lastHexDigits count (n / 16) ++ [lastHexDigit n]

theorem length_lastHexDigits (count n : Nat) :
    (lastHexDigits count n).length = count := by
  induction count generalizing n with
  | zero => rfl
  | succ count ih => simp [lastHexDigits, ih]

/-- The character of a digit. -/
def hexChar (d : Fin 16) : Char := Nat.digitChar d

/-- The digit of a character, if it is one. -/
def hexDigit? (c : Char) : Option (Fin 16) :=
  if '0' ≤ c ∧ c ≤ '9' then some (lastHexDigit (c.toNat - '0'.toNat))
  else if 'a' ≤ c ∧ c ≤ 'f' then some (lastHexDigit (c.toNat - 'a'.toNat + 10))
  else if 'A' ≤ c ∧ c ≤ 'F' then some (lastHexDigit (c.toNat - 'A'.toNat + 10))
  else none

/-- Reading a written digit gives it back. -/
theorem hexDigit?_hexChar (d : Fin 16) : hexDigit? (hexChar d) = some d := by
  revert d; decide

end Workbench
