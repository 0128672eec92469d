import Workbench.Number.Shortest

/-!
# JSON numbers

A number is an integer that a signed or an unsigned 64-bit word can hold, or a
finite binary64 number. Which of the two a numeral means depends on how it is
written: a fraction part, an exponent, a magnitude beyond the words or a
negative zero makes it binary64.

Reading a binary64 numeral rounds more than once. The leading digits that fit in
64 bits are rounded to a binary64 number first, and that number is then
multiplied or divided by a power of ten, itself rounded. Most numerals come out
as the nearest number all the same; a few with seventeen digits or far-off
exponents come out one step beside it.

Writing uses the shortest digits, in positional notation from 0.00001 up to
below 10^16 and with an exponent outside.
-/

namespace Workbench

/-- The integers of signed and unsigned 64-bit words. -/
def Number.IsWord (n : Int) : Prop :=
  -9223372036854775808 ≤ n ∧ n < 18446744073709551616

instance (n : Int) : Decidable (Number.IsWord n) :=
  inferInstanceAs (Decidable (_ ∧ _))

/-- A JSON number. -/
inductive Number
  | int (value : Int) (range : Number.IsWord value)
  | float (value : Binary64)
deriving DecidableEq

instance : Inhabited Number := ⟨.int 0 (by decide)⟩

/-- A numeral as it is spelt: sign, whole digits, and the digits of the fraction
and the exponent where there are any. -/
structure Numeral where
  negative : Bool
  whole : List Nat
  fraction : Option (List Nat)
  exponent : Option (Bool × List Nat)
deriving DecidableEq

namespace Numeral

/-- The value of the digits, or `none` once it reaches `bound`. -/
def bounded? (bound : Nat) : List Nat → Nat → Option Nat
  | [], value => some value
  | d :: rest, value =>
      if value * 10 + d < bound then bounded? bound rest (value * 10 + d)
      else none

/-- Digits taken into a significand of 64 bits, with the count of those that no
longer fit. -/
def gather : List Nat → Nat → Nat × Nat
  | [], value => (value, 0)
  | d :: rest, value =>
      if value * 10 + d < UInt64.size then gather rest (value * 10 + d)
      else (value, rest.length + 1)

/-- The power of ten `10 ^ k` rounded to binary64, for `k` up to 308. -/
def powerOfTen (k : Nat) : Binary64 :=
  (Binary64.ofRatio? false (Nat.pow 10 k) 1).getD default

/-- The places of the largest power of ten that is binary64. -/
def widestStep : Nat := 308

/-- `x` times `10 ^ exponent`, in steps of at most 308 places; `none` if it
grows too large. -/
def scale? (x : Binary64) (exponent : Int) : Option Binary64 :=
  if exponent.natAbs ≤ widestStep then
    if 0 ≤ exponent then x.mul? (powerOfTen exponent.toNat)
    else x.div? (powerOfTen exponent.natAbs)
  else if x.isZero then some x
  else if 0 ≤ exponent then none
  else (x.div? (powerOfTen widestStep)).bind fun y =>
    scale? y (exponent + widestStep)
termination_by exponent.natAbs
decreasing_by simp only [widestStep] at *; omega

/-- The binary64 number for a significand and a power of ten. -/
def float? (negative : Bool) (significand : Nat) (exponent : Int) :
    Option Number :=
  match Binary64.ofRatio? false significand 1 with
  | none => none
  | some x =>
      match scale? x exponent with
      | none => none
      | some y => some (.float { y with negative })

/-- The number for whole digits alone: an integer if a 64-bit word holds it. -/
def integer? (negative : Bool) (value : Nat) : Option Number :=
  let n : Int := if negative then -value else value
  if h : Number.IsWord n ∧ (negative = true → value ≠ 0) then some (.int n h.1)
  else float? negative value 0

/-- The number a numeral stands for, or `none` if its magnitude is out of
range. -/
def number? (n : Numeral) : Option Number :=
  let (whole, dropped) := gather n.whole 0
  match n.fraction, n.exponent, dropped with
  | none, none, 0 => integer? n.negative whole
  | fraction, exponent, _ =>
      let digits := fraction.getD []
      let (significand, beyond) := gather digits whole
      let point : Int := (dropped : Int) - (digits.length - beyond : Nat)
      match exponent with
      | none => float? n.negative significand point
      | some (below, power) =>
          match bounded? 2147483648 power 0 with
          | some k =>
              float? n.negative significand
                (if below then point - k else point + k)
          | none =>
              -- An exponent beyond 31 bits leaves zero, whatever the other
              -- digits.
              if significand ≠ 0 ∧ below = false then none
              else some (.float (.zero n.negative))

end Numeral

namespace Number

/-- Digits in positional notation or with an exponent. The value is
`0.digits * 10 ^ point`. -/
def layout (digits : List Char) (point : Int) : List Char :=
  if -4 ≤ point ∧ point ≤ 16 then
    if point ≤ 0 then '0' :: '.' :: List.replicate (-point).toNat '0' ++ digits
    else if digits.length ≤ point.toNat then
      digits ++ List.replicate (point.toNat - digits.length) '0' ++ ['.', '0']
    else digits.take point.toNat ++ '.' :: digits.drop point.toNat
  else
    let mantissa :=
      match digits with
      | first :: second :: rest => first :: '.' :: second :: rest
      | few => few
    let power := point - 1
    mantissa ++ 'e' :: (if power < 0 then '-' else '+') ::
      Nat.toDigits 10 power.natAbs

/-- The shortest text of a binary64 number. -/
def floatText (x : Binary64) : List Char :=
  let d := x.shortest
  let digits := Nat.toDigits 10 d.digits
  let body := if x.isZero then ['0', '.', '0']
    else layout digits (digits.length + d.exponent)
  if x.negative then '-' :: body else body

/-- The text of a number. -/
def text : Number → List Char
  | int n _ =>
      if n < 0 then '-' :: Nat.toDigits 10 n.natAbs
      else Nat.toDigits 10 n.natAbs
  | float x => floatText x

/-- Equality by value within each kind: the two zeros of binary64 are the
same. -/
def sameValue : Number → Number → Bool
  | int m _, int n _ => m == n
  | float x, float y => x.sameValue y
  | _, _ => false

/-- The number as binary64; an integer is rounded. -/
def float? : Number → Option Binary64
  | int n _ => Binary64.ofInt? n
  | float x => some x

end Number

end Workbench
