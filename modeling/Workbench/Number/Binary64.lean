/-!
# Finite binary64 numbers

A finite binary64 number is a sign, a mantissa of at most 53 bits and an
exponent of two. The exponent is as small as it can be without pushing the
mantissa past 53 bits, or it has reached the floor of -1074; so every number has
exactly one such form and equality of the parts is equality of numbers, the two
zeros apart.

Arithmetic goes through `ofRatio?`: the exact quotient is formed in natural
numbers and rounded once, to the nearest mantissa and on a tie to the even one.
The only way to fail is to be too large.
-/

namespace Workbench

/-- A quotient rounded to the nearest natural number, a tie going to the even
neighbour. -/
def roundQuotient (num den : Nat) : Nat :=
  let below := num / den
  let rest := num % den
  if 2 * rest < den then below
  else if den < 2 * rest then below + 1
  else below + below % 2

/-- The first number of more than 53 bits; every mantissa is below it. -/
def Binary64.mantissaBound : Nat := 9007199254740992

/-- Mantissa and exponent are in range, and the exponent is the least that suits
the mantissa. -/
def Binary64.Normal (mantissa : Nat) (exponent : Int) : Prop :=
  mantissa < mantissaBound ∧ -1074 ≤ exponent ∧ exponent ≤ 971 ∧
    (mantissaBound ≤ 2 * mantissa ∨ exponent = -1074)

instance (mantissa : Nat) (exponent : Int) :
    Decidable (Binary64.Normal mantissa exponent) :=
  inferInstanceAs (Decidable (_ ∧ _ ∧ _ ∧ _))

/-- A finite binary64 number: `mantissa * 2 ^ exponent`, negated if
`negative`. -/
structure Binary64 where
  negative : Bool
  mantissa : Nat
  exponent : Int
  normal : Binary64.Normal mantissa exponent
deriving DecidableEq

namespace Binary64

/-- Zero with the given sign. -/
def zero (negative : Bool) : Binary64 := ⟨negative, 0, -1074, by decide⟩

instance : Inhabited Binary64 := ⟨zero false⟩

def isZero (x : Binary64) : Bool := x.mantissa == 0

def neg (x : Binary64) : Binary64 := { x with negative := !x.negative }

/-- The magnitude as an exact fraction with a power of two below. -/
def ratio (x : Binary64) : Nat × Nat :=
  if 0 ≤ x.exponent then (x.mantissa * Nat.pow 2 x.exponent.toNat, 1)
  else (x.mantissa, Nat.pow 2 (-x.exponent).toNat)

/-- The fraction `num / den` counted in units of `2 ^ exponent`, as a fraction
again. -/
def inUnits (num den : Nat) (exponent : Int) : Nat × Nat :=
  if 0 ≤ exponent then (num, den * Nat.pow 2 exponent.toNat)
  else (num * Nat.pow 2 (-exponent).toNat, den)

/-- The exponent at which a positive fraction has a mantissa of 53 bits, or the
floor. -/
def unitExponent (num den : Nat) : Int :=
  let low := max ((Nat.log2 num : Int) - Nat.log2 den - 53) (-1074)
  let (n, d) := inUnits num den low
  if n / d < mantissaBound then low else low + 1

/-- The number nearest to `num / den`, or `none` if that lies beyond the largest
finite one. -/
def ofRatio? (negative : Bool) (num den : Nat) : Option Binary64 :=
  if num = 0 then some (zero negative) else
  let exponent := unitExponent num den
  let (n, d) := inUnits num den exponent
  let mantissa := roundQuotient n d
  -- Rounding up to the bound gives the first number of the next binade.
  let (m, e) :=
    if mantissa = mantissaBound then (mantissaBound / 2, exponent + 1)
    else (mantissa, exponent)
  if h : Normal m e then some ⟨negative, m, e, h⟩ else none

def ofInt? (n : Int) : Option Binary64 := ofRatio? (decide (n < 0)) n.natAbs 1

/-- The product, rounded once. -/
def mul? (x y : Binary64) : Option Binary64 :=
  let (a, b) := x.ratio
  let (c, d) := y.ratio
  ofRatio? (x.negative != y.negative) (a * c) (b * d)

/-- The quotient by a number that is not zero, rounded once. -/
def div? (x y : Binary64) : Option Binary64 :=
  let (a, b) := x.ratio
  let (c, d) := y.ratio
  ofRatio? (x.negative != y.negative) (a * d) (b * c)

/-- Comparison by value: the two zeros are the same value. -/
def sameValue (x y : Binary64) : Bool := x == y || (x.isZero && y.isZero)

end Binary64

end Workbench
