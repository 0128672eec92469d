import Workbench.Number.Binary64

/-!
# The shortest decimal of a binary64 number

Many decimals round to a given binary64 number. The one written has the fewest
significant digits, and of those with equally few the one nearest to the number
itself.

Digits are tried one after another: on the grid of decimals with one digit, with
two, and so on up to seventeen. If any point of a grid rounds to the number then
so does one of the two grid points around it, so only these two are looked at.
Seventeen digits always suffice.
-/

namespace Workbench

/-- The decimal `digits * 10 ^ exponent`. -/
structure Decimal where
  digits : Nat
  exponent : Int
deriving DecidableEq, Repr

namespace Decimal

/-- The decimal as an exact fraction. -/
def ratio (d : Decimal) : Nat × Nat :=
  if 0 ≤ d.exponent then (d.digits * Nat.pow 10 d.exponent.toNat, 1)
  else (d.digits, Nat.pow 10 (-d.exponent).toNat)

/-- The same decimal without trailing zeros in its digits. -/
def trim (d : Decimal) : Decimal :=
  if d.digits ≠ 0 ∧ d.digits % 10 = 0 then trim ⟨d.digits / 10, d.exponent + 1⟩
  else d
termination_by d.digits

/-- The binary64 number nearest to the decimal. -/
def nearest? (negative : Bool) (d : Decimal) : Option Binary64 :=
  Binary64.ofRatio? negative d.ratio.1 d.ratio.2

/-- Whether `10 ^ position` is at most `num / den`. -/
def reaches (num den : Nat) (position : Int) : Bool :=
  if 0 ≤ position then decide (den * Nat.pow 10 position.toNat ≤ num)
  else decide (den ≤ num * Nat.pow 10 (-position).toNat)

/-- The least `position + k` with `k ≤ tries` whose power of ten exceeds
`num / den`. -/
def climb (num den : Nat) : Nat → Int → Int
  | 0, position => position
  | tries + 1, position =>
      if reaches num den position then climb num den tries (position + 1)
      else position

/-- Where the decimal point of a positive fraction stands: `num / den` is below
`10 ^ position` and not below a tenth of it. The binary logarithms give a first
guess that is never too high. -/
def pointPosition (num den : Nat) : Int :=
  let bits : Int := (Nat.log2 num : Int) - Nat.log2 den
  climb num den 4 ((bits * 30103).fdiv 100000 - 1)

/-- The two points around `num / den` on the grid of multiples of
`10 ^ exponent`, the nearer one first; of two equally near, the one with the
even last digit. -/
def around (num den : Nat) (exponent : Int) : Decimal × Decimal :=
  let (n, d) :=
    if 0 ≤ exponent then (num, den * Nat.pow 10 exponent.toNat)
    else (num * Nat.pow 10 (-exponent).toNat, den)
  let below : Decimal := ⟨n / d, exponent⟩
  let above : Decimal := ⟨n / d + 1, exponent⟩
  if roundQuotient n d = n / d then (below, above) else (above, below)

end Decimal

namespace Binary64

/-- A point that rounds to `x` on the first grid that has one, from `count`
digits on. -/
def shortestFrom (x : Binary64) (position : Int) :
    (tries count : Nat) → Option Decimal
  | 0, _ => none
  | tries + 1, count =>
      let (near, far) := Decimal.around x.ratio.1 x.ratio.2 (position - count)
      if near.nearest? x.negative = some x then some near
      else if far.nearest? x.negative = some x then some far
      else shortestFrom x position tries (count + 1)

/-- The shortest decimal that rounds to the magnitude of `x`. -/
def shortest (x : Binary64) : Decimal :=
  if x.isZero then ⟨0, 0⟩
  else
    let position := Decimal.pointPosition x.ratio.1 x.ratio.2
    ((shortestFrom x position 17 1).getD ⟨x.ratio.1 / x.ratio.2, 0⟩).trim

end Binary64

end Workbench
