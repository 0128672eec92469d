/-!
# Durations

Spans of time, exact to the nanosecond. In text a duration is counted in the
largest unit of which it holds at least one, with as many decimals as it takes.
-/

namespace Workbench

structure Duration where
  nanoseconds : Nat
deriving DecidableEq, Repr

namespace Duration

def ofSeconds (n : Nat) : Duration := ⟨n * 1000000000⟩

def ofMilliseconds (n : Nat) : Duration := ⟨n * 1000000⟩

instance : LE Duration := ⟨fun a b => a.nanoseconds ≤ b.nanoseconds⟩

instance (a b : Duration) : Decidable (a ≤ b) :=
  inferInstanceAs (Decidable (a.nanoseconds ≤ b.nanoseconds))

/-- The digits of a fraction of so many places, without the zeros at its end. -/
def decimals (places fraction : Nat) : List Char :=
  let digits := Nat.toDigits 10 fraction
  let padded := List.replicate (places - digits.length) '0' ++ digits
  (padded.reverse.dropWhile (· == '0')).reverse

/-- A count of nanoseconds in a unit of `10 ^ places` of them. -/
def inUnit (places : Nat) (name : String) (n : Nat) : String :=
  let fraction := decimals places (n % Nat.pow 10 places)
  toString (n / Nat.pow 10 places) ++
    (if fraction.isEmpty then "" else "." ++ String.ofList fraction) ++ name

/-- The duration in its largest unit. -/
def text (d : Duration) : String :=
  if 1000000000 ≤ d.nanoseconds then inUnit 9 "s" d.nanoseconds
  else if 1000000 ≤ d.nanoseconds then inUnit 6 "ms" d.nanoseconds
  else if 1000 ≤ d.nanoseconds then inUnit 3 "µs" d.nanoseconds
  else inUnit 0 "ns" d.nanoseconds

end Duration

end Workbench
