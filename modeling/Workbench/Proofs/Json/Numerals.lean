import Mathlib.Data.List.TakeWhile
import Workbench.Json.Lexeme

/-!
# A written number reads back

A numeral ends where the text goes on with something that cannot belong to it,
so it is read as it is when nothing follows: `numeral_append`. What it stands
for is known for the integers, digit by digit. For binary64 it is left open
whether the digits that are written are read back to the same number
(`Number.ReadsBack`): reading rounds more than once, and there are numbers that
come out one step beside themselves.
-/

namespace Workbench

/-- Two steps in sequence succeed if each of them does. -/
theorem bind_eq_ok_iff {ε α β : Type} {first : Except ε α}
    {next : α → Except ε β} {b : β} :
    (first >>= next) = .ok b ↔ ∃ a, first = .ok a ∧ next a = .ok b := by
  cases first with
  | error fault => exact ⟨nofun, nofun⟩
  | ok a => exact ⟨fun h => ⟨a, rfl, h⟩, fun ⟨_, ha, h⟩ => Except.ok.inj ha ▸ h⟩

namespace Text

/-- A numeral does not go on here. -/
def Ends (rest : List Char) : Prop :=
  ∀ c, rest.head? = some c → isDigit c = false ∧ c ≠ '.' ∧ c ≠ 'e' ∧ c ≠ 'E'

variable {cs rest after : List Char}

theorem digits_append (h : ∀ c, rest.head? = some c → isDigit c = false) :
    digits (cs ++ rest) = ((digits cs).1, (digits cs).2 ++ rest) := by
  have hrest : rest.takeWhile isDigit = [] ∧ rest.dropWhile isDigit = rest := by
    cases rest with
    | nil => exact ⟨rfl, rfl⟩
    | cons c rest =>
        have hc := h c rfl
        simp [hc]
  induction cs with
  | nil => simp [digits, hrest]
  | cons c cs ih =>
      simp only [digits, Prod.mk.injEq] at ih ⊢
      cases hc : isDigit c with
      | true => simp [hc, ih]
      | false => simp [hc]

theorem wholeDigits_append {ds : List Nat} (hrest : Ends rest)
    (h : wholeDigits cs = .ok (ds, after)) :
    wholeDigits (cs ++ rest) = .ok (ds, after ++ rest) := by
  unfold wholeDigits at h ⊢
  rw [digits_append fun c hc => (hrest c hc).1]
  rcases hdigits : digits cs with ⟨_ | ⟨d, ds'⟩, after'⟩
  · simp [hdigits] at h
  · rw [hdigits] at h
    dsimp only at h ⊢
    split at h <;> simp_all

theorem fraction_of_no_point (h : ∀ tail, cs ≠ '.' :: tail) :
    fraction cs = .ok (none, cs) := by
  rw [fraction]
  exact h

theorem fraction_append {ds : Option (List Nat)} (hrest : Ends rest)
    (h : fraction cs = .ok (ds, after)) :
    fraction (cs ++ rest) = .ok (ds, after ++ rest) := by
  by_cases hpoint : ∃ tail, cs = '.' :: tail
  · obtain ⟨tail, rfl⟩ := hpoint
    rw [fraction] at h
    rw [List.cons_append, fraction, digits_append fun c hc => (hrest c hc).1]
    rcases hdigits : digits tail with ⟨_ | ⟨d, ds'⟩, after'⟩
    · simp [hdigits] at h
    · rw [hdigits] at h
      cases h
      rfl
  · have hnone : ∀ tail, cs ≠ '.' :: tail := fun tail heq => hpoint ⟨tail, heq⟩
    rw [fraction_of_no_point hnone] at h
    cases h
    refine fraction_of_no_point fun tail heq => ?_
    cases cs with
    | nil =>
        rw [List.nil_append] at heq
        exact (hrest '.' (heq ▸ rfl)).2.1 rfl
    | cons c cs =>
        obtain ⟨rfl, -⟩ := List.cons.inj heq
        exact hnone cs rfl

theorem exponentSign_append (h : cs ≠ []) :
    exponentSign (cs ++ rest) =
      ((exponentSign cs).1, (exponentSign cs).2 ++ rest) := by
  cases cs with
  | nil => exact absurd rfl h
  | cons c cs =>
      by_cases hplus : c = '+'
      · subst hplus
        rfl
      by_cases hminus : c = '-'
      · subst hminus
        rfl
      simp [exponentSign, hplus, hminus]

theorem exponent_append {e : Option (Bool × List Nat)} (hrest : Ends rest)
    (h : exponent cs = .ok (e, after)) :
    exponent (cs ++ rest) = .ok (e, after ++ rest) := by
  cases cs with
  | nil =>
      cases h
      cases rest with
      | nil => rfl
      | cons c rest =>
          obtain ⟨-, -, he, hE⟩ := hrest c rfl
          simp [exponent, he, hE]
  | cons c cs =>
      rw [exponent] at h
      rw [List.cons_append, exponent]
      split
      · next he =>
          rw [if_pos he] at h
          have hne : cs ≠ [] := by
            rintro rfl
            simp [exponentSign, digits] at h
          rw [exponentSign_append hne]
          dsimp only at h ⊢
          rw [digits_append fun c hc => (hrest c hc).1]
          rcases hdigits : digits (exponentSign cs).2
            with ⟨_ | ⟨d, ds'⟩, after'⟩
          · simp [hdigits] at h
          · rw [hdigits] at h
            cases h
            rfl
      · next he =>
          rw [if_neg he] at h
          cases h
          rfl

/-! ## The whole numeral -/

/-- A numeral after its sign. -/
def unsigned (negative : Bool) (cs : List Char) :
    Except (Lexeme Number) (Numeral × List Char) := do
  let (whole, rest) ← wholeDigits cs
  let (fraction, rest) ← fraction rest
  let (exponent, rest) ← exponent rest
  return (⟨negative, whole, fraction, exponent⟩, rest)

theorem numeral_minus (cs : List Char) :
    numeral ('-' :: cs) = unsigned true cs :=
  rfl

theorem numeral_of_no_minus (h : ∀ tail, cs ≠ '-' :: tail) :
    numeral cs = unsigned false cs := by
  unfold numeral
  split
  next hsign =>
    split at hsign
    · next tail => exact absurd rfl (h tail)
    · cases hsign
      rfl

theorem unsigned_append {negative : Bool} {n : Numeral} (hrest : Ends rest)
    (h : unsigned negative cs = .ok (n, after)) :
    unsigned negative (cs ++ rest) = .ok (n, after ++ rest) := by
  obtain ⟨⟨whole, r₁⟩, hwhole, h⟩ := bind_eq_ok_iff.1 h
  obtain ⟨⟨part, r₂⟩, hfraction, h⟩ := bind_eq_ok_iff.1 h
  obtain ⟨⟨power, r₃⟩, hexponent, h⟩ := bind_eq_ok_iff.1 h
  cases h
  refine bind_eq_ok_iff.2 ⟨_, wholeDigits_append hrest hwhole, ?_⟩
  refine bind_eq_ok_iff.2 ⟨_, fraction_append hrest hfraction, ?_⟩
  exact bind_eq_ok_iff.2 ⟨_, exponent_append hrest hexponent, rfl⟩

theorem unsigned_nil (negative : Bool) :
    ∀ result, unsigned negative [] ≠ .ok result :=
  nofun

theorem numeral_append {n : Numeral} (hrest : Ends rest)
    (h : numeral cs = .ok (n, after)) :
    numeral (cs ++ rest) = .ok (n, after ++ rest) := by
  by_cases hminus : ∃ tail, cs = '-' :: tail
  · obtain ⟨tail, rfl⟩ := hminus
    exact unsigned_append hrest h
  · have hnone : ∀ tail, cs ≠ '-' :: tail := fun tail heq => hminus ⟨tail, heq⟩
    rw [numeral_of_no_minus hnone] at h
    rw [numeral_of_no_minus]
    · exact unsigned_append hrest h
    · intro tail heq
      cases cs with
      | nil => exact unsigned_nil _ _ h
      | cons c cs =>
          obtain ⟨rfl, -⟩ := List.cons.inj heq
          exact hnone cs rfl

/-- A numeral starts with a sign or a digit. -/
theorem head_of_numeral {n : Numeral} (h : numeral cs = .ok (n, after)) :
    ∃ c tail, cs = c :: tail ∧ (c = '-' ∨ isDigit c = true) := by
  cases cs with
  | nil => exact absurd h (unsigned_nil false _)
  | cons c cs =>
      refine ⟨c, cs, rfl, ?_⟩
      by_cases hminus : c = '-'
      · exact .inl hminus
      · cases hdigit : isDigit c with
        | true => exact .inr rfl
        | false =>
            rw [numeral_of_no_minus fun tail heq =>
              hminus (List.cons.inj heq).1] at h
            simp [unsigned, wholeDigits, digits, hdigit, bind, Except.bind] at h

/-! ## Integers -/

theorem isDigit_of_mem_toDigits {n : Nat} {c : Char}
    (h : c ∈ Nat.toDigits 10 n) : isDigit c = true := by
  have hdigit := Nat.isDigit_of_mem_toDigits (by decide) (by decide) h
  have hrange : 48 ≤ c.val ∧ c.val ≤ 57 := by simpa [Char.isDigit] using hdigit
  rw [isDigit, Bool.and_eq_true, decide_eq_true_iff, decide_eq_true_iff]
  exact hrange

theorem digits_toDigits (n : Nat) :
    digits (Nat.toDigits 10 n) = ((Nat.toDigits 10 n).map digitValue, []) := by
  have hall : ∀ c ∈ Nat.toDigits 10 n, isDigit c = true :=
    fun _ => isDigit_of_mem_toDigits
  rw [digits, List.takeWhile_eq_self_iff.2 hall,
    List.dropWhile_eq_nil_iff.2 hall]

/-- The digits of a number that is not zero do not begin with a zero. -/
theorem digitValue_head_toDigits {n : Nat} (hn : 0 < n) {c : Char}
    (hc : (Nat.toDigits 10 n).head? = some c) : digitValue c ≠ 0 := by
  induction n using Nat.strongRecOn with
  | _ n ih =>
      rw [Nat.toDigits_eq_if (by decide)] at hc
      split at hc
      · next hlt =>
          obtain rfl : n.digitChar = c := by simpa using hc
          have hall : ∀ k : Fin 10, 0 < k.val →
              digitValue (Nat.digitChar k) ≠ 0 := by decide
          exact hall ⟨n, hlt⟩ hn
      · rw [List.head?_append, Option.or_of_isSome] at hc
        · exact ih (n / 10) (by omega) (by omega) hc
        · simp

/-- A zero comes first only by itself. -/
theorem wholeDigits_toDigits (n : Nat) :
    wholeDigits (Nat.toDigits 10 n) =
      .ok ((Nat.toDigits 10 n).map digitValue, []) := by
  cases n with
  | zero => rfl
  | succ n =>
      unfold wholeDigits
      rw [digits_toDigits]
      cases hdigits : Nat.toDigits 10 (n + 1) with
      | nil => exact absurd hdigits Nat.toDigits_ne_nil
      | cons c cs =>
          have hc : digitValue c ≠ 0 :=
            digitValue_head_toDigits (Nat.succ_pos n) (hdigits ▸ rfl)
          rw [List.map_cons]
          split <;> simp_all

theorem le_ofDigitChars (cs : List Char) (value : Nat) :
    value ≤ Nat.ofDigitChars 10 cs value := by
  induction cs generalizing value with
  | nil => exact Nat.le_refl value
  | cons c cs ih =>
      rw [Nat.ofDigitChars_cons]
      exact Nat.le_trans (by omega) (ih _)

theorem gather_map_digitValue {cs : List Char} {value : Nat}
    (h : Nat.ofDigitChars 10 cs value < UInt64.size) :
    Numeral.gather (cs.map digitValue) value =
      (Nat.ofDigitChars 10 cs value, 0) := by
  induction cs generalizing value with
  | nil => rfl
  | cons c cs ih =>
      rw [Nat.ofDigitChars_cons, Nat.mul_comm] at h ⊢
      have hle := le_ofDigitChars cs (value * 10 + (c.toNat - '0'.toNat))
      have hfits : value * 10 + digitValue c < UInt64.size :=
        Nat.lt_of_le_of_lt hle h
      rw [List.map_cons, Numeral.gather, if_pos hfits]
      exact ih h

theorem gather_toDigits {n : Nat} (h : n < UInt64.size) :
    Numeral.gather ((Nat.toDigits 10 n).map digitValue) 0 = (n, 0) := by
  have hvalue : Nat.ofDigitChars 10 (Nat.toDigits 10 n) 0 = n :=
    Nat.ofDigitChars_toDigits (by decide) (by decide)
  rw [gather_map_digitValue (by rwa [hvalue]), hvalue]

theorem unsigned_toDigits (negative : Bool) (n : Nat) :
    unsigned negative (Nat.toDigits 10 n) =
      .ok (⟨negative, (Nat.toDigits 10 n).map digitValue, none, none⟩, []) := by
  rw [unsigned, wholeDigits_toDigits]
  rfl

theorem numeral_toDigits (n : Nat) :
    numeral (Nat.toDigits 10 n) =
      .ok (⟨false, (Nat.toDigits 10 n).map digitValue, none, none⟩, []) := by
  rw [numeral_of_no_minus, unsigned_toDigits]
  intro tail heq
  have hminus : isDigit '-' = true :=
    isDigit_of_mem_toDigits (n := n) (heq ▸ List.mem_cons_self ..)
  exact absurd hminus (by decide)

end Text

namespace Number

/-- The number that the text of a number is read as. -/
def readBack? (number : Number) : Option Number :=
  match Text.numeral number.text with
  | .ok (n, []) => n.number?
  | _ => none

/-- The number is written so that it comes back. -/
def ReadsBack (number : Number) : Prop := number.readBack? = some number

instance (number : Number) : Decidable number.ReadsBack :=
  inferInstanceAs (Decidable (_ = _))

theorem ReadsBack.numeral {number : Number} (h : number.ReadsBack) :
    ∃ n : Numeral,
      Text.numeral number.text = .ok (n, []) ∧ n.number? = some number := by
  unfold ReadsBack readBack? at h
  split at h
  · next n hn => exact ⟨n, hn, h⟩
  · cases h

theorem readsBack_int (n : Int) (range : IsWord n) :
    (int n range).ReadsBack := by
  have hsize : n.natAbs < UInt64.size := by
    obtain ⟨hlow, hhigh⟩ := range
    simp only [UInt64.size]
    omega
  have hgather := Text.gather_toDigits hsize
  by_cases hneg : n < 0
  · have htext : (int n range).text = '-' :: Nat.toDigits 10 n.natAbs :=
      if_pos hneg
    have hvalue : -(n.natAbs : Int) = n := by omega
    rw [ReadsBack, readBack?, htext, Text.numeral_minus, Text.unsigned_toDigits]
    simp only [Numeral.number?, hgather, Numeral.integer?, if_true, hvalue]
    rw [dif_pos ⟨range, fun _ => by omega⟩]
  · have htext : (int n range).text = Nat.toDigits 10 n.natAbs := if_neg hneg
    have hvalue : (n.natAbs : Int) = n := by omega
    rw [ReadsBack, readBack?, htext, Text.numeral_toDigits]
    simp only [Numeral.number?, hgather, Numeral.integer?, Bool.false_eq_true,
      if_false, hvalue]
    rw [dif_pos ⟨range, nofun⟩]

end Number

end Workbench
