import Mathlib.Data.List.Forall2
import Workbench.Json.Lexeme
import Workbench.Json.Render

/-!
# A written string reads back

A string is written character by character, and what is written for a character
is read as one piece, whatever follows. The piece is the character itself or,
for the control characters that have no letter of their own, a code unit. A code
unit so small is no surrogate, so the pieces can be put together one by one.
-/

namespace Workbench

namespace Text

/-- The piece stands for the character by itself. -/
def Piece.Spells (piece : Piece) (c : Char) : Prop :=
  piece = .char c ∨ piece = .unit c.toNat ∧ c.toNat < 0x20

theorem hexUnit?_control {n : Nat} (h : n < 0x20) :
    hexUnit? '0' '0' (hexChar (lastHexDigit (n / 16)))
      (hexChar (lastHexDigit n)) = some n := by
  have hzero : hexDigit? '0' = some 0 := hexDigit?_hexChar 0
  simp only [hexUnit?, hzero, hexDigit?_hexChar, Option.bind_eq_bind,
    Option.bind_some, Option.pure_def, Option.some.injEq, lastHexDigit]
  have : n / 16 % 16 = n / 16 := by omega
  have hfirst : ((0 : Fin 16) : Nat) = 0 := rfl
  omega

/-- A character that needs no escape is read as it stands. -/
theorem stringBody_plain {c : Char} {tail : List Char} (hquote : c ≠ '"')
    (hslash : c ≠ '\\') (hcontrol : ¬ c.toNat < 0x20) :
    stringBody (c :: tail) = (stringBody tail).push (.char c) := by
  rw [stringBody, if_neg hcontrol]
  · exact hquote
  · exact fun h _ => hslash h
  · exact fun _ _ _ _ _ h _ => hslash h
  · exact fun _ h _ => hslash h
  · exact fun _ _ h _ => hslash h

theorem stringBody_escape (c : Char) (tail : List Char) :
    ∃ piece : Piece, piece.Spells c ∧
      stringBody (Json.escape c ++ tail) = (stringBody tail).push piece := by
  unfold Json.escape
  -- Seven characters have a letter of their own.
  iterate 7
    split
    · exact ⟨.char c, .inl rfl, by subst c; simp [stringBody, escaped?]⟩
  split
  · next h =>
      refine ⟨.unit c.toNat, .inr ⟨rfl, h⟩, ?_⟩
      simp only [List.cons_append, List.nil_append]
      rw [stringBody, hexUnit?_control h]
  · next hquote hslash _ _ _ _ _ hcontrol =>
      exact ⟨.char c, .inl rfl, stringBody_plain hquote hslash hcontrol⟩

/-- The body of a written string ends at its quotation mark, and its pieces are
its characters. -/
theorem stringBody_written (cs rest : List Char) :
    ∃ pieces : List Piece, List.Forall₂ Piece.Spells pieces cs ∧
      stringBody (cs.flatMap Json.escape ++ '"' :: rest) =
        ⟨pieces, .closed, rest⟩ := by
  induction cs with
  | nil =>
      exact ⟨[], .nil, by rw [List.flatMap_nil, List.nil_append, stringBody]⟩
  | cons c cs ih =>
      obtain ⟨pieces, hpieces, hbody⟩ := ih
      obtain ⟨piece, hpiece, hescape⟩ :=
        stringBody_escape c (cs.flatMap Json.escape ++ '"' :: rest)
      refine ⟨piece :: pieces, .cons hpiece hpieces, ?_⟩
      rw [List.flatMap_cons, List.append_assoc, hescape, hbody]
      rfl

/-- A code unit that is no surrogate is a character by itself, whatever comes
after it. -/
theorem assemble_unit {n : Nat} (h : n < 0xD800) (stop : StringEnd)
    (pieces : List Piece) :
    assemble stop (.unit n :: pieces) =
      (assemble stop pieces).map (Char.ofNat n :: ·) := by
  have hhigh : isHighSurrogate n = false := by simp [isHighSurrogate]; omega
  have hlow : isLowSurrogate n = false := by simp [isLowSurrogate]; omega
  rcases pieces with _ | ⟨_ | _, rest⟩
  · simp only [assemble, hhigh, hlow]
    cases stop <;> rfl
  · simp only [assemble, hhigh, hlow]
    cases assemble stop rest <;> rfl
  · simp only [assemble, hhigh, hlow]
    rfl

theorem assemble_of_spells {pieces : List Piece} {cs : List Char}
    (h : List.Forall₂ Piece.Spells pieces cs) :
    assemble .closed pieces = .ok cs := by
  induction h with
  | nil => rfl
  | @cons piece c pieces cs hpiece _ ih =>
      rcases hpiece with rfl | ⟨rfl, hcontrol⟩
      · rw [assemble, ih]
        rfl
      · rw [assemble_unit (by omega), ih, Char.ofNat_toNat]
        rfl

/-- What follows the opening quotation mark of a written string is read as that
string. -/
theorem stringLexeme_written (s : String) (rest : List Char) :
    let body := stringBody (s.toList.flatMap Json.escape ++ '"' :: rest)
    stringLexeme body = .sound s ∧ body.stop = .closed ∧ body.rest = rest := by
  obtain ⟨pieces, hpieces, hbody⟩ := stringBody_written s.toList rest
  simp only [hbody, stringLexeme, assemble_of_spells hpieces, Except.map,
    String.ofList_toList]
  exact ⟨rfl, trivial, trivial⟩

end Text

end Workbench
