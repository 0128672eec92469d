import Workbench.Json.Tree

/-!
# From text to tree

`Text.scan` lays out a JSON text as a tree. Each step takes a value, the items
of an array or the members of an object off the front of the text and says what
is left, which is always shorter than what was there; nothing is left after a
fault of grammar.
-/

namespace Workbench.Text

/-- What follows in a text after a part of it: less than all, or nothing that
could be read. -/
abbrev After (cs : List Char) :=
  Option { rest : List Char // rest.length < cs.length }

/-- What follows in a shorter text follows in the longer one too. -/
def After.widen {cs ds : List Char} (h : cs.length ≤ ds.length)
    (after : After cs) : After ds :=
  after.map fun rest => ⟨rest.1, Nat.lt_of_lt_of_le rest.2 h⟩

/-- A leaf that starts with a letter, a digit, a sign or no known character. -/
def leaf (c : Char) (cs : List Char) : Tree × After (c :: cs) :=
  match Word.startingWith? c with
  | some word =>
      match h : expectLetters word.letters.tail cs with
      | .ok rest =>
          (.word word (.ok ()), some ⟨rest,
            Nat.lt_succ_of_le (length_le_of_expectLetters h)⟩)
      | .error fault => (.word word (.error fault), none)
  | none =>
      if c = '-' || isDigit c then
        match numeral (c :: cs) with
        | .ok (n, rest) =>
            (.number (numberLexeme n),
              if h : rest.length < (c :: cs).length then some ⟨rest, h⟩
              else none)
        | .error lexeme => (.number lexeme, none)
      else (.junk, none)

/-- A string whose opening quotation mark has been taken. -/
def string (cs : List Char) : Lexeme String × After ('"' :: cs) :=
  let body := stringBody cs
  (stringLexeme body,
    match body.stop with
    | .closed => some ⟨body.rest, Nat.lt_succ_of_le (length_stringBody_le cs)⟩
    | _ => none)

mutual

/-- The value at the start of the text. -/
def value (cs : List Char) : Tree × After cs :=
  match h : dropBlanks cs with
  | [] => (.missing, none)
  | c :: rest =>
      have le : (c :: rest).length ≤ cs.length := h ▸ length_dropBlanks_le cs
      if c = '[' then
        let (items, after) := items true rest
        (.array items, after.widen (Nat.le_of_succ_le le))
      else if c = '{' then
        let (members, after) := members true rest
        (.object members, after.widen (Nat.le_of_succ_le le))
      else if c = '"' then
        let (lexeme, after) := string rest
        (.string lexeme, after.widen le)
      else
        let (tree, after) := leaf c rest
        (tree, after.widen le)
termination_by 3 * cs.length
decreasing_by all_goals (simp only [List.length_cons] at *; omega)

/-- The items of an array; the first one needs no comma before it. -/
def items (first : Bool) (cs : List Char) : Items × After cs :=
  match h : dropBlanks cs with
  | [] => (.stop .cut, none)
  | c :: rest =>
      have le : (c :: rest).length ≤ cs.length := h ▸ length_dropBlanks_le cs
      if c = ']' then (.stop .closed, some ⟨rest, le⟩)
      else if first then
        let (items, after) := item (c :: rest)
        (items, after.widen le)
      else if c = ',' then
        match h' : dropBlanks rest with
        | ']' :: _ => (.stop .trailingComma, none)
        | next =>
            have le' : next.length ≤ rest.length :=
              h' ▸ length_dropBlanks_le rest
            let (items, after) := item next
            (items, after.widen (Nat.le_trans le' (Nat.le_of_succ_le le)))
      else (.stop .junk, none)
termination_by 3 * cs.length + 2
decreasing_by all_goals (simp only [List.length_cons] at *; omega)

/-- An item and all that follow it. -/
def item (cs : List Char) : Items × After cs :=
  match value cs with
  | (tree, none) => (.more tree (.stop .cut), none)
  | (tree, some ⟨rest, lt⟩) =>
      let (others, after) := items false rest
      (.more tree others, after.widen (Nat.le_of_lt lt))
termination_by 3 * cs.length + 1
decreasing_by all_goals omega

/-- The members of an object; the first one needs no comma before it. -/
def members (first : Bool) (cs : List Char) : Members × After cs :=
  match h : dropBlanks cs with
  | [] => (.stop .cut, none)
  | c :: rest =>
      have le : (c :: rest).length ≤ cs.length := h ▸ length_dropBlanks_le cs
      if c = '}' then (.stop .closed, some ⟨rest, le⟩)
      else if first then
        let (members, after) := member c rest
        (members, after.widen le)
      else if c = ',' then
        match h' : dropBlanks rest with
        | [] => (.stop .cutAfterComma, none)
        | '}' :: _ => (.stop .trailingComma, none)
        | d :: next =>
            have le' : (d :: next).length ≤ rest.length :=
              h' ▸ length_dropBlanks_le rest
            let (members, after) := member d next
            (members, after.widen (Nat.le_trans le' (Nat.le_of_succ_le le)))
      else (.stop .junk, none)
termination_by 3 * cs.length + 2
decreasing_by all_goals (simp only [List.length_cons] at *; omega)

/-- A member, starting with the given character, and all that follow it. -/
def member (c : Char) (cs : List Char) : Members × After (c :: cs) :=
  if c = '"' then
    match string cs with
    | (key, none) => (.lone key .objectCutShort, none)
    | (key, some ⟨rest, lt⟩) =>
        match h : dropBlanks rest with
        | [] => (.lone key .objectCutShort, none)
        | ':' :: rest' =>
            have le : rest'.length < cs.length + 1 := by
              have := length_dropBlanks_le rest
              simp only [h, List.length_cons] at this lt
              omega
            match value rest' with
            | (tree, none) => (.more key tree (.stop .cut), none)
            | (tree, some ⟨last, lt'⟩) =>
                let (others, after) := members false last
                (.more key tree others, after.widen
                  (Nat.le_of_lt (Nat.lt_trans lt' le)))
        | _ => (.lone key .colonExpected, none)
  else (.stop .keyless, none)
termination_by 3 * (cs.length + 1) + 1
decreasing_by all_goals (simp only [List.length_cons] at *; omega)

end

/-- A text as a tree, and what follows the value in it if the value has an
end. -/
def scan (text : String) : Tree × Option (List Char) :=
  let (tree, after) := value text.toList
  (tree, after.map Subtype.val)

end Workbench.Text
