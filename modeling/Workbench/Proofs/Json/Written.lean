import Workbench.Json.Scan
import Workbench.Proofs.Json.Numerals
import Workbench.Proofs.Json.Strings

/-!
# A written document is scanned as itself

The scanner is followed through a written text. Each of its steps takes one
thing off the front (`Gives`), and what it leaves is where the next one starts;
so a document, its items and its entries are gone through by one induction, with
anything at all behind them. Only a numeral is particular about what follows,
and what follows a value in a written text is a comma, a bracket or a blank.

A layout is free in the blanks that it puts between the tokens.
-/

namespace Workbench

namespace Text

/-- A step of the scanner finds this and leaves the rest. -/
def Gives {α : Type} {cs : List Char} (step : α × After cs) (found : α)
    (rest : List Char) : Prop :=
  ∃ lt : rest.length < cs.length, step = (found, some ⟨rest, lt⟩)

variable {cs rest after : List Char} {c : Char}

/-! ## The steps -/

section

variable {tree : Tree} {found : Items} {listed : Members} {first : Bool}

theorem gives_array (hcs : dropBlanks cs = '[' :: rest)
    (h : Gives (items true rest) found after) :
    Gives (value cs) (.array found) after := by
  obtain ⟨lt, h⟩ := h
  rw [value]
  split
  · next hnil => cases hcs.symm.trans hnil
  · next hcons =>
      cases hcs.symm.trans hcons
      rw [if_pos rfl, h]
      exact ⟨_, rfl⟩

theorem gives_object (hcs : dropBlanks cs = '{' :: rest)
    (h : Gives (members true rest) listed after) :
    Gives (value cs) (.object listed) after := by
  obtain ⟨lt, h⟩ := h
  rw [value]
  split
  · next hnil => cases hcs.symm.trans hnil
  · next hcons =>
      cases hcs.symm.trans hcons
      rw [if_neg (by decide), if_pos rfl, h]
      exact ⟨_, rfl⟩

theorem gives_string {lexeme : Lexeme String}
    (hcs : dropBlanks cs = '"' :: rest) (h : Gives (string rest) lexeme after) :
    Gives (value cs) (.string lexeme) after := by
  obtain ⟨lt, h⟩ := h
  rw [value]
  split
  · next hnil => cases hcs.symm.trans hnil
  · next hcons =>
      cases hcs.symm.trans hcons
      rw [if_neg (by decide), if_neg (by decide), if_pos rfl, h]
      exact ⟨_, rfl⟩

theorem gives_leaf (hcs : dropBlanks cs = c :: rest)
    (hopen : c ≠ '[' ∧ c ≠ '{' ∧ c ≠ '"') (h : Gives (leaf c rest) tree after) :
    Gives (value cs) tree after := by
  obtain ⟨lt, h⟩ := h
  rw [value]
  split
  · next hnil => cases hcs.symm.trans hnil
  · next hcons =>
      cases hcs.symm.trans hcons
      rw [if_neg hopen.1, if_neg hopen.2.1, if_neg hopen.2.2, h]
      exact ⟨_, rfl⟩

theorem gives_items_closed (hcs : dropBlanks cs = ']' :: rest) :
    Gives (items first cs) (.stop .closed) rest := by
  rw [items]
  split
  · next hnil => cases hcs.symm.trans hnil
  · next hcons =>
      cases hcs.symm.trans hcons
      rw [if_pos rfl]
      exact ⟨_, rfl⟩

theorem gives_items_first (hcs : dropBlanks cs = c :: rest) (hc : c ≠ ']')
    (h : Gives (item (c :: rest)) found after) :
    Gives (items true cs) found after := by
  obtain ⟨lt, h⟩ := h
  rw [items]
  split
  · next hnil => cases hcs.symm.trans hnil
  · next hcons =>
      cases hcs.symm.trans hcons
      rw [if_neg hc, if_pos rfl, h]
      exact ⟨_, rfl⟩

theorem gives_items_next {next : List Char} (hcs : dropBlanks cs = ',' :: next)
    (hnext : dropBlanks next = c :: rest) (hc : c ≠ ']')
    (h : Gives (item (c :: rest)) found after) :
    Gives (items false cs) found after := by
  rw [items]
  split
  · next hnil => cases hcs.symm.trans hnil
  · next hcons =>
      cases hcs.symm.trans hcons
      rw [if_neg (by decide), if_neg (by decide), if_pos rfl]
      split
      · next hclosed =>
          cases hnext.symm.trans hclosed
          exact absurd rfl hc
      · obtain ⟨lt, h⟩ : Gives (item (dropBlanks next)) found after := hnext ▸ h
        rw [h]
        exact ⟨_, rfl⟩

theorem gives_item (hvalue : Gives (value cs) tree rest)
    (h : Gives (items false rest) found after) :
    Gives (item cs) (.more tree found) after := by
  obtain ⟨lt, hvalue⟩ := hvalue
  obtain ⟨lt', h⟩ := h
  rw [item, hvalue]
  dsimp only
  rw [h]
  exact ⟨_, rfl⟩

theorem gives_members_closed (hcs : dropBlanks cs = '}' :: rest) :
    Gives (members first cs) (.stop .closed) rest := by
  rw [members]
  split
  · next hnil => cases hcs.symm.trans hnil
  · next hcons =>
      cases hcs.symm.trans hcons
      rw [if_pos rfl]
      exact ⟨_, rfl⟩

theorem gives_members_first (hcs : dropBlanks cs = '"' :: rest)
    (h : Gives (member '"' rest) listed after) :
    Gives (members true cs) listed after := by
  obtain ⟨lt, h⟩ := h
  rw [members]
  split
  · next hnil => cases hcs.symm.trans hnil
  · next hcons =>
      cases hcs.symm.trans hcons
      rw [if_neg (by decide), if_pos rfl, h]
      exact ⟨_, rfl⟩

theorem gives_members_next {next : List Char}
    (hcs : dropBlanks cs = ',' :: next) (hnext : dropBlanks next = '"' :: rest)
    (h : Gives (member '"' rest) listed after) :
    Gives (members false cs) listed after := by
  obtain ⟨lt, h⟩ := h
  rw [members]
  split
  · next hnil => cases hcs.symm.trans hnil
  · next hcons =>
      cases hcs.symm.trans hcons
      rw [if_neg (by decide), if_neg (by decide), if_pos rfl]
      split
      · next hnil => cases hnext.symm.trans hnil
      · next hclosed => cases hnext.symm.trans hclosed
      · next hopen =>
          cases hnext.symm.trans hopen
          rw [h]
          exact ⟨_, rfl⟩

theorem gives_member {key : Lexeme String} {pair last : List Char}
    (hkey : Gives (string cs) key rest) (hcolon : dropBlanks rest = ':' :: pair)
    (hvalue : Gives (value pair) tree last)
    (h : Gives (members false last) listed after) :
    Gives (member '"' cs) (.more key tree listed) after := by
  obtain ⟨lt, hkey⟩ := hkey
  obtain ⟨lt', hvalue⟩ := hvalue
  obtain ⟨lt'', h⟩ := h
  rw [member, if_pos rfl, hkey]
  dsimp only
  split
  · next hnil => cases hcolon.symm.trans hnil
  · next hfound =>
      cases hcolon.symm.trans hfound
      rw [hvalue]
      dsimp only
      rw [h]
      exact ⟨_, rfl⟩
  · next hnone => exact absurd hcolon (hnone _)

end

/-! ## The leaves -/

theorem gives_word {word : Word} {letters : List Char}
    (hletters : word.letters = c :: letters) :
    Gives (leaf c (letters ++ rest)) (.word word (.ok ())) rest := by
  cases word <;> cases hletters <;> exact ⟨_, rfl⟩

theorem gives_number {n : Numeral} {number : Number}
    (hn : numeral (c :: cs) = .ok (n, [])) (hnumber : n.number? = some number)
    (hrest : Ends rest) :
    Gives (leaf c (cs ++ rest)) (.number (.sound number)) rest := by
  obtain ⟨_, _, heq, hc⟩ := head_of_numeral hn
  cases heq
  have hword : Word.startingWith? c = none := by
    unfold Word.startingWith?
    split
    · exact absurd hc (by decide)
    · exact absurd hc (by decide)
    · exact absurd hc (by decide)
    · rfl
  have hall : numeral (c :: (cs ++ rest)) = .ok (n, rest) :=
    numeral_append hrest hn
  have hsound : numberLexeme n = .sound number := by
    rw [numberLexeme, hnumber]; rfl
  have hless : rest.length < (c :: (cs ++ rest)).length := by
    rw [List.length_cons, List.length_append]
    omega
  unfold leaf
  split
  · next word hsome => cases hword.symm.trans hsome
  · rw [if_pos (by simpa using hc), hall]
    dsimp only
    rw [dif_pos hless, hsound]
    exact ⟨_, rfl⟩

theorem gives_written (s : String) (rest : List Char) :
    Gives (string (s.toList.flatMap Json.escape ++ '"' :: rest))
      (.sound s) rest := by
  obtain ⟨hlexeme, hstop, hrest⟩ := stringLexeme_written s rest
  unfold string
  dsimp only
  split
  · refine ⟨?_, by simp only [hlexeme, hrest]⟩
    simp only [List.length_cons, List.length_append]
    omega
  · next hopen => exact absurd hstop hopen

end Text

namespace Layout

/-- Nothing but blanks stands between the tokens, and a colon where one is
due. -/
structure IsBlank (layout : Layout) : Prop where
  lineBreak : ∀ depth, ∀ c ∈ layout.lineBreak depth, Text.isBlank c = true
  colon : ∃ blanks, layout.colon = ':' :: blanks ∧ ∀ c ∈ blanks,
    Text.isBlank c = true

theorem isBlank_compact : compact.IsBlank := ⟨fun _ => nofun, [], rfl, nofun⟩

theorem isBlank_pretty : pretty.IsBlank where
  lineBreak depth c hc := by
    rcases List.mem_cons.1 hc with rfl | hc
    · rfl
    · rw [List.eq_of_mem_replicate hc]
      rfl
  colon := ⟨[' '], rfl, by simp [Text.isBlank]⟩

end Layout

namespace Text

variable {blanks cs rest : List Char} {c : Char}

theorem dropBlanks_append (hblanks : ∀ c ∈ blanks, isBlank c = true) :
    dropBlanks (blanks ++ cs) = dropBlanks cs := by
  induction blanks with
  | nil => rfl
  | cons c blanks ih =>
      have hc : isBlank c = true := hblanks c (List.mem_cons_self ..)
      rw [dropBlanks, List.cons_append, List.dropWhile_cons_of_pos hc]
      exact ih fun d hd => hblanks d (List.mem_cons_of_mem _ hd)

theorem dropBlanks_cons (hc : isBlank c = false) :
    dropBlanks (c :: cs) = c :: cs :=
  List.dropWhile_cons_of_neg (by rw [hc]; exact Bool.false_ne_true)

/-- Before the next token there may be blanks. -/
theorem dropBlanks_token (hblanks : ∀ c ∈ blanks, isBlank c = true)
    (hc : isBlank c = false) : dropBlanks (blanks ++ c :: cs) = c :: cs := by
  rw [dropBlanks_append hblanks, dropBlanks_cons hc]

theorem isBlank_nil : ∀ c ∈ ([] : List Char), isBlank c = true := nofun

theorem ends_nil : Ends [] := nofun

/-- A numeral does not begin with a blank. -/
theorem isBlank_of_sign_or_digit (hc : c = '-' ∨ isDigit c = true) :
    isBlank c = false := by
  cases hblank : isBlank c with
  | false => rfl
  | true =>
      simp only [isBlank, Bool.or_eq_true, decide_eq_true_eq,
        or_assoc] at hblank
      rcases hblank with rfl | rfl | rfl | rfl <;> exact absurd hc (by decide)

/-- A numeral does not go on with a blank, a comma or a bracket. -/
theorem ends_cons (hc : isBlank c = true ∨ c = ',' ∨ c = ']' ∨ c = '}') :
    Ends (c :: rest) := by
  intro d hd
  obtain rfl : c = d := by simpa using hd
  simp only [isBlank, Bool.or_eq_true, decide_eq_true_eq, or_assoc] at hc
  rcases hc with rfl | rfl | rfl | rfl | rfl | rfl | rfl <;> decide

theorem ends_blanks (hblanks : ∀ c ∈ blanks, isBlank c = true) :
    Ends blanks := by
  cases blanks with
  | nil => exact ends_nil
  | cons b blanks => exact ends_cons (.inl (hblanks b (List.mem_cons_self ..)))

theorem ends_append (hblanks : ∀ c ∈ blanks, isBlank c = true)
    (hc : c = ',' ∨ c = ']' ∨ c = '}') : Ends (blanks ++ c :: rest) := by
  cases blanks with
  | nil => exact ends_cons (.inr hc)
  | cons b blanks => exact ends_cons (.inl (hblanks b (List.mem_cons_self ..)))

end Text

namespace Json

mutual

/-- The binary64 numbers in a document. -/
def floats : Json → List Binary64
  | number (.float x) => [x]
  | array items => floatsOfItems items
  | object entries => floatsOfEntries entries
  | _ => []

def floatsOfItems : List Json → List Binary64
  | [] => []
  | item :: rest => floats item ++ floatsOfItems rest

def floatsOfEntries : List (String × Json) → List Binary64
  | [] => []
  | (_, value) :: rest => floats value ++ floatsOfEntries rest

end

/-- Every binary64 number in the document is read from its digits as itself. -/
def FloatsReadBack (document : Json) : Prop :=
  ∀ x ∈ document.floats, (Number.float x).ReadsBack

instance (document : Json) : Decidable document.FloatsReadBack :=
  inferInstanceAs
    (Decidable (∀ x ∈ document.floats, (Number.float x).ReadsBack))

/-- Integers always come back. -/
theorem FloatsReadBack.number {n : Number} (h : (number n).FloatsReadBack) :
    n.ReadsBack := by
  cases n with
  | int n range => exact Number.readsBack_int n range
  | float x => exact h x (List.mem_singleton_self x)

/-! ## The text of a value, and what follows it -/

section

variable (layout : Layout) (depth : Nat) (rest : List Char)

theorem renderString_append (s : String) :
    renderString s ++ rest =
      '"' :: (s.toList.flatMap escape ++ '"' :: rest) := by
  rw [renderString, List.cons_append, List.cons_append, List.append_assoc,
    List.singleton_append]

theorem renderAt_array_append (item : Json) (items : List Json) :
    renderAt layout depth (array (item :: items)) ++ rest =
      '[' :: (layout.lineBreak (depth + 1) ++
        (renderAt layout (depth + 1) item ++
          (renderItems layout (depth + 1) items ++
            (layout.lineBreak depth ++ ']' :: rest)))) := by
  simp only [renderAt, List.cons_append, List.append_assoc, List.nil_append]

theorem renderAt_object_append (key : String) (value : Json)
    (entries : List (String × Json)) :
    renderAt layout depth (object ((key, value) :: entries)) ++ rest =
      '{' :: (layout.lineBreak (depth + 1) ++
        '"' :: (key.toList.flatMap escape ++
          '"' :: (layout.colon ++ (renderAt layout (depth + 1) value ++
            (renderEntries layout (depth + 1) entries ++
              (layout.lineBreak depth ++ '}' :: rest)))))) := by
  simp only [renderAt, List.cons_append, List.append_assoc, List.nil_append,
    renderString_append]

theorem renderItems_cons_append (item : Json) (items : List Json) :
    renderItems layout depth (item :: items) ++ rest =
      ',' :: (layout.lineBreak depth ++ (renderAt layout depth item ++
        (renderItems layout depth items ++ rest))) := by
  simp only [renderItems, List.cons_append, List.append_assoc]

theorem renderEntries_cons_append (key : String) (value : Json)
    (entries : List (String × Json)) :
    renderEntries layout depth ((key, value) :: entries) ++ rest =
      ',' :: (layout.lineBreak depth ++ '"' :: (key.toList.flatMap escape ++
        '"' :: (layout.colon ++ (renderAt layout depth value ++
          (renderEntries layout depth entries ++ rest))))) := by
  simp only [renderEntries, List.cons_append, List.append_assoc,
    renderString_append]

end

/-- A written value starts with a character that is neither a blank nor a
closing bracket. -/
theorem head_renderAt (layout : Layout) (depth : Nat) {document : Json}
    (h : document.FloatsReadBack) :
    ∃ c tail, document.renderAt layout depth = c :: tail ∧
      Text.isBlank c = false ∧ c ≠ ']' := by
  match document with
  | null => exact ⟨_, _, rfl, rfl, by decide⟩
  | bool true => exact ⟨_, _, rfl, rfl, by decide⟩
  | bool false => exact ⟨_, _, rfl, rfl, by decide⟩
  | string s => exact ⟨_, _, rfl, rfl, by decide⟩
  | array [] => exact ⟨_, _, rfl, rfl, by decide⟩
  | array (_ :: _) => exact ⟨_, _, rfl, rfl, by decide⟩
  | object [] => exact ⟨_, _, rfl, rfl, by decide⟩
  | object (_ :: _) => exact ⟨_, _, rfl, rfl, by decide⟩
  | number n =>
      obtain ⟨_, hn, -⟩ := h.number.numeral
      obtain ⟨c, tail, heq, hc⟩ := Text.head_of_numeral hn
      refine ⟨c, tail, heq, Text.isBlank_of_sign_or_digit hc, ?_⟩
      rintro rfl
      exact absurd hc (by decide)

/-- An item begins with the head of its text, which is where the scanner sees
that there is one. -/
theorem gives_listed {layout : Layout} {depth : Nat} {document : Json}
    {tree : Tree} {found : Items} {tail rest : List Char}
    (h : document.FloatsReadBack)
    (htree : Text.Gives
      (Text.value (renderAt layout depth document ++ tail)) tree tail)
    (hfound : Text.Gives (Text.items false tail) found rest) :
    ∃ c cs, renderAt layout depth document ++ tail = c :: cs ∧
      Text.isBlank c = false ∧ c ≠ ']' ∧
      Text.Gives (Text.item (c :: cs)) (.more tree found) rest := by
  obtain ⟨c, cs, hhead, hblank, hc⟩ := head_renderAt layout depth h
  have heq : renderAt layout depth document ++ tail = c :: (cs ++ tail) := by
    rw [hhead, List.cons_append]
  exact ⟨c, cs ++ tail, heq, hblank, hc, heq ▸ Text.gives_item htree hfound⟩

section

variable {layout : Layout} (hlayout : layout.IsBlank)

include hlayout

theorem ends_renderItems (depth : Nat) (items : List Json) (rest : List Char) :
    Text.Ends
      (renderItems layout (depth + 1) items ++
        (layout.lineBreak depth ++ ']' :: rest)) := by
  cases items with
  | nil => exact Text.ends_append (hlayout.lineBreak depth) (.inr (.inl rfl))
  | cons item items =>
      rw [renderItems, List.cons_append, ← List.nil_append (',' :: _)]
      exact Text.ends_append nofun (.inl rfl)

theorem ends_renderEntries (depth : Nat) (entries : List (String × Json))
    (rest : List Char) :
    Text.Ends
      (renderEntries layout (depth + 1) entries ++
        (layout.lineBreak depth ++ '}' :: rest)) := by
  cases entries with
  | nil => exact Text.ends_append (hlayout.lineBreak depth) (.inr (.inr rfl))
  | cons entry entries =>
      rw [renderEntries, List.cons_append, ← List.nil_append (',' :: _)]
      exact Text.ends_append nofun (.inl rfl)

/-- An entry after the opening quotation mark of its key. -/
theorem gives_entry {key : String} {tree : Tree} {listed : Members}
    {written tail rest : List Char}
    (htree : ∀ blanks, (∀ c ∈ blanks, Text.isBlank c = true) →
      Text.Gives (Text.value (blanks ++ (written ++ tail))) tree tail)
    (hlisted : Text.Gives (Text.members false tail) listed rest) :
    Text.Gives
      (Text.member '"' (key.toList.flatMap escape ++
        '"' :: (layout.colon ++ (written ++ tail))))
      (.more (.sound key) tree listed) rest := by
  obtain ⟨blanks, hcolon, hblanks⟩ := hlayout.colon
  refine Text.gives_member (Text.gives_written key _)
    ?_ (htree blanks hblanks) hlisted
  rw [hcolon]
  exact Text.dropBlanks_cons rfl

mutual

/-- A written value is scanned as itself, with blanks before it and something
behind it that is no part of a numeral. -/
theorem gives_value :
    (document : Json) → document.FloatsReadBack → ∀ (depth : Nat)
    {blanks rest : List Char}, (∀ c ∈ blanks, Text.isBlank c = true) →
      Text.Ends rest →
    Text.Gives (Text.value (blanks ++ (renderAt layout depth document ++ rest)))
      (Tree.ofJson document) rest
  | null, _, _, _, _, hblanks, _ =>
      Text.gives_leaf (Text.dropBlanks_token hblanks rfl) (by decide)
        (Text.gives_word rfl)
  | bool true, _, _, _, _, hblanks, _ =>
      Text.gives_leaf (Text.dropBlanks_token hblanks rfl) (by decide)
        (Text.gives_word rfl)
  | bool false, _, _, _, _, hblanks, _ =>
      Text.gives_leaf (Text.dropBlanks_token hblanks rfl) (by decide)
        (Text.gives_word rfl)
  | string s, _, _, _, rest, hblanks, _ => by
      rw [renderAt, renderString_append]
      exact Text.gives_string (Text.dropBlanks_token hblanks rfl)
        (Text.gives_written s rest)
  | number n, h, _, _, rest, hblanks, hrest => by
      obtain ⟨_, hn, hnumber⟩ := h.number.numeral
      obtain ⟨c, cs, heq, hc⟩ := Text.head_of_numeral hn
      rw [renderAt, heq]
      rw [heq] at hn
      have hblank : Text.isBlank c = false := Text.isBlank_of_sign_or_digit hc
      refine Text.gives_leaf (Text.dropBlanks_token hblanks hblank) ?_
        (Text.gives_number hn hnumber hrest)
      refine ⟨?_, ?_, ?_⟩ <;>
        · rintro rfl
          exact absurd hc (by decide)
  | array [], _, _, _, _, hblanks, _ =>
      Text.gives_array (Text.dropBlanks_token hblanks rfl)
        (Text.gives_items_closed (Text.dropBlanks_cons rfl))
  | array (item :: items), h, depth, _, rest, hblanks, _ => by
      have hitem : item.FloatsReadBack :=
        fun x hx => h x (List.mem_append_left _ hx)
      have hvalue := gives_value item hitem (depth + 1) Text.isBlank_nil
        (ends_renderItems hlayout depth items rest)
      have hitems := gives_items items
        (fun x hx => h x (List.mem_append_right _ hx)) depth rest
      obtain ⟨c, cs, heq, hblank, hc, hfirst⟩ :=
        gives_listed hitem hvalue hitems
      rw [renderAt_array_append, heq]
      refine Text.gives_array (Text.dropBlanks_token hblanks rfl) ?_
      exact Text.gives_items_first
        (Text.dropBlanks_token (hlayout.lineBreak (depth + 1)) hblank) hc hfirst
  | object [], _, _, _, _, hblanks, _ =>
      Text.gives_object (Text.dropBlanks_token hblanks rfl)
        (Text.gives_members_closed (Text.dropBlanks_cons rfl))
  | object ((key, value) :: entries), h, depth, _, rest, hblanks, _ => by
      have hvalue : value.FloatsReadBack :=
        fun x hx => h x (List.mem_append_left _ hx)
      have hentries :=
        gives_entries entries
          (fun x hx => h x (List.mem_append_right _ hx)) depth rest
      rw [renderAt_object_append]
      refine Text.gives_object (Text.dropBlanks_token hblanks rfl) ?_
      refine Text.gives_members_first
        (Text.dropBlanks_token (hlayout.lineBreak (depth + 1)) rfl) ?_
      refine gives_entry hlayout (fun blanks hblanks => ?_) hentries
      exact gives_value value hvalue (depth + 1) hblanks
        (ends_renderEntries hlayout depth entries rest)

theorem gives_items : (items : List Json) →
    (∀ x ∈ floatsOfItems items, (Number.float x).ReadsBack) →
    ∀ (depth : Nat) (rest : List Char), Text.Gives
      (Text.items false
        (renderItems layout (depth + 1) items ++
          (layout.lineBreak depth ++ ']' :: rest)))
      (Tree.ofItems items) rest
  | [], _, depth, _ =>
      Text.gives_items_closed
        (Text.dropBlanks_token (hlayout.lineBreak depth) rfl)
  | item :: items, h, depth, rest => by
      have hitem : item.FloatsReadBack :=
        fun x hx => h x (List.mem_append_left _ hx)
      have hvalue := gives_value item hitem (depth + 1) Text.isBlank_nil
        (ends_renderItems hlayout depth items rest)
      have hitems := gives_items items
        (fun x hx => h x (List.mem_append_right _ hx)) depth rest
      obtain ⟨c, cs, heq, hblank, hc, hnext⟩ := gives_listed hitem hvalue hitems
      rw [renderItems_cons_append, heq]
      exact Text.gives_items_next (Text.dropBlanks_cons rfl)
        (Text.dropBlanks_token (hlayout.lineBreak (depth + 1)) hblank) hc hnext

theorem gives_entries : (entries : List (String × Json)) →
    (∀ x ∈ floatsOfEntries entries, (Number.float x).ReadsBack) →
    ∀ (depth : Nat) (rest : List Char),
    Text.Gives
      (Text.members false
        (renderEntries layout (depth + 1) entries ++
          (layout.lineBreak depth ++ '}' :: rest)))
      (Tree.ofEntries entries) rest
  | [], _, depth, _ =>
      Text.gives_members_closed
        (Text.dropBlanks_token (hlayout.lineBreak depth) rfl)
  | (key, value) :: entries, h, depth, rest => by
      have hvalue : value.FloatsReadBack :=
        fun x hx => h x (List.mem_append_left _ hx)
      have hentries :=
        gives_entries entries
          (fun x hx => h x (List.mem_append_right _ hx)) depth rest
      rw [renderEntries_cons_append]
      refine Text.gives_members_next (Text.dropBlanks_cons rfl)
        (Text.dropBlanks_token (hlayout.lineBreak (depth + 1)) rfl) ?_
      refine gives_entry hlayout (fun blanks hblanks => ?_) hentries
      exact gives_value value hvalue (depth + 1) hblanks
        (ends_renderEntries hlayout depth entries rest)

end

/-- A written document is scanned as itself, and the blanks behind it are left
of the text. -/
theorem scan_append {document : Json} (h : document.FloatsReadBack)
    {text : String} {blanks : List Char}
    (hblanks : ∀ c ∈ blanks, Text.isBlank c = true)
    (htext : text.toList = renderAt layout 0 document ++ blanks) :
    Text.scan text = (.ofJson document, some blanks) := by
  have hvalue :=
    gives_value hlayout document h 0 Text.isBlank_nil (Text.ends_blanks hblanks)
  rw [List.nil_append, ← htext] at hvalue
  obtain ⟨lt, hvalue⟩ := hvalue
  rw [Text.scan, hvalue]
  rfl

end

end Json

end Workbench
