import Workbench.Json.Codec
import Workbench.Proofs.Json.Numerals

/-!
# How deep documents are nested

A text may have so many brackets open at once, and no more. What is written has
as many as the document is deep (`Json.nesting`), so a document is read in full
where there is room for it; and what is read from a text with little room is not
deep. Where a document is read from memory there is always room, but then it is
no deeper than what it is read from (`Mode.Bounds`).
-/

namespace Workbench

namespace Json

mutual

/-- The number of brackets that are open at once where the document is
deepest. -/
def nesting : Json → Nat
  | array items => nestingOfItems items + 1
  | object entries => nestingOfEntries entries + 1
  | _ => 0

def nestingOfItems : List Json → Nat
  | [] => 0
  | item :: rest => max (nesting item) (nestingOfItems rest)

def nestingOfEntries : List (String × Json) → Nat
  | [] => 0
  | (_, value) :: rest => max (nesting value) (nestingOfEntries rest)

end

end Json

namespace Tree

mutual

def nesting : Tree → Nat
  | array items => nestingOfItems items + 1
  | object members => nestingOfMembers members + 1
  | _ => 0

def nestingOfItems : Items → Nat
  | .stop _ => 0
  | .more item rest => max (nesting item) (nestingOfItems rest)

def nestingOfMembers : Members → Nat
  | .stop _ => 0
  | .lone _ _ => 0
  | .more _ value rest => max (nesting value) (nestingOfMembers rest)

end

mutual

theorem nesting_ofJson :
    (document : Json) → (ofJson document).nesting = document.nesting
  | .null | .bool _ | .number _ | .string _ => rfl
  | .array items => congrArg (· + 1) (nesting_ofItems items)
  | .object entries => congrArg (· + 1) (nesting_ofEntries entries)

theorem nesting_ofItems : (items : List Json) →
    nestingOfItems (ofItems items) = Json.nestingOfItems items
  | [] => rfl
  | item :: rest => by
      rw [ofItems, nestingOfItems, Json.nestingOfItems, nesting_ofJson item,
        nesting_ofItems rest]

theorem nesting_ofEntries : (entries : List (String × Json)) →
    nestingOfMembers (ofEntries entries) = Json.nestingOfEntries entries
  | [] => rfl
  | (_, value) :: rest => by
      rw [ofEntries, nestingOfMembers, Json.nestingOfEntries,
        nesting_ofJson value, nesting_ofEntries rest]

end

end Tree

namespace Mode

variable {mode inner : Mode} {depth less n : Nat}

/-- There is room for so many brackets. -/
def Holds (mode : Mode) (depth : Nat) : Prop :=
  match mode with
  | text room => depth ≤ room
  | _ => True

/-- What is read in the mode from something of the given depth is at most `n`
deep. -/
def Bounds (mode : Mode) (depth n : Nat) : Prop :=
  match mode with
  | text room => room ≤ n
  | _ => depth ≤ n

theorem holds_max_iff :
    mode.Holds (max depth n) ↔ mode.Holds depth ∧ mode.Holds n := by
  cases mode with
  | text room => exact Nat.max_le
  | document | buffered => exact (and_self_iff).symm

theorem exists_enter (h : mode.Holds (depth + 1)) :
    ∃ inner, mode.enter = .ok inner ∧ inner.Holds depth := by
  cases mode with
  | text room =>
      cases room with
      | zero => exact absurd h (Nat.not_succ_le_zero depth)
      | succ room => exact ⟨.text room, rfl, Nat.le_of_succ_le_succ h⟩
  | document | buffered => exact ⟨_, rfl, trivial⟩

theorem Bounds.mono (h : mode.Bounds depth n) (hless : less ≤ depth) :
    mode.Bounds less n := by
  cases mode with
  | text room => exact h
  | document | buffered => exact Nat.le_trans hless h

theorem Bounds.enter (h : mode.Bounds (depth + 1) n)
    (henter : mode.enter = .ok inner) :
    ∃ m, n = m + 1 ∧ inner.Bounds depth m := by
  cases mode with
  | text room =>
      cases room with
      | zero => cases henter
      | succ room =>
          cases henter
          obtain ⟨m, rfl⟩ :=
            Nat.exists_eq_add_of_le' (Nat.le_trans (Nat.succ_pos room) h)
          exact ⟨m, rfl, Nat.le_of_succ_le_succ h⟩
  | document | buffered =>
      cases henter
      obtain ⟨m, rfl⟩ :=
        Nat.exists_eq_add_of_le' (Nat.le_trans (Nat.succ_pos depth) h)
      exact ⟨m, rfl, Nat.le_of_succ_le_succ h⟩

end Mode

/-! ## What is read as a whole -/

namespace Tree

mutual

/-- A document for which there is room is read as a whole. -/
theorem readWhole_ofJson :
    (document : Json) → ∀ {mode : Mode}, mode.Holds document.nesting →
    readWhole mode (ofJson document) = .ok document
  | .null, _, _ => rfl
  | .bool true, _, _ => rfl
  | .bool false, _, _ => rfl
  | .number _, _, _ => rfl
  | .string _, _, _ => rfl
  | .array items, mode, h => by
      obtain ⟨inner, henter, hinner⟩ := Mode.exists_enter h
      rw [ofJson, readWhole]
      refine bind_eq_ok_iff.2 ⟨inner, henter, ?_⟩
      exact bind_eq_ok_iff.2 ⟨items, readItems_ofItems items hinner, rfl⟩
  | .object entries, mode, h => by
      obtain ⟨inner, henter, hinner⟩ := Mode.exists_enter h
      rw [ofJson, readWhole]
      refine bind_eq_ok_iff.2 ⟨inner, henter, ?_⟩
      exact bind_eq_ok_iff.2
        ⟨entries, readMembers_ofEntries entries hinner, rfl⟩

theorem readItems_ofItems : (items : List Json) → ∀ {mode : Mode},
    mode.Holds (Json.nestingOfItems items) →
      readItems mode (ofItems items) = .ok items
  | [], _, _ => rfl
  | item :: rest, mode, h => by
      obtain ⟨hitem, hrest⟩ := Mode.holds_max_iff.1 h
      rw [ofItems, readItems]
      refine bind_eq_ok_iff.2 ⟨item, readWhole_ofJson item hitem, ?_⟩
      exact bind_eq_ok_iff.2 ⟨rest, readItems_ofItems rest hrest, rfl⟩

theorem readMembers_ofEntries :
    (entries : List (String × Json)) → ∀ {mode : Mode},
    mode.Holds (Json.nestingOfEntries entries) →
      readMembers mode (ofEntries entries) = .ok entries
  | [], _, _ => rfl
  | (key, value) :: rest, mode, h => by
      obtain ⟨hvalue, hrest⟩ := Mode.holds_max_iff.1 h
      rw [ofEntries, readMembers]
      refine bind_eq_ok_iff.2 ⟨key, rfl, ?_⟩
      refine bind_eq_ok_iff.2 ⟨value, readWhole_ofJson value hvalue, ?_⟩
      exact bind_eq_ok_iff.2 ⟨rest, readMembers_ofEntries rest hrest, rfl⟩

end

mutual

/-- A document that is read as a whole is no deeper than its mode allows. -/
theorem nesting_readWhole :
    (tree : Tree) → ∀ {mode : Mode} {document : Json} {n : Nat},
    readWhole mode tree = .ok document → mode.Bounds tree.nesting n →
      document.nesting ≤ n
  | .missing, _, _, _, h, _ => nomatch h
  | .junk, _, _, _, h, _ => nomatch h
  | .word w _, _, _, _, h, _ => by
      obtain ⟨_, _, h⟩ := bind_eq_ok_iff.1 h
      cases w <;> cases h <;> exact Nat.zero_le _
  | .number _, _, _, _, h, _ => by
      obtain ⟨_, _, h⟩ := bind_eq_ok_iff.1 h
      cases h
      exact Nat.zero_le _
  | .string _, _, _, _, h, _ => by
      obtain ⟨_, _, h⟩ := bind_eq_ok_iff.1 h
      cases h
      exact Nat.zero_le _
  | .array items, _, _, _, h, hbounds => by
      obtain ⟨inner, henter, h⟩ := bind_eq_ok_iff.1 h
      obtain ⟨documents, hitems, h⟩ := bind_eq_ok_iff.1 h
      cases h
      obtain ⟨m, rfl, hinner⟩ := hbounds.enter henter
      exact Nat.succ_le_succ (nesting_readItems items hitems hinner)
  | .object members, _, _, _, h, hbounds => by
      obtain ⟨inner, henter, h⟩ := bind_eq_ok_iff.1 h
      obtain ⟨entries, hentries, h⟩ := bind_eq_ok_iff.1 h
      cases h
      obtain ⟨m, rfl, hinner⟩ := hbounds.enter henter
      exact Nat.succ_le_succ (nesting_readMembers members hentries hinner)

theorem nesting_readItems :
    (items : Items) → ∀ {mode : Mode} {documents : List Json} {n : Nat},
    readItems mode items = .ok documents →
      mode.Bounds (nestingOfItems items) n → Json.nestingOfItems documents ≤ n
  | .stop _, _, _, _, h, _ => by
      obtain ⟨_, _, h⟩ := bind_eq_ok_iff.1 h
      cases h
      exact Nat.zero_le _
  | .more item rest, _, _, _, h, hbounds => by
      obtain ⟨document, hitem, h⟩ := bind_eq_ok_iff.1 h
      obtain ⟨documents, hrest, h⟩ := bind_eq_ok_iff.1 h
      cases h
      exact Nat.max_le.2
        ⟨nesting_readWhole item hitem (hbounds.mono (Nat.le_max_left ..)),
        nesting_readItems rest hrest (hbounds.mono (Nat.le_max_right ..))⟩

theorem nesting_readMembers : (members : Members) →
    ∀ {mode : Mode} {entries : List (String × Json)} {n : Nat},
    readMembers mode members = .ok entries →
      mode.Bounds (nestingOfMembers members) n →
      Json.nestingOfEntries entries ≤ n
  | .stop _, _, _, _, h, _ => by
      obtain ⟨_, _, h⟩ := bind_eq_ok_iff.1 h
      cases h
      exact Nat.zero_le _
  | .lone _ _, _, _, _, h, _ => by
      obtain ⟨_, _, h⟩ := bind_eq_ok_iff.1 h
      cases h
  | .more _ value rest, _, _, _, h, hbounds => by
      obtain ⟨_, _, h⟩ := bind_eq_ok_iff.1 h
      obtain ⟨document, hvalue, h⟩ := bind_eq_ok_iff.1 h
      obtain ⟨entries, hrest, h⟩ := bind_eq_ok_iff.1 h
      cases h
      exact Nat.max_le.2
        ⟨nesting_readWhole value hvalue (hbounds.mono (Nat.le_max_left ..)),
        nesting_readMembers rest hrest (hbounds.mono (Nat.le_max_right ..))⟩

end

end Tree

/-! ## Sorting -/

namespace Json

theorem put_eq_append {key : String} {value : Json}
    {entries : List (String × Json)} (h : ∀ e ∈ entries, e.1 < key) :
    put key value entries = entries ++ [(key, value)] := by
  induction entries with
  | nil => rfl
  | cons e rest ih =>
      have he : e.1 < key := h e (List.mem_cons_self ..)
      rw [put, if_neg (String.lt_asymm he), if_neg (String.ne_of_lt he).symm,
        ih fun e he => h e (List.mem_cons_of_mem _ he)]
      rfl

mutual

/-- A sorted document is not changed by sorting. -/
theorem sort_eq_self :
    (document : Json) → document.Sorted → document.sort = document
  | .null, _ | .bool _, _ | .number _, _ | .string _, _ => rfl
  | .array items, h => congrArg array (sortItems_eq_self items h)
  | .object entries, h =>
      congrArg object (sortEntries_eq_append entries [] h.2 h.1)

theorem sortItems_eq_self :
    (items : List Json) → SortedItems items → sortItems items = items
  | [], _ => rfl
  | item :: rest, h =>
      by rw [sortItems, sort_eq_self item h.1, sortItems_eq_self rest h.2]

theorem sortEntries_eq_append :
    (entries sorted : List (String × Json)) → SortedEntries entries →
    (sorted ++ entries).Pairwise (·.1 < ·.1) →
    sortEntries sorted entries = sorted ++ entries
  | [], sorted, _, _ => (List.append_nil sorted).symm
  | (key, value) :: rest, sorted, h, hkeys => by
      have hlater : ∀ e ∈ sorted, e.1 < key := fun e he =>
        (List.pairwise_append.1 hkeys).2.2 e he (key, value)
          (List.mem_cons_self ..)
      rw [List.append_cons] at hkeys
      rw [sortEntries, sort_eq_self value h.1, put_eq_append hlater,
        sortEntries_eq_append rest _ h.2 hkeys, ← List.append_cons]

end

theorem nesting_put (key : String) (value : Json)
    (entries : List (String × Json)) :
    nestingOfEntries (put key value entries) ≤
      max value.nesting (nestingOfEntries entries) := by
  induction entries with
  | nil => exact Nat.le_refl _
  | cons e rest ih =>
      rw [put]
      split
      · exact Nat.le_refl _
      · split
        · simp only [nestingOfEntries]
          omega
        · simp only [nestingOfEntries]
          omega

mutual

/-- Sorting drops fields at most. -/
theorem nesting_sort_le :
    (document : Json) → document.sort.nesting ≤ document.nesting
  | .null | .bool _ | .number _ | .string _ => Nat.le_refl _
  | .array items => Nat.succ_le_succ (nesting_sortItems_le items)
  | .object entries => by
      have hle := nesting_sortEntries_le entries []
      rw [nestingOfEntries, Nat.zero_max] at hle
      exact Nat.succ_le_succ hle

theorem nesting_sortItems_le : (items : List Json) →
    nestingOfItems (sortItems items) ≤ nestingOfItems items
  | [] => Nat.le_refl _
  | item :: rest => by
      have hitem := nesting_sort_le item
      have hrest := nesting_sortItems_le rest
      simp only [sortItems, nestingOfItems]
      omega

theorem nesting_sortEntries_le : (entries sorted : List (String × Json)) →
    nestingOfEntries (sortEntries sorted entries) ≤
      max (nestingOfEntries sorted) (nestingOfEntries entries)
  | [], _ => Nat.le_max_left _ _
  | (key, value) :: rest, sorted => by
      have hvalue := nesting_sort_le value
      have hput := nesting_put key value.sort sorted
      have hrest := nesting_sortEntries_le rest (put key value.sort sorted)
      simp only [sortEntries, nestingOfEntries]
      omega

end

end Json

end Workbench
