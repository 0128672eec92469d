import Workbench.Json.Number

/-!
# JSON documents

A document keeps the order of an object's fields, and a field may occur more
than once: records are written in the order of their declaration, and a reader
sees what a text says.

A *free-form* document is different. There the order of fields carries no
meaning, so its objects are kept sorted by key without repetition; sorting a
document keeps the last of repeated fields.
-/

namespace Workbench

/-- A JSON document. -/
inductive Json
  | null
  | bool (value : Bool)
  | number (value : Number)
  | string (value : String)
  | array (items : List Json)
  | object (entries : List (String × Json))

namespace Json

instance : Inhabited Json := ⟨.null⟩

mutual

/-- Two documents are equal if they are built alike. -/
def decideEq : (a b : Json) → Decidable (a = b)
  | null, null => isTrue rfl
  | bool a, bool b => decidable_of_iff (a = b) (by simp)
  | number a, number b => decidable_of_iff (a = b) (by simp)
  | string a, string b => decidable_of_iff (a = b) (by simp)
  | array a, array b =>
      match decideEqItems a b with
      | isTrue h => isTrue (by rw [h])
      | isFalse h => isFalse (by simpa using h)
  | object a, object b =>
      match decideEqEntries a b with
      | isTrue h => isTrue (by rw [h])
      | isFalse h => isFalse (by simpa using h)
  | null, bool _ | null, number _ | null, string _ | null,
      array _ | null, object _
  | bool _, null | bool _, number _ | bool _, string _ | bool _,
      array _ | bool _, object _
  | number _, null | number _, bool _ | number _, string _ | number _, array _
  | number _, object _ | string _, null | string _, bool _ | string _, number _
  | string _, array _ | string _, object _ | array _, null | array _,
      bool _ | array _, number _
  | array _, string _ | array _, object _ | object _, null | object _, bool _
  | object _, number _ | object _, string _ | object _, array _ =>
      isFalse (by simp)

def decideEqItems : (a b : List Json) → Decidable (a = b)
  | [], [] => isTrue rfl
  | [], _ :: _ | _ :: _, [] => isFalse (by simp)
  | x :: xs, y :: ys =>
      match decideEq x y, decideEqItems xs ys with
      | isTrue h, isTrue t => isTrue (by rw [h, t])
      | isFalse h, _ => isFalse (by simp [h])
      | _, isFalse t => isFalse (by simp [t])

def decideEqEntries : (a b : List (String × Json)) → Decidable (a = b)
  | [], [] => isTrue rfl
  | [], _ :: _ | _ :: _, [] => isFalse (by simp)
  | (k, x) :: xs, (l, y) :: ys =>
      match decEq k l, decideEq x y, decideEqEntries xs ys with
      | isTrue e, isTrue h, isTrue t => isTrue (by rw [e, h, t])
      | isFalse e, _, _ => isFalse (by simp [e])
      | _, isFalse h, _ => isFalse (by simp [h])
      | _, _, isFalse t => isFalse (by simp [t])

end

instance : DecidableEq Json := decideEq

mutual

/-- Equality with numbers compared by value. -/
def sameValue : Json → Json → Bool
  | null, null => true
  | bool a, bool b => a == b
  | number a, number b => a.sameValue b
  | string a, string b => a == b
  | array a, array b => sameItems a b
  | object a, object b => sameEntries a b
  | _, _ => false

def sameItems : List Json → List Json → Bool
  | [], [] => true
  | x :: xs, y :: ys => sameValue x y && sameItems xs ys
  | _, _ => false

def sameEntries : List (String × Json) → List (String × Json) → Bool
  | [], [] => true
  | (k, x) :: xs, (l, y) :: ys => k == l && sameValue x y && sameEntries xs ys
  | _, _ => false

end

/-- The value of the first entry with the given key. -/
def field? (key : String) : Json → Option Json
  | object entries => entries.lookup key
  | _ => none

/-- Entries with the value of `key` set, in the order of keys. -/
def put (key : String) (value : Json) :
    List (String × Json) → List (String × Json)
  | [] => [(key, value)]
  | (k, v) :: rest =>
      if key < k then (key, value) :: (k, v) :: rest
      else if key = k then (key, value) :: rest
      else (k, v) :: put key value rest

mutual

/-- The document with every object sorted by key, the last of repeated keys
kept. -/
def sort : Json → Json
  | array items => array (sortItems items)
  | object entries => object (sortEntries [] entries)
  | leaf => leaf

def sortItems : List Json → List Json
  | [] => []
  | item :: rest => sort item :: sortItems rest

/-- The entries put one after another into entries that are sorted already. -/
def sortEntries (sorted : List (String × Json)) :
    List (String × Json) → List (String × Json)
  | [] => sorted
  | (key, value) :: rest => sortEntries (put key (sort value) sorted) rest

end

mutual

/-- Every object of the document has its keys in strictly increasing order. -/
def Sorted : Json → Prop
  | array items => SortedItems items
  | object entries => entries.Pairwise (·.1 < ·.1) ∧ SortedEntries entries
  | _ => True

def SortedItems : List Json → Prop
  | [] => True
  | item :: rest => Sorted item ∧ SortedItems rest

def SortedEntries : List (String × Json) → Prop
  | [] => True
  | (_, value) :: rest => Sorted value ∧ SortedEntries rest

end

/-- The keys after `put` are the old ones and the new one. -/
theorem key_of_mem_put {key : String} {value : Json}
    {entries : List (String × Json)} {e : String × Json}
    (h : e ∈ put key value entries) : e.1 = key ∨ e ∈ entries := by
  induction entries with
  | nil => exact .inl (by simp [put] at h; simp [h])
  | cons head rest ih =>
    rw [put] at h
    split at h
    · rcases List.mem_cons.1 h with rfl | h
      · exact .inl rfl
      · exact .inr h
    · split at h
      · rcases List.mem_cons.1 h with rfl | h
        · exact .inl rfl
        · exact .inr (List.mem_cons_of_mem _ h)
      · rcases List.mem_cons.1 h with rfl | h
        · exact .inr (List.mem_cons_self ..)
        · exact (ih h).imp_right (List.mem_cons_of_mem _)

theorem pairwise_put {key : String} {value : Json}
    {entries : List (String × Json)} (h : entries.Pairwise (·.1 < ·.1)) :
    (put key value entries).Pairwise (·.1 < ·.1) := by
  induction entries with
  | nil => simp [put]
  | cons head rest ih =>
    obtain ⟨hhead, hrest⟩ := List.pairwise_cons.1 h
    rw [put]
    split
    · rename_i hlt
      refine List.pairwise_cons.2 ⟨fun e he => ?_, h⟩
      rcases List.mem_cons.1 he with rfl | he
      · exact hlt
      · exact String.lt_trans hlt (hhead e he)
    · rename_i hlt
      split
      · rename_i heq
        exact List.pairwise_cons.2 ⟨fun e he => heq ▸ hhead e he, hrest⟩
      · rename_i hne
        refine List.pairwise_cons.2 ⟨fun e he => ?_, ih hrest⟩
        rcases key_of_mem_put he with hkey | he
        · show head.1 < e.1
          rw [hkey]
          refine Decidable.byContradiction fun hle => hne ?_
          exact String.le_antisymm (String.not_lt.1 hle) (String.not_lt.1 hlt)
        · exact hhead e he

theorem sortedEntries_put {key : String} {value : Json}
    {entries : List (String × Json)} (hvalue : value.Sorted)
    (h : SortedEntries entries) : SortedEntries (put key value entries) := by
  induction entries with
  | nil => exact ⟨hvalue, trivial⟩
  | cons head rest ih =>
    obtain ⟨k, v⟩ := head
    obtain ⟨hv, hrest⟩ := h
    rw [put]
    split
    · exact ⟨hvalue, hv, hrest⟩
    · split
      · exact ⟨hvalue, hrest⟩
      · exact ⟨hv, ih hrest⟩

mutual

/-- Sorting a document sorts it. -/
theorem sorted_sort : (document : Json) → document.sort.Sorted
  | array items => sortedItems_sort items
  | object entries => sortedEntries_sort entries [] .nil trivial
  | null | bool _ | number _ | string _ => trivial

theorem sortedItems_sort : (items : List Json) → SortedItems (sortItems items)
  | [] => trivial
  | item :: rest => ⟨sorted_sort item, sortedItems_sort rest⟩

theorem sortedEntries_sort : (entries sorted : List (String × Json)) →
    sorted.Pairwise (·.1 < ·.1) → SortedEntries sorted →
    (sortEntries sorted entries).Pairwise (·.1 < ·.1) ∧
      SortedEntries (sortEntries sorted entries)
  | [], _, hkeys, hvalues => ⟨hkeys, hvalues⟩
  | (_, value) :: rest, _, hkeys, hvalues =>
      sortedEntries_sort rest _ (pairwise_put hkeys)
        (sortedEntries_put (sorted_sort value) hvalues)

end

end Json

/-- A free-form document: its objects are sorted by key, so two of them are
equal exactly if they have the same fields. -/
structure FreeForm where
  json : Json
  sorted : json.Sorted
deriving DecidableEq

namespace FreeForm

def null : FreeForm := ⟨.null, trivial⟩

instance : Inhabited FreeForm := ⟨null⟩

/-- The free-form document that says the same as a document. -/
def ofJson (document : Json) : FreeForm := ⟨document.sort, document.sorted_sort⟩

def sameValue (a b : FreeForm) : Bool := a.json.sameValue b.json

end FreeForm

end Workbench
