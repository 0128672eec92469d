import Mathlib.Data.Finset.Card
import Workbench.Proofs.Loops.NodeSet

/-!
# Sets of nodes with an index

A set that is often asked for a member may store its identifiers twice: in a
list, which gives their order and their number, and in an index, which finds one
without going through the list. Nothing in the type `IndexedSet` ties the two
together. An insertion asks the index whether the identifier is new and then
trusts it, so one identifier missing from the index would be listed twice, and
one too many would never be listed.

Such a set is compared with `NodeSet`, which keeps the list alone. Building the
index of the list and then putting in an identifier gives the same answer and
the same set as putting it in first (`insert_indexed`), and what can be
exchanged with one insertion can be exchanged with a run of them
(`putAll_comm`). So the index is at any time the one that would be built of the
list (`putAll_indexed`), and what either kind of set shows is told by the first
occurrences among the identifiers put in (`records_putAll`).

Nothing is asked of the hash function of the index.
-/

namespace Workbench

/-! ## One insertion after another -/

/-- Puts identifiers into a set one after another. Told are the answers, and the
set after the last. -/
def putAll {σ : Type} (insert : σ → Uuid → Bool × σ) (set : σ) :
    List Uuid → List Bool × σ
  | [] => ([], set)
  | id :: rest =>
      let (isNew, next) := insert set id
      let (answers, last) := putAll insert next rest
      (isNew :: answers, last)

section

variable {σ τ : Type} {insert : σ → Uuid → Bool × σ}
  {insert' : τ → Uuid → Bool × τ}

theorem snd_putAll (set : σ) (ids : List Uuid) :
    (putAll insert set ids).2 =
      ids.foldl (fun set id => (insert set id).2) set := by
  induction ids generalizing set with
  | nil => rfl
  | cons id rest ih => exact ih (insert set id).2

/-- If a set of one kind can be made of a set of the other, before an insertion
as well as after it, then it can be made before a run of them as well as after
it. -/
theorem putAll_comm {f : σ → τ}
    (h : ∀ set id,
      insert' (f set) id = ((insert set id).1, f (insert set id).2))
    (set : σ) (ids : List Uuid) :
    putAll insert' (f set) ids =
      ((putAll insert set ids).1, f (putAll insert set ids).2) := by
  induction ids generalizing set with
  | nil => rfl
  | cons id rest ih => simp only [putAll, h, ih]

end

/-! ## The list alone -/

/-- What a set tells of identifiers put into it one after another, and what it
shows after the last: each of them once, behind as many others as there were
before it came for the first time. -/
structure Records (ids : List Uuid) (answers : List Bool) (order : List Uuid)
    (contains : Uuid → Bool) (size : Nat) : Prop where
  answers_eq : answers = ids.mapIdx fun n id => !(ids.take n).contains id
  order_eq : order = ids.eraseDups
  mem_order : ∀ id, id ∈ order ↔ id ∈ ids
  count_eq_one : ∀ id ∈ ids, order.count id = 1
  idxOf_eq : ∀ id ∈ ids,
    order.idxOf id = (ids.take (ids.idxOf id)).toFinset.card
  contains_iff : ∀ id, contains id = true ↔ id ∈ ids
  size_eq : size = ids.toFinset.card

namespace NodeSet

theorem snd_putAll_empty (ids : List Uuid) :
    (putAll insert empty ids).2 = ofList ids :=
  snd_putAll empty ids

/-- An identifier is new if it is neither there at the start nor among those put
in before it. -/
theorem fst_putAll (set : NodeSet) (ids : List Uuid) :
    (putAll insert set ids).1 =
      ids.mapIdx fun n id => !(set.toList ++ ids.take n).contains id := by
  -- Over all sets, not just the empty one: the second insertion meets what the
  -- first has left.
  induction ids generalizing set with
  | nil => rfl
  | cons id rest ih =>
      have hnext : ∀ n x, ((set.insert id).2.toList ++ rest.take n).contains x =
          (set.toList ++ id :: rest.take n).contains x := by
        intro n x
        rw [Bool.eq_iff_iff, List.contains_iff_mem, List.contains_iff_mem,
          List.mem_append, List.mem_append, List.mem_cons,
          mem_insert, or_assoc]
      simp only [putAll, ih, hnext, fst_insert, contains, List.mapIdx_cons,
        List.take_zero, List.append_nil, List.take_succ_cons]

theorem records_putAll (ids : List Uuid) :
    Records ids (putAll insert empty ids).1 (ofList ids).toList
      (ofList ids).contains
      (ofList ids).size where
  answers_eq := fst_putAll empty ids
  order_eq := toList_ofList ids
  mem_order _ := mem_ofList
  count_eq_one _ hid :=
    List.count_eq_one_of_mem (ofList ids).nodup (mem_ofList.2 hid)
  idxOf_eq _ hid := by rw [toList_ofList, idxOf_eraseDups hid]
  contains_iff _ := contains_iff.trans mem_ofList
  size_eq := by rw [size, toList_ofList, length_eraseDups]

theorem ofList_eq_ofList_iff {ids others : List Uuid} :
    ofList ids = ofList others ↔ ids.eraseDups = others.eraseDups := by
  rw [← toList_ofList, ← toList_ofList]
  exact ⟨congrArg toList, eq_of_toList_eq⟩

end NodeSet

/-! ## List and index -/

variable [Hashable Uuid]

/-- A set of nodes with an index. Two are equal if both parts are. -/
structure IndexedSet where
  order : List Uuid
  index : Std.ExtHashSet Uuid
deriving DecidableEq

namespace IndexedSet

def empty : IndexedSet := ⟨[], ∅⟩

def contains (set : IndexedSet) (id : Uuid) : Bool := set.index.contains id

def size (set : IndexedSet) : Nat := set.order.length

/-- Puts an identifier into the index, and at the end of the list if it is new
to the index; says whether it was. -/
def insert (set : IndexedSet) (id : Uuid) : Bool × IndexedSet :=
  let (isKnown, index) := set.index.containsThenInsert id
  if isKnown then (false, { set with index })
  else (true, ⟨set.order ++ [id], index⟩)

/-- The set of the identifiers of a list, put in one after another. -/
def ofList (ids : List Uuid) : IndexedSet :=
  ids.foldl (fun set id => (set.insert id).2) empty

/-- The list has no repetitions, and the index holds what the list holds. -/
structure InStep (set : IndexedSet) : Prop where
  nodup : set.order.Nodup
  contains_iff : ∀ id, set.contains id = true ↔ id ∈ set.order
  size_index : set.index.size = set.order.length

theorem insert_of_contains {set : IndexedSet} {id : Uuid}
    (h : set.contains id = true) : set.insert id = (false, set) := by
  have hindex : set.index.insert id = set.index := by
    refine Std.ExtHashSet.ext_contains fun x => ?_
    rw [Std.ExtHashSet.contains_insert]
    by_cases hx : id = x
    · subst hx
      rw [beq_self_eq_true, Bool.true_or]
      exact h.symm
    · rw [beq_false_of_ne hx, Bool.false_or]
  simp only [insert]
  rw [if_pos (Std.ExtHashSet.containsThenInsert_fst.trans h),
    Std.ExtHashSet.containsThenInsert_snd, hindex]

theorem insert_of_not_contains {set : IndexedSet} {id : Uuid}
    (h : set.contains id ≠ true) :
    set.insert id = (true, ⟨set.order ++ [id], set.index.insert id⟩) := by
  simp only [insert]
  rw [if_neg fun hc => h (Std.ExtHashSet.containsThenInsert_fst.symm.trans hc),
    Std.ExtHashSet.containsThenInsert_snd]

end IndexedSet

namespace NodeSet

/-- The set with an index, which is built of the list. -/
def indexed (set : NodeSet) : IndexedSet := ⟨set.toList, .ofList set.toList⟩

theorem contains_indexed (set : NodeSet) (id : Uuid) :
    set.indexed.contains id = set.contains id :=
  Std.ExtHashSet.contains_ofList

theorem indexed_empty : empty.indexed = .empty :=
  congrArg (IndexedSet.mk []) Std.ExtHashSet.ofList_nil

theorem inStep_indexed (set : NodeSet) : set.indexed.InStep where
  nodup := set.nodup
  contains_iff id := by rw [contains_indexed]; exact contains_iff
  size_index := by
    refine Std.ExtHashSet.size_ofList (set.nodup.imp fun hne => ?_)
    exact beq_false_of_ne hne

/-- The index can be built before an identifier is put in, or after. -/
theorem insert_indexed (set : NodeSet) (id : Uuid) :
    set.indexed.insert id = ((set.insert id).1, (set.insert id).2.indexed) := by
  by_cases h : set.contains id = true
  · have hinsert : set.insert id = (false, set) := by rw [insert, dif_pos h]
    rw [IndexedSet.insert_of_contains ((contains_indexed set id).trans h),
      hinsert]
  · have hlist : (set.insert id).2.toList = set.toList ++ [id] := by
      rw [toList_insert, if_neg fun hid => h (contains_iff.2 hid)]
    -- An index is told by its members alone, whatever the order in which they
    -- came.
    have hindex : (Std.ExtHashSet.ofList set.toList).insert id =
        .ofList (set.toList ++ [id]) := by
      refine Std.ExtHashSet.ext_contains fun x => ?_
      rw [Std.ExtHashSet.contains_insert, Std.ExtHashSet.contains_ofList,
        Std.ExtHashSet.contains_ofList, List.contains_append,
        List.contains_cons, List.contains_nil,
        Bool.or_false, Bool.or_comm, BEq.comm]
    rw [IndexedSet.insert_of_not_contains fun hc =>
      h ((contains_indexed set id).symm.trans hc), fst_insert,
      Bool.eq_false_iff.2 h, Bool.not_false, indexed, indexed, hlist, hindex]

theorem putAll_indexed (ids : List Uuid) :
    putAll IndexedSet.insert .empty ids =
      ((putAll insert empty ids).1, (ofList ids).indexed) := by
  rw [← indexed_empty, putAll_comm insert_indexed, snd_putAll_empty]

theorem ofList_indexed (ids : List Uuid) :
    (ofList ids).indexed = .ofList ids := by
  have hset := congrArg Prod.snd (putAll_indexed ids)
  rw [snd_putAll] at hset
  exact hset.symm

end NodeSet

/-! ## Both kinds of set -/

theorem IndexedSet.ofList_eq_ofList_iff {ids others : List Uuid} :
    ofList ids = ofList others ↔ ids.eraseDups = others.eraseDups := by
  rw [← NodeSet.ofList_indexed, ← NodeSet.ofList_indexed,
    ← NodeSet.ofList_eq_ofList_iff]
  refine ⟨fun h => ?_, congrArg NodeSet.indexed⟩
  exact NodeSet.eq_of_toList_eq (congrArg order h)

/-- Identifiers put into an empty set one after another get the same answers
from a set with an index and from one without. Both then are the set of the list
of the identifiers, and show the same; list and index are in step; and which
identifiers came for the first time, in their order, is all that decides whether
two such sets are equal. -/
theorem insertions_recorded (ids : List Uuid) :
    ∃ answers,
      (putAll IndexedSet.insert .empty ids = (answers, .ofList ids) ∧
        (IndexedSet.ofList ids).InStep ∧
        Records ids answers (IndexedSet.ofList ids).order
          (IndexedSet.ofList ids).contains (IndexedSet.ofList ids).size) ∧
      (putAll NodeSet.insert .empty ids = (answers, .ofList ids) ∧
        Records ids answers (NodeSet.ofList ids).toList
          (NodeSet.ofList ids).contains (NodeSet.ofList ids).size) ∧
      ∀ others,
        (IndexedSet.ofList ids = IndexedSet.ofList others ↔
          ids.eraseDups = others.eraseDups) ∧
        (NodeSet.ofList ids = NodeSet.ofList others ↔
          ids.eraseDups = others.eraseDups) := by
  have hindexed := NodeSet.ofList_indexed ids
  have hrecords := NodeSet.records_putAll ids
  refine ⟨(putAll NodeSet.insert .empty ids).1, ⟨?_, ?_, ?_⟩, ⟨?_, hrecords⟩,
    fun others => ?_⟩
  · rw [NodeSet.putAll_indexed, hindexed]
  · rw [← hindexed]
    exact NodeSet.inStep_indexed _
  · have hcontains : (IndexedSet.ofList ids).contains =
        (NodeSet.ofList ids).contains := by
      rw [← hindexed]
      exact funext (NodeSet.contains_indexed _)
    rw [hcontains, ← hindexed]
    exact hrecords
  · rw [← NodeSet.snd_putAll_empty]
  · exact ⟨IndexedSet.ofList_eq_ofList_iff, NodeSet.ofList_eq_ofList_iff⟩

end Workbench
