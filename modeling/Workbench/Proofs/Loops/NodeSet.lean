import Workbench.Loops.NodeSet
import Workbench.Proofs.Occurrences

/-!
# What a set of nodes holds

The list of a set holds what was put in, each identifier once and in the order
of the first occurrences. Collecting a list that names each identifier once
therefore keeps it as it is.
-/

namespace Workbench.NodeSet

theorem eq_of_toList_eq {a b : NodeSet} (h : a.toList = b.toList) : a = b := by
  cases a
  cases b
  cases h
  rfl

@[simp]
theorem toList_empty : empty.toList = [] := rfl

theorem contains_iff {set : NodeSet} {id : Uuid} :
    set.contains id = true ↔ id ∈ set.toList := by
  simp [contains]

theorem fst_insert (set : NodeSet) (id : Uuid) :
    (set.insert id).1 = !set.contains id := by
  rw [insert]
  split
  · next h => rw [h, Bool.not_true]
  · next h => rw [Bool.eq_false_iff.2 h, Bool.not_false]

theorem toList_insert (set : NodeSet) (id : Uuid) :
    (set.insert id).2.toList =
      if id ∈ set.toList then set.toList else set.toList ++ [id] := by
  rw [insert]
  split
  · next h => rw [if_pos (contains_iff.1 h)]
  · next h => rw [if_neg fun hid => h (contains_iff.2 hid)]

@[simp]
theorem mem_insert {set : NodeSet} {id x : Uuid} :
    x ∈ (set.insert id).2.toList ↔ x ∈ set.toList ∨ x = id := by
  rw [toList_insert]
  split
  · next h =>
      refine ⟨.inl, fun hor => ?_⟩
      rcases hor with hx | rfl
      · exact hx
      · exact h
  · rw [List.mem_append, List.mem_singleton]

theorem ofList_concat (ids : List Uuid) (id : Uuid) :
    ofList (ids ++ [id]) = ((ofList ids).insert id).2 := by
  rw [ofList, List.foldl_append, List.foldl_cons, List.foldl_nil, ofList]

theorem toList_ofList (ids : List Uuid) :
    (ofList ids).toList = ids.eraseDups := by
  induction ids using List.reverseRecOn with
  | nil => rfl
  | append_singleton ids id ih =>
      simp only [ofList_concat, toList_insert, eraseDups_concat, ih,
        List.mem_eraseDups]

@[simp]
theorem mem_ofList {ids : List Uuid} {x : Uuid} :
    x ∈ (ofList ids).toList ↔ x ∈ ids := by
  rw [toList_ofList, List.mem_eraseDups]

theorem toList_ofList_of_nodup {ids : List Uuid} (h : ids.Nodup) :
    (ofList ids).toList = ids := by
  rw [toList_ofList, eraseDups_eq_self h]

/-- Part of the other set, but not all of it. -/
def StrictlyWithin (inner outer : NodeSet) : Prop :=
  (∀ id ∈ inner.toList, id ∈ outer.toList) ∧ ∃ id ∈ outer.toList,
    id ∉ inner.toList

end Workbench.NodeSet
