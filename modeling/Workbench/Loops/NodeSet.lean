import Workbench.Uuid

/-!
# Sets of nodes in order

A set of node identifiers that remembers the order in which they were put in.
Two sets are equal only if that order is the same.
-/

namespace Workbench

structure NodeSet where
  toList : List Uuid
  nodup : toList.Nodup
deriving DecidableEq

namespace NodeSet

def empty : NodeSet := ⟨[], .nil⟩

instance : Inhabited NodeSet := ⟨empty⟩

def contains (set : NodeSet) (id : Uuid) : Bool := set.toList.contains id

def size (set : NodeSet) : Nat := set.toList.length

def isEmpty (set : NodeSet) : Bool := set.toList.isEmpty

/-- Puts an identifier in at the end unless it is there already; says whether it
was new. -/
def insert (set : NodeSet) (id : Uuid) : Bool × NodeSet :=
  if h : set.contains id then (false, set)
  else
    (true, ⟨set.toList ++ [id], by
      have hnot : id ∉ set.toList := by simpa [contains] using h
      simp only [List.nodup_append, List.nodup_cons, List.not_mem_nil,
        not_false_eq_true, List.nodup_nil, and_self, true_and, set.nodup,
        List.mem_singleton]
      exact fun a ha b hb hab => hnot (hb ▸ hab ▸ ha)⟩)

/-- The set of the identifiers of a list, in the order in which they first
occur. -/
def ofList (ids : List Uuid) : NodeSet :=
  ids.foldl (fun set id => (set.insert id).2) empty

end NodeSet

end Workbench
