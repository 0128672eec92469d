import Mathlib.Data.List.Basic
import Workbench.Proofs.Graph.Reach

/-!
# The order in which a walk visits

A walk visits what is in its queue and then whatever is new among the heads of
what it visits, in that order: `walk_eq_append_fresh` is an equation for the
walk that mentions neither a queue that changes nor what has been seen in
between. So of two vertices that were not queued at the start, the one that
stands first in the heads of the visited vertices is visited first, and which
one that is can be told from the visited vertex that leads to it first and from
its place among the heads of that vertex (`idxOf_flatMap_lt_iff`).

The equation has other solutions than the walk, in which a vertex is there only
because it leads to itself. `findIdx_heads_lt_idxOf_walk` excludes them: what
leads to a vertex first is visited before it.
-/

namespace Workbench.Arcs

variable {α : Type} [DecidableEq α] {arcs : Arcs α}

/-! ## What is new in a list -/

/-- Of what has been seen only what may come again matters. -/
theorem fresh_congr {seen seen' candidates : List α}
    (h : ∀ a ∈ candidates, a ∈ seen ↔ a ∈ seen') :
    fresh seen candidates = fresh seen' candidates := by
  induction candidates generalizing seen seen' with
  | nil => rfl
  | cons a rest ih =>
      obtain ⟨ha, hrest⟩ := List.forall_mem_cons.1 h
      have hcontains : seen.contains a = seen'.contains a := by
        rw [Bool.eq_iff_iff, List.contains_iff_mem, List.contains_iff_mem, ha]
      have hcons : ∀ b ∈ rest, b ∈ a :: seen ↔ b ∈ a :: seen' := by
        intro b hb
        rw [List.mem_cons, List.mem_cons, hrest b hb]
      rw [fresh, fresh, hcontains, ih hrest, ih hcons]

theorem fresh_sublist (seen candidates : List α) :
    (fresh seen candidates).Sublist candidates := by
  induction candidates generalizing seen with
  | nil => exact .slnil
  | cons a rest ih =>
      rw [fresh]
      split
      · exact (ih seen).cons a
      · exact (ih (a :: seen)).cons_cons a

theorem fresh_eq_eraseDups (seen candidates : List α) :
    fresh seen candidates =
      (candidates.filter fun a => !seen.contains a).eraseDups := by
  induction candidates generalizing seen with
  | nil => rfl
  | cons a rest ih =>
      rw [fresh]
      split
      · next hseen =>
          rw [List.filter_cons_of_neg (by simpa using hseen)]
          exact ih seen
      · next hseen =>
          have hrest : (rest.filter fun b => !seen.contains b).filter
              (fun b => !b == a) =
              rest.filter fun b => !(a :: seen).contains b := by
            rw [List.filter_filter]
            refine List.filter_congr fun b _ => ?_
            rw [List.contains_cons, Bool.not_or]
          rw [List.filter_cons_of_pos (by simpa using hseen),
            List.eraseDups_cons, hrest, ih]

theorem eraseDups_eq_fresh (l : List α) : l.eraseDups = fresh [] l := by
  have hall : (l.filter fun a => !([] : List α).contains a) = l :=
    List.filter_eq_self.2 fun _ _ => rfl
  rw [fresh_eq_eraseDups, hall]

theorem fresh_append (seen xs ys : List α) :
    fresh seen (xs ++ ys) =
      fresh seen xs ++ fresh (fresh seen xs ++ seen) ys := by
  induction xs generalizing seen with
  | nil => rfl
  | cons a rest ih =>
      rw [List.cons_append, fresh, fresh]
      split
      · exact ih seen
      · have hseen : ∀ b, b ∈ fresh (a :: seen) rest ++ a :: seen ↔
            b ∈ a :: fresh (a :: seen) rest ++ seen := by
          intro b
          simp only [List.mem_append, List.mem_cons, or_assoc]
          exact or_left_comm
        rw [ih (a :: seen), fresh_congr fun b _ => hseen b, List.cons_append,
          List.cons_append]

/-- What is new keeps the order of first occurrences. -/
theorem idxOf_fresh_lt_iff {seen candidates : List α} {u v : α} (hu : u ∉ seen)
    (hv : v ∉ seen) :
    (fresh seen candidates).idxOf u < (fresh seen candidates).idxOf v ↔
      candidates.idxOf u < candidates.idxOf v := by
  induction candidates generalizing seen with
  | nil => rfl
  | cons a rest ih =>
      rw [fresh]
      split
      · next hseen =>
          rw [List.contains_iff_mem] at hseen
          have hau : a ≠ u := fun h => hu (h ▸ hseen)
          have hav : a ≠ v := fun h => hv (h ▸ hseen)
          rw [List.idxOf_cons_ne _ hau, List.idxOf_cons_ne _ hav,
            Nat.succ_lt_succ_iff]
          exact ih hu hv
      · by_cases hav : a = v
        · subst hav
          simp only [List.idxOf_cons_self, Nat.not_lt_zero]
        by_cases hau : a = u
        · subst hau
          simp only [List.idxOf_cons_self, List.idxOf_cons_ne _ hav,
            Nat.succ_pos]
        rw [List.idxOf_cons_ne _ hau, List.idxOf_cons_ne _ hav,
          List.idxOf_cons_ne _ hau, List.idxOf_cons_ne _ hav,
          Nat.succ_lt_succ_iff, Nat.succ_lt_succ_iff]
        refine ih ?_ ?_
        · rw [List.mem_cons, not_or]
          exact ⟨Ne.symm hau, hu⟩
        · rw [List.mem_cons, not_or]
          exact ⟨Ne.symm hav, hv⟩

/-- In a list made of blocks the first occurrences are ordered by block, and
within a block by place. -/
theorem idxOf_flatMap_lt_iff {β : Type} (ms : List β) (block : β → List α)
    (u v : α) :
    (ms.flatMap block).idxOf u < (ms.flatMap block).idxOf v ↔
      ms.findIdx (fun m => (block m).contains u) <
        ms.findIdx (fun m => (block m).contains v) ∨
        ms.findIdx (fun m => (block m).contains u) =
          ms.findIdx (fun m => (block m).contains v) ∧
          ∃ m, ms[ms.findIdx fun m => (block m).contains u]? = some m ∧
            (block m).idxOf u < (block m).idxOf v := by
  induction ms with
  | nil => simp
  | cons m rest ih =>
      rw [List.flatMap_cons, List.findIdx_cons, List.findIdx_cons]
      by_cases hu : u ∈ block m <;> by_cases hv : v ∈ block m
      · simp [List.idxOf_append_of_mem, hu, hv]
      · have hlt : (block m).idxOf u < (block m).length :=
          List.idxOf_lt_length_of_mem hu
        simp only [List.idxOf_append_of_mem hu, List.idxOf_append_of_notMem hv,
          List.contains_eq_mem, hu, hv, decide_true, decide_false,
          cond_true, cond_false, Nat.succ_pos, true_or, iff_true]
        omega
      · have hlt : (block m).idxOf v < (block m).length :=
          List.idxOf_lt_length_of_mem hv
        simp only [List.idxOf_append_of_mem hv, List.idxOf_append_of_notMem hu,
          List.contains_eq_mem, hu, hv, decide_true, decide_false,
          cond_true, cond_false]
        omega
      · simp only [List.idxOf_append_of_notMem hu,
          List.idxOf_append_of_notMem hv, List.contains_eq_mem, hu, hv,
          decide_false, cond_false, Nat.add_lt_add_iff_left,
          Nat.add_lt_add_iff_right, Nat.add_right_cancel_iff,
          List.getElem?_cons_succ]
        simpa only [List.contains_eq_mem] using ih

/-! ## The order of a walk -/

theorem walk_eq_append_fresh (seen queue : List α) :
    arcs.walk seen queue =
      queue ++ fresh seen ((arcs.walk seen queue).flatMap arcs.heads) := by
  induction seen, queue using walk.induct arcs with
  | case1 => simp [fresh]
  | case2 seen a queue new ih =>
      rw [walk_cons, List.flatMap_cons, fresh_append, List.cons_append]
      congr 1
      rw [← List.append_assoc]
      exact ih

/-- A vertex that was not queued at the start is visited after the one that
leads to it first. -/
theorem findIdx_heads_lt_idxOf_walk {seen queue : List α} {v : α}
    (hv : v ∈ arcs.walk seen queue) (hqueue : v ∉ queue) :
    (arcs.walk seen queue).findIdx (fun a => (arcs.heads a).contains v) <
      (arcs.walk seen queue).idxOf v := by
  induction seen, queue using walk.induct arcs with
  | case1 => simp at hv
  | case2 seen a queue new ih =>
      rw [List.mem_cons, not_or] at hqueue
      rw [walk_cons] at hv ⊢
      rw [List.findIdx_cons, List.idxOf_cons_ne _ (Ne.symm hqueue.1)]
      by_cases hhead : (arcs.heads a).contains v = true
      · rw [hhead]
        exact Nat.succ_pos _
      · have hnew : v ∉ queue ++ new := by
          rw [List.mem_append, not_or]
          refine ⟨hqueue.2, fun h => hhead ?_⟩
          exact List.contains_iff_mem.2 (mem_fresh.1 h).1
        rw [Bool.not_eq_true] at hhead
        rw [hhead]
        exact Nat.succ_lt_succ (ih (List.mem_of_ne_of_mem hqueue.1 hv) hnew)

end Workbench.Arcs
