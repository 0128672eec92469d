import Mathlib.Data.Finset.Card
import Mathlib.Data.List.Induction

/-!
# First occurrences

A list without its repetitions names what occurs in it, each once, in the order
of the first occurrences. Told from the end of the list, a member is added to
what is there if it has not occurred before (`eraseDups_concat`); so it stands
behind as many members as there are different ones before its first occurrence
(`idxOf_eraseDups`).
-/

namespace Workbench

variable {α : Type} [DecidableEq α]

theorem eraseDups_concat (l : List α) (a : α) :
    (l ++ [a]).eraseDups =
      if a ∈ l then l.eraseDups else l.eraseDups ++ [a] := by
  rw [List.eraseDups_append, List.removeAll]
  split
  · next h =>
      rw [List.filter_cons_of_neg (by simpa using h), List.filter_nil,
        List.eraseDups_nil, List.append_nil]
  · next h =>
      rw [List.filter_cons_of_pos (by simpa using h), List.filter_nil,
        List.eraseDups_cons, List.filter_nil, List.eraseDups_nil]

theorem nodup_eraseDups (l : List α) : l.eraseDups.Nodup := by
  induction l using List.reverseRecOn with
  | nil => exact .nil
  | append_singleton l a ih =>
      rw [eraseDups_concat]
      split
      · exact ih
      · next h =>
          rw [← List.concat_eq_append]
          exact ih.concat fun ha => h (List.mem_eraseDups.1 ha)

theorem eraseDups_eq_self {l : List α} (h : l.Nodup) : l.eraseDups = l := by
  induction l using List.reverseRecOn with
  | nil => rfl
  | append_singleton l a ih =>
      obtain ⟨hl, -, hdisjoint⟩ := List.nodup_append'.1 h
      have hnot : a ∉ l := fun ha => hdisjoint ha (List.mem_singleton_self a)
      rw [eraseDups_concat, if_neg hnot, ih hl]

theorem eraseDups_map {β : Type} [DecidableEq β] {g : α → β}
    (hg : Function.Injective g) (l : List α) :
    (l.map g).eraseDups = l.eraseDups.map g := by
  induction l using List.reverseRecOn with
  | nil => rfl
  | append_singleton l a ih =>
      simp only [List.map_append, List.map_singleton, eraseDups_concat, ih,
        List.mem_map_of_injective hg]
      split
      · rfl
      · rw [List.map_append, List.map_singleton]

theorem length_eraseDups (l : List α) :
    l.eraseDups.length = l.toFinset.card := by
  rw [← List.toFinset_card_of_nodup (nodup_eraseDups l)]
  refine congrArg Finset.card (Finset.ext fun a => ?_)
  rw [List.mem_toFinset, List.mem_toFinset, List.mem_eraseDups]

theorem idxOf_eraseDups {l : List α} {a : α} (h : a ∈ l) :
    l.eraseDups.idxOf a = (l.take (l.idxOf a)).toFinset.card := by
  obtain ⟨before, after, rfl, hbefore⟩ := List.eq_append_cons_of_mem h
  have hplace : (before ++ a :: after).idxOf a = before.length := by
    rw [List.idxOf_append_of_notMem hbefore, List.idxOf_cons_self, Nat.add_zero]
  have hnew : a ∉ before.eraseDups :=
    fun ha => hbefore (List.mem_eraseDups.1 ha)
  rw [hplace, List.take_left, ← length_eraseDups, List.eraseDups_append,
    List.removeAll, List.filter_cons_of_pos (by simpa using hbefore),
    List.eraseDups_cons, List.idxOf_append_of_notMem hnew,
    List.idxOf_cons_self, Nat.add_zero]

end Workbench
