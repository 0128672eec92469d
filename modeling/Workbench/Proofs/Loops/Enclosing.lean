import Mathlib.Data.List.Nodup
import Mathlib.Data.List.Perm.Subperm
import Workbench.Proofs.Loops.Body

/-!
# The order of the loops around a node

The loops around a node are sorted by `LoopBodies.precedes`: larger bodies
first, and where bodies are equally large the lesser identifier first. This is a
total order, so the sorted list is in order whatever order the bodies came in,
and of two loops around a node the one with the larger body comes first.
-/

namespace Workbench

theorem Uuid.not_lt_trans {a b c : Uuid} (hab : ¬ b < a) (hbc : ¬ c < b) :
    ¬ c < a :=
  List.not_lt.2 (List.le_trans (List.not_lt.1 hab) (List.not_lt.1 hbc))

theorem Uuid.not_lt_or_not_lt (a b : Uuid) : ¬ b < a ∨ ¬ a < b :=
  (List.le_total a.digits b.digits).imp List.not_lt.2 List.not_lt.2

theorem Uuid.eq_of_not_lt {a b : Uuid} (hab : ¬ a < b) (hba : ¬ b < a) :
    a = b := by
  obtain ⟨digits, hdigits⟩ := a
  obtain ⟨others, hothers⟩ := b
  have heq : digits = others :=
    List.le_antisymm (List.not_lt.1 hba) (List.not_lt.1 hab)
  subst heq
  rfl

/-- In a list in order, of two elements that can only stand one way round the
one stands before the other. -/
theorem pair_sublist_of_pairwise {α : Type} {r : α → α → Prop} {l : List α}
    {a b : α} (hordered : l.Pairwise r) (ha : a ∈ l) (hb : b ∈ l) (hne : a ≠ b)
    (hnot : ¬ r b a) : [a, b].Sublist l := by
  induction l with
  | nil => cases ha
  | cons x rest ih =>
      obtain ⟨hfirst, hrest⟩ := List.pairwise_cons.1 hordered
      rcases List.mem_cons.1 ha with rfl | ha
      · have hb : b ∈ rest := (List.mem_cons.1 hb).resolve_left hne.symm
        exact (List.singleton_sublist.2 hb).cons_cons a
      · rcases List.mem_cons.1 hb with hbx | hb
        · exact absurd (hbx ▸ hfirst a ha) hnot
        · exact (ih hrest ha hb).cons x

/-- What stands before another element is not the last. -/
theorem getLast?_ne_of_pair_sublist {α : Type} {l : List α} {a b : α}
    (hnodup : l.Nodup) (h : [a, b].Sublist l) : l.getLast? ≠ some a := by
  intro hlast
  obtain ⟨before, rfl⟩ := List.getLast?_eq_some_iff.1 hlast
  -- Whatever of the pair the last place does not give stands before it.
  obtain ⟨left, right, hsplit, hleft, hright⟩ := List.sublist_append_iff.1 h
  have hbefore : a ∈ before := by
    cases left with
    | nil =>
        rw [List.nil_append] at hsplit
        have hle := hright.length_le
        rw [← hsplit] at hle
        simp at hle
    | cons x left =>
        rw [List.cons_append, List.cons.injEq] at hsplit
        rw [hsplit.1]
        exact hleft.subset (List.mem_cons_self ..)
  exact (List.nodup_append.1 hnodup).2.2 a hbefore a
    (List.mem_singleton_self a) rfl

theorem NodeSet.StrictlyWithin.size_lt {inner outer : NodeSet}
    (h : inner.StrictlyWithin outer) : inner.size < outer.size := by
  obtain ⟨hsub, id, houter, hinner⟩ := h
  have hcons : (id :: inner.toList).Nodup :=
    List.nodup_cons.2 ⟨hinner, inner.nodup⟩
  have hall : id :: inner.toList ⊆ outer.toList := by
    intro x hx
    rcases List.mem_cons.1 hx with rfl | hx
    · exact houter
    · exact hsub x hx
  exact (hcons.subperm hall).length_le

namespace LoopBodies

variable {loops : LoopBodies} {a b c : Uuid × NodeSet} {v : Uuid}

theorem precedes_iff :
    precedes a b = true ↔
      b.2.size < a.2.size ∨ a.2.size = b.2.size ∧ ¬ b.1 < a.1 := by
  simp only [precedes, Bool.or_eq_true, Bool.and_eq_true, decide_eq_true_eq,
    beq_iff_eq, Bool.not_eq_true', decide_eq_false_iff_not]

theorem precedes_trans (hab : precedes a b = true) (hbc : precedes b c = true) :
    precedes a c = true := by
  rw [precedes_iff] at hab hbc ⊢
  rcases hab with hab | ⟨hab, hltab⟩
  · exact .inl (by omega)
  · rcases hbc with hbc | ⟨hbc, hltbc⟩
    · exact .inl (by omega)
    · exact .inr ⟨hab.trans hbc, Uuid.not_lt_trans hltab hltbc⟩

theorem precedes_total (a b : Uuid × NodeSet) :
    (precedes a b || precedes b a) = true := by
  rw [Bool.or_eq_true, precedes_iff, precedes_iff]
  rcases Nat.lt_trichotomy a.2.size b.2.size with h | h | h
  · exact .inr (.inl h)
  · rcases Uuid.not_lt_or_not_lt a.1 b.1 with hlt | hlt
    · exact .inl (.inr ⟨h, hlt⟩)
    · exact .inr (.inr ⟨h.symm, hlt⟩)
  · exact .inl (.inl h)

/-- The loops around a node with their bodies, in order. -/
theorem pairwise_mergeSort_precedes (bodies : List (Uuid × NodeSet)) :
    (bodies.mergeSort precedes).Pairwise fun a b => precedes a b = true := by
  refine List.pairwise_mergeSort ?_ precedes_total bodies
  exact fun _ _ _ => precedes_trans

/-! ## The order is fixed by what is sorted -/

/-- A loop with the size of its body, which is all that sorting looks at. -/
def weigh (entry : Uuid × NodeSet) : Uuid × Nat := (entry.1, entry.2.size)

def Before (a b : Uuid × Nat) : Prop := b.2 < a.2 ∨ a.2 = b.2 ∧ ¬ b.1 < a.1

theorem Before.antisymm {a b : Uuid × Nat} (hab : Before a b)
    (hba : Before b a) : a = b := by
  unfold Before at hab hba
  rcases hab with hlt | ⟨hsize, hab⟩
  · omega
  · rcases hba with hgt | ⟨-, hba⟩
    · omega
    · exact Prod.ext (Uuid.eq_of_not_lt hba hab) hsize

/-- The loops around a node with the sizes of their bodies, as the bodies are
kept. -/
def around (loops : LoopBodies) (v : Uuid) : List (Uuid × Nat) :=
  (loops.bodies.filter (·.2.contains v)).map weigh

/-- The same in order. -/
def ranked (loops : LoopBodies) (v : Uuid) : List (Uuid × Nat) :=
  ((loops.bodies.filter (·.2.contains v)).mergeSort precedes).map weigh

theorem enclosing_eq_map_ranked (loops : LoopBodies) (v : Uuid) :
    loops.enclosing v = (loops.ranked v).map (·.1) := by
  rw [ranked, List.map_map]
  rfl

theorem ranked_perm (loops : LoopBodies) (v : Uuid) :
    (loops.ranked v).Perm (loops.around v) :=
  (List.mergeSort_perm _ precedes).map weigh

theorem pairwise_ranked (loops : LoopBodies) (v : Uuid) :
    (loops.ranked v).Pairwise Before :=
  List.pairwise_map.2 ((pairwise_mergeSort_precedes _).imp precedes_iff.1)

/-- It does not matter for the loops around a node in which order the bodies are
kept. -/
theorem enclosing_eq_of_perm {other : LoopBodies}
    (h : (loops.around v).Perm (other.around v)) :
    loops.enclosing v = other.enclosing v := by
  have hperm : (loops.ranked v).Perm (other.ranked v) :=
    ((ranked_perm loops v).trans h).trans (ranked_perm other v).symm
  have hsame : loops.ranked v = other.ranked v :=
    hperm.eq_of_pairwise (fun _ _ _ _ => Before.antisymm)
      (pairwise_ranked loops v)
      (pairwise_ranked other v)
  rw [enclosing_eq_map_ranked, enclosing_eq_map_ranked, hsame]

theorem mem_of_body? {loopId : Uuid} {body : NodeSet}
    (h : loops.body? loopId = some body) : (loopId, body) ∈ loops.bodies := by
  obtain ⟨before, after, hsplit, -⟩ := List.lookup_eq_some_iff.1 h
  rw [hsplit]
  simp

theorem nodup_enclosing (h : (loops.bodies.map (·.1)).Nodup) :
    (loops.enclosing v).Nodup := by
  have hperm := (List.mergeSort_perm
    (loops.bodies.filter (·.2.contains v)) precedes).map (·.1)
  rw [enclosing, hperm.nodup_iff]
  exact h.sublist (List.filter_sublist.map _)

/-- Of two loops around a node the one with the larger body is listed first. -/
theorem pair_sublist_enclosing (ha : a ∈ loops.bodies) (hb : b ∈ loops.bodies)
    (hva : v ∈ a.2.toList) (hvb : v ∈ b.2.toList) (hlt : b.2.size < a.2.size) :
    [a.1, b.1].Sublist (loops.enclosing v) := by
  have hmem : ∀ {c}, c ∈ loops.bodies → v ∈ c.2.toList →
      c ∈ (loops.bodies.filter (·.2.contains v)).mergeSort precedes := by
    intro c hc hv
    exact List.mem_mergeSort.2
      (List.mem_filter.2 ⟨hc, NodeSet.contains_iff.2 hv⟩)
  refine (pair_sublist_of_pairwise (pairwise_mergeSort_precedes _)
    (hmem ha hva) (hmem hb hvb) ?_ ?_).map (·.1)
  · intro heq
    rw [heq] at hlt
    exact Nat.lt_irrefl _ hlt
  · rw [precedes_iff]
    omega

theorem innermost?_ne (h : (loops.bodies.map (·.1)).Nodup)
    {outerId innerId : Uuid}
    (hpair : [outerId, innerId].Sublist (loops.enclosing v)) :
    loops.innermost? v ≠ some outerId :=
  getLast?_ne_of_pair_sublist (nodup_enclosing h) hpair

end LoopBodies

end Workbench
