import Workbench.Proofs.Loops.Enclosing

/-!
# The loops around a node, in whatever order the bodies are kept

No two loops have the same identifier, so of two loops around a node one is
always strictly further out (`Encloses`): its body is the larger one, or as
large and its identifier the lesser. Hence there is one way only to list them
from the outside in, and the order in which the bodies happen to be kept leaves
no trace in the list or in its last member. It matters neither how many loops
there are nor whether their bodies lie within one another: two loops that lead
into each other can well have bodies of one size.
-/

namespace Workbench

/-- The last of a list in strict order is the one that all others stand
before. -/
theorem getLast?_eq_some_iff_of_pairwise {α : Type} {r : α → α → Prop}
    {l : List α} {a : α} (hordered : l.Pairwise r)
    (hasymm : ∀ x y, r x y → ¬ r y x) :
    l.getLast? = some a ↔ a ∈ l ∧ ∀ b ∈ l, b ≠ a → r b a := by
  refine ⟨fun hlast => ?_, fun h => ?_⟩
  · obtain ⟨before, rfl⟩ := List.getLast?_eq_some_iff.1 hlast
    refine ⟨List.mem_append_right _ (List.mem_singleton_self a),
      fun b hb hne => ?_⟩
    rcases List.mem_append.1 hb with hb | hb
    · exact (List.pairwise_append.1 hordered).2.2 b hb a
        (List.mem_singleton_self a)
    · exact absurd (List.mem_singleton.1 hb) hne
  · obtain ⟨ha, hall⟩ := h
    have hne : l ≠ [] := List.ne_nil_of_mem ha
    have hsplit := List.dropLast_append_getLast hne
    rw [List.getLast?_eq_some_getLast hne, Option.some.injEq]
    by_contra hother
    -- What is not the last stands before the last, and so on both sides of it.
    have hbefore : a ∈ l.dropLast := by
      rw [← hsplit, List.mem_append] at ha
      exact ha.resolve_right fun h => hother (List.mem_singleton.1 h).symm
    rw [← hsplit] at hordered
    have hlast := (List.pairwise_append.1 hordered).2.2 a hbefore _
      (List.mem_singleton_self _)
    exact hasymm _ _ hlast (hall _ (List.getLast_mem hne) hother)

theorem Uuid.lt_of_not_lt_of_ne {a b : Uuid} (h : ¬ b < a) (hne : a ≠ b) :
    a < b :=
  Decidable.byContradiction fun hnot => hne (Uuid.eq_of_not_lt hnot h)

theorem Uuid.not_lt_of_lt {a b : Uuid} (h : a < b) : ¬ b < a :=
  List.not_lt.2 (List.le_of_lt h)

namespace LoopBodies

variable {loops : LoopBodies} {v : Uuid} {a b : Uuid × NodeSet}

/-- One of the loops has the node in its body. -/
def Surrounds (loops : LoopBodies) (v : Uuid) (entry : Uuid × NodeSet) : Prop :=
  loops.body? entry.1 = some entry.2 ∧ v ∈ entry.2.toList

/-- The first of two loops is further out: its body is larger, or the bodies are
equally large and its identifier is less. -/
def Encloses (a b : Uuid × NodeSet) : Prop :=
  b.2.size < a.2.size ∨ a.2.size = b.2.size ∧ a.1 < b.1

/-- Every loop around the node is listed once, the outermost first, and the
innermost one is told if there is any. -/
structure Around (loops : LoopBodies) (v : Uuid) (ids : List Uuid)
    (innermost : Option Uuid) : Prop where
  nodup : ids.Nodup
  mem_iff : ∀ id, id ∈ ids ↔ ∃ body, loops.Surrounds v (id, body)
  ordered : ids.Pairwise fun outer inner => ∀ outerBody innerBody,
    loops.body? outer = some outerBody → loops.body? inner = some innerBody →
      Encloses (outer, outerBody) (inner, innerBody)
  innermost_eq_none_iff : innermost = none ↔
    ∀ id body, ¬ loops.Surrounds v (id, body)
  innermost_eq_some_iff : ∀ id, innermost = some id ↔ ∃ body,
    loops.Surrounds v (id, body) ∧
    ∀ other otherBody, loops.Surrounds v (other, otherBody) → other ≠ id →
      Encloses (other, otherBody) (id, body)

theorem Encloses.asymm (hab : Encloses a b) : ¬ Encloses b a := by
  intro hba
  rcases hab with hlt | ⟨hsize, hlt⟩
  · rcases hba with hgt | ⟨hsize, -⟩ <;> omega
  · rcases hba with hgt | ⟨-, hgt⟩
    · omega
    · exact Uuid.not_lt_of_lt hlt hgt

/-- Where identifiers differ the order of sorting is strict. -/
theorem encloses_of_precedes (h : precedes a b = true) (hne : a.1 ≠ b.1) :
    Encloses a b := by
  rcases precedes_iff.1 h with hlt | ⟨hsize, hle⟩
  · exact .inl hlt
  · exact .inr ⟨hsize, Uuid.lt_of_not_lt_of_ne hle hne⟩

section

variable (hids : (loops.bodies.map (·.1)).Nodup)

include hids

/-- With distinct identifiers a loop has one body, and a look-up finds it. -/
theorem mem_bodies_iff : a ∈ loops.bodies ↔ loops.body? a.1 = some a.2 := by
  refine ⟨fun ha => ?_, mem_of_body?⟩
  cases hbody : loops.body? a.1 with
  | none =>
      have hne := List.lookup_eq_none_iff.1 hbody a ha
      simp at hne
  | some body =>
      have hsame : (a.1, body) = a :=
        List.inj_on_of_nodup_map hids (mem_of_body? hbody) ha rfl
      rw [← hsame]

/-- The loops that are sorted are those around the node. -/
theorem mem_mergeSort_iff :
    a ∈ (loops.bodies.filter (·.2.contains v)).mergeSort precedes ↔
      loops.Surrounds v a := by
  rw [List.mem_mergeSort, List.mem_filter, mem_bodies_iff hids,
    NodeSet.contains_iff, Surrounds]

theorem pairwise_encloses :
    ((loops.bodies.filter (·.2.contains v)).mergeSort precedes).Pairwise
      Encloses := by
  have hdistinct := nodup_enclosing (v := v) hids
  rw [enclosing, List.Nodup, List.pairwise_map] at hdistinct
  exact (pairwise_mergeSort_precedes _).imp₂
    (fun _ _ => encloses_of_precedes) hdistinct

theorem around_enclosing :
    loops.Around v (loops.enclosing v) (loops.innermost? v) := by
  have hinner : loops.innermost? v =
      ((loops.bodies.filter (·.2.contains v)).mergeSort precedes).getLast?.map
        (·.1) :=
    List.getLast?_map
  have hasymm : ∀ x y : Uuid × NodeSet, Encloses x y → ¬ Encloses y x :=
    fun _ _ => Encloses.asymm
  refine ⟨nodup_enclosing hids, fun id => ?_, ?_, ?_, fun id => ?_⟩
  · rw [enclosing, List.mem_map]
    refine ⟨fun h => ?_, fun h => ?_⟩
    · obtain ⟨entry, hentry, rfl⟩ := h
      exact ⟨entry.2, (mem_mergeSort_iff hids).1 hentry⟩
    · obtain ⟨body, hbody⟩ := h
      exact ⟨(id, body), (mem_mergeSort_iff hids).2 hbody, rfl⟩
  · refine List.pairwise_map.2
      (List.Pairwise.imp_of_mem ?_ (pairwise_encloses hids))
    intro outer inner houter hinner hencloses outerBody innerBody
      houterBody hinnerBody
    obtain rfl : outer.2 = outerBody :=
      Option.some.inj
        (((mem_mergeSort_iff hids).1 houter).1.symm.trans houterBody)
    obtain rfl : inner.2 = innerBody :=
      Option.some.inj
        (((mem_mergeSort_iff hids).1 hinner).1.symm.trans hinnerBody)
    exact hencloses
  · rw [hinner, Option.map_eq_none_iff, List.getLast?_eq_none_iff,
      List.eq_nil_iff_forall_not_mem]
    refine ⟨fun hnone id body h => ?_, fun hnone entry h => ?_⟩
    · exact hnone (id, body) ((mem_mergeSort_iff hids).2 h)
    · exact hnone entry.1 entry.2 ((mem_mergeSort_iff hids).1 h)
  · rw [hinner, Option.map_eq_some_iff]
    refine ⟨fun h => ?_, fun h => ?_⟩
    · obtain ⟨entry, hlast, rfl⟩ := h
      obtain ⟨hentry, hall⟩ :=
        (getLast?_eq_some_iff_of_pairwise (pairwise_encloses hids) hasymm).1
          hlast
      refine ⟨entry.2, (mem_mergeSort_iff hids).1 hentry,
        fun other otherBody hother hne => ?_⟩
      refine hall (other, otherBody)
        ((mem_mergeSort_iff hids).2 hother) fun heq => hne ?_
      rw [← heq]
    · obtain ⟨body, hbody, hall⟩ := h
      refine ⟨(id, body), ?_, rfl⟩
      refine (getLast?_eq_some_iff_of_pairwise
        (pairwise_encloses hids) hasymm).2
        ⟨(mem_mergeSort_iff hids).2 hbody, fun other hother hne => ?_⟩
      have hsurrounds := (mem_mergeSort_iff hids).1 hother
      refine hall other.1 other.2 hsurrounds fun heq => hne (Prod.ext heq ?_)
      have hfound : loops.body? id = some other.2 := heq ▸ hsurrounds.1
      exact Option.some.inj (hfound.symm.trans hbody.1)

end

end LoopBodies

namespace Workflow

/-- The loops around a node are listed alike in whatever order the bodies are
kept: each once, a larger body before a smaller one and, where bodies are
equally large, the lesser identifier before the greater. The innermost one is
the last of them, and there is none only where no body holds the node. -/
theorem enclosing_of_bodies_perm {workflow : Workflow}
    {bodies : List (Uuid × NodeSet)}
    (h : bodies.Perm workflow.loopBodies.bodies) (v : Uuid) :
    (LoopBodies.mk bodies).enclosing v = workflow.loopBodies.enclosing v ∧
      (LoopBodies.mk bodies).innermost? v = workflow.loopBodies.innermost? v ∧
      workflow.loopBodies.Around v ((LoopBodies.mk bodies).enclosing v)
        ((LoopBodies.mk bodies).innermost? v) := by
  have hperm :
      ((LoopBodies.mk bodies).around v).Perm (workflow.loopBodies.around v) :=
    (h.filter _).map LoopBodies.weigh
  have hsame := LoopBodies.enclosing_eq_of_perm hperm
  have hinner : (LoopBodies.mk bodies).innermost? v =
      workflow.loopBodies.innermost? v :=
    congrArg List.getLast? hsame
  refine ⟨hsame, hinner, ?_⟩
  rw [hsame, hinner]
  exact LoopBodies.around_enclosing (nodup_loopIds workflow)

/-- Two loops over one action that leads on to the heads of both: each loop is
in the body of the other, and the bodies are equally large. -/
def knot : Workflow where
  id := .ofNat 0
  name := "knot"
  nodes :=
    [{ id := .ofNat 1, name := "left"
       step := .loop { exitCondition := ⟨"x", .isEmpty, .null⟩ } },
      { id := .ofNat 2, name := "right"
        step := .loop { exitCondition := ⟨"x", .isEmpty, .null⟩ } },
      { id := .ofNat 3, name := "act", step := .typeText {} }]
  edges :=
    [⟨.ofNat 1, .ofNat 3, some .loopBody⟩, ⟨.ofNat 2, .ofNat 3, some .loopBody⟩,
      ⟨.ofNat 3, .ofNat 2, none⟩, ⟨.ofNat 3, .ofNat 1, none⟩]

/-- With the bodies kept the other way round. -/
theorem knot_enclosing_of_bodies_perm :
    knot.loopBodies.bodies.reverse.Perm knot.loopBodies.bodies ∧
      (LoopBodies.mk knot.loopBodies.bodies.reverse).enclosing (.ofNat 3) =
        [.ofNat 1, .ofNat 2] ∧
      (LoopBodies.mk knot.loopBodies.bodies.reverse).innermost? (.ofNat 3) =
        some (.ofNat 2) ∧
      ∃ body, knot.loopBodies.Surrounds (.ofNat 3) (.ofNat 2, body) ∧
        ∀ other otherBody,
          knot.loopBodies.Surrounds (.ofNat 3) (other, otherBody) →
          other ≠ .ofNat 2 →
          LoopBodies.Encloses (other, otherBody) (.ofNat 2, body) := by
  have hperm := List.reverse_perm knot.loopBodies.bodies
  obtain ⟨henclosing, hinnermost, haround⟩ :=
    enclosing_of_bodies_perm hperm (.ofNat 3)
  have hlisted : knot.loopBodies.enclosing (.ofNat 3) =
      [.ofNat 1, .ofNat 2] := by
    rw [LoopBodies.enclosing, List.mergeSort_of_pairwise (by decide +kernel)]
    decide +kernel
  have hlast :
      (LoopBodies.mk knot.loopBodies.bodies.reverse).innermost? (.ofNat 3) =
      some (.ofNat 2) := by
    rw [hinnermost, LoopBodies.innermost?, hlisted]
    rfl
  exact ⟨hperm, henclosing.trans hlisted, hlast,
    (haround.innermost_eq_some_iff _).1 hlast⟩

end Workflow

end Workbench
