/-!
# Breadth-first walks

A graph is given by the list of its arcs. A walk keeps the vertices it has seen
and a queue of those it has yet to visit; a vertex counts as seen from the
moment it enters the queue, so none enters twice. The arcs that leave a vertex
are followed in the order of the list, which fixes the order of the walk.

Every vertex that enters the queue takes at least one arc with it that will
never lead to something new again (`length_fresh_add_unexplored_le`). That is
why a walk ends on every graph.
-/

namespace Workbench

/-- A graph as the list of its arcs, each from its first vertex to its
second. -/
abbrev Arcs (α : Type) := List (α × α)

namespace Arcs

variable {α : Type} [DecidableEq α]

/-- Where the arcs that leave a vertex lead, in the order of the arcs. -/
def heads (arcs : Arcs α) (a : α) : List α := (arcs.filter (·.1 == a)).map (·.2)

/-- The vertices of a list that have not been seen, each at its first place. -/
def fresh (seen : List α) : List α → List α
  | [] => []
  | a :: rest =>
      if seen.contains a then fresh seen rest else a :: fresh (a :: seen) rest

/-- The number of arcs that lead to a vertex not seen yet. -/
def unexplored (arcs : Arcs α) (seen : List α) : Nat :=
  arcs.countP fun arc => !seen.contains arc.2

theorem mem_of_mem_heads {arcs : Arcs α} {a b : α} (h : b ∈ arcs.heads a) :
    (a, b) ∈ arcs := by
  simp only [heads, List.mem_map, List.mem_filter, beq_iff_eq] at h
  obtain ⟨⟨x, y⟩, ⟨hmem, rfl⟩, rfl⟩ := h
  exact hmem

/-- Seeing the head of an arc for the first time leaves fewer arcs
unexplored. -/
theorem unexplored_cons_lt {arcs : Arcs α} {seen : List α} {a b : α}
    (harc : (a, b) ∈ arcs) (hseen : b ∉ seen) :
    arcs.unexplored (b :: seen) < arcs.unexplored seen := by
  induction arcs with
  | nil => cases harc
  | cons arc rest ih =>
    have hle : rest.countP (fun arc => !(b :: seen).contains arc.2) ≤
        rest.countP (fun arc => !seen.contains arc.2) :=
      List.countP_mono_left fun x _ hx => by simp_all
    simp only [unexplored, List.countP_cons]
    by_cases hb : arc.2 = b
    · have hnow : (b :: seen).contains arc.2 = true := by simp [hb]
      have hbefore : seen.contains arc.2 = false := by simp [hb, hseen]
      simp only [hnow, hbefore, Bool.not_true, Bool.not_false, if_true,
        Bool.false_eq_true, if_false]
      omega
    · have hlt := ih (by grind)
      have : (b :: seen).contains arc.2 = seen.contains arc.2 := by simp [hb]
      simp only [unexplored] at hlt
      rw [this]
      omega

/-- Each fresh vertex pays for itself with an arc. -/
theorem length_fresh_add_unexplored_le {arcs : Arcs α}
    (candidates seen : List α) (h : ∀ b ∈ candidates, ∃ a, (a, b) ∈ arcs) :
    (fresh seen candidates).length +
      arcs.unexplored (fresh seen candidates ++ seen) ≤
      arcs.unexplored seen := by
  induction candidates generalizing seen with
  | nil => simp [fresh]
  | cons b rest ih =>
    have hrest : ∀ c ∈ rest, ∃ a, (a, c) ∈ arcs :=
      fun c hc => h c (List.mem_cons_of_mem _ hc)
    rw [fresh]
    split
    · exact ih seen hrest
    · rename_i hseen
      obtain ⟨a, ha⟩ := h b (List.mem_cons_self ..)
      have hlt := unexplored_cons_lt ha (by simpa using hseen)
      have hle := ih (b :: seen) hrest
      have hswap : arcs.unexplored (b :: fresh (b :: seen) rest ++ seen) =
          arcs.unexplored (fresh (b :: seen) rest ++ b :: seen) :=
        List.countP_congr fun x _ => by simp [or_left_comm]
      rw [List.length_cons, hswap]
      omega

/-- The vertices in the order in which a walk visits them that has the given
queue and has seen the given vertices. -/
def walk (arcs : Arcs α) (seen : List α) : List α → List α
  | [] => []
  | a :: queue =>
      let new := fresh seen (arcs.heads a)
      a :: arcs.walk (new ++ seen) (queue ++ new)
termination_by queue => queue.length + arcs.unexplored seen
decreasing_by
  have := length_fresh_add_unexplored_le
    (arcs.heads a) seen fun b hb => ⟨a, mem_of_mem_heads hb⟩
  simp only [List.length_append, List.length_cons]
  omega

end Arcs

end Workbench
