import Mathlib.Logic.Function.Iterate
import Mathlib.Tactic.Simps.Basic
import Workbench.Proofs.Session.Run

/-!
# Timelines

A timeline lists the versions of a workflow, with a label between each and the
next, and a cursor on the live one. There are no stacks and no limits in it:
going back and forth moves the cursor and touches nothing else, and recording a
change cuts off what lies after the cursor and puts the new version there. Only
then is the timeline trimmed to a capacity, and it is the oldest versions that
go.
-/

namespace Workbench

/-- Versions of a workflow in time with the labels of the changes between
them. -/
@[ext] structure Timeline where
  versions : List Workflow
  labels : List String
  cursor : Nat
  length_versions : versions.length = labels.length + 1
  cursor_le : cursor ≤ labels.length

namespace Timeline

variable {ρ : Type} {timeline : Timeline}

def length (timeline : Timeline) : Nat := timeline.labels.length

theorem cursor_lt (timeline : Timeline) :
    timeline.cursor < timeline.versions.length := by
  have := timeline.length_versions
  have := timeline.cursor_le
  omega

/-- The version at the cursor. -/
def live (timeline : Timeline) : Workflow :=
  timeline.versions.get ⟨timeline.cursor, timeline.cursor_lt⟩

def start (workflow : Workflow) : Timeline :=
  ⟨[workflow], [], 0, rfl, Nat.le_refl _⟩

/-- The cursor one version back, if there is one. -/
@[simps] def back (timeline : Timeline) : Timeline :=
  { timeline with
    cursor := timeline.cursor - 1
    cursor_le := Nat.le_trans (Nat.sub_le ..) timeline.cursor_le }

@[simps] def forth (timeline : Timeline) : Timeline :=
  { timeline with
    cursor := min (timeline.cursor + 1) timeline.labels.length
    cursor_le := Nat.min_le_right .. }

/-- Without what lies after the cursor. -/
@[simps] def cut (timeline : Timeline) : Timeline where
  versions := timeline.versions.take (timeline.cursor + 1)
  labels := timeline.labels.take timeline.cursor
  cursor := timeline.cursor
  length_versions := by
    have := timeline.length_versions
    have := timeline.cursor_le
    rw [List.length_take, List.length_take]
    omega
  cursor_le := by
    have := timeline.cursor_le
    rw [List.length_take]
    omega

/-- With one more version at the end, and the cursor on it. -/
@[simps] def append (timeline : Timeline) (label : String)
    (workflow : Workflow) : Timeline where
  versions := timeline.versions ++ [workflow]
  labels := timeline.labels ++ [label]
  cursor := timeline.labels.length + 1
  length_versions := by
    rw [List.length_append, List.length_append, timeline.length_versions]
    rfl
  cursor_le := by
    rw [List.length_append]
    exact Nat.le_refl _

/-- Without just as many of the oldest versions as it takes to keep to the
capacity. -/
@[simps] def trim (timeline : Timeline) (capacity : Nat) : Timeline where
  versions := timeline.versions.drop (timeline.length - capacity)
  labels := timeline.labels.drop (timeline.length - capacity)
  cursor := timeline.cursor - (timeline.length - capacity)
  length_versions := by
    have := timeline.length_versions
    rw [List.length_drop, List.length_drop, length]
    omega
  cursor_le := by
    have := timeline.cursor_le
    rw [List.length_drop]
    omega

/-- With a new version after the one at the cursor, as far as the capacity
goes. -/
def record (timeline : Timeline) (capacity : Nat) (label : String)
    (workflow : Workflow) : Timeline :=
  (timeline.cut.append label workflow).trim capacity

/-- What becomes of a timeline when an operation has been performed and
answered. -/
def after (timeline : Timeline) (capacity : Nat) :
    Operation ρ → Answer ρ → Timeline
  | .undo, _ => timeline.back
  | .redo, _ => timeline.forth
  | .record label, _ => timeline.record capacity label timeline.live
  | .edit label change, _ =>
      timeline.record capacity label (change timeline.live).2
  | .merge patch _, .merged (.ok _) =>
      timeline.record capacity Session.mergeLabel
        (timeline.live.candidate patch)
  | _, _ => timeline

theorem back_iterate_cursor (timeline : Timeline) (k : Nat) :
    (back^[k] timeline).cursor = timeline.cursor - k ∧
      (back^[k] timeline).length = timeline.length := by
  induction k with
  | zero => exact ⟨rfl, rfl⟩
  | succ k ih =>
      rw [Function.iterate_succ_apply']
      refine ⟨?_, ih.2⟩
      rw [back_cursor, ih.1]
      omega

theorem forth_iterate_cursor (timeline : Timeline) (k : Nat) :
    (forth^[k] timeline).cursor = min (timeline.cursor + k) timeline.length ∧
      (forth^[k] timeline).length = timeline.length := by
  induction k with
  | zero => exact ⟨(Nat.min_eq_left timeline.cursor_le).symm, rfl⟩
  | succ k ih =>
      rw [Function.iterate_succ_apply']
      refine ⟨?_, ih.2⟩
      rw [forth_cursor, ih.1, ← length, ih.2]
      omega

theorem forth_back (h : 0 < timeline.cursor) :
    timeline.back.forth = timeline := by
  have := timeline.cursor_le
  ext1
  · rfl
  · rfl
  · rw [forth_cursor, back_cursor, back_labels]
    omega

theorem back_forth (h : timeline.cursor < timeline.length) :
    timeline.forth.back = timeline := by
  unfold length at h
  ext1
  · rfl
  · rfl
  · rw [back_cursor, forth_cursor]
    omega

theorem forth_back_iterate {k : Nat} (h : k ≤ timeline.cursor) :
    forth^[k] (back^[k] timeline) = timeline := by
  induction k with
  | zero => rfl
  | succ k ih =>
      rw [Function.iterate_succ_apply,
        Function.iterate_succ_apply' back, forth_back]
      · exact ih (Nat.le_of_succ_le h)
      · rw [(back_iterate_cursor timeline k).1]
        omega

theorem back_forth_iterate {k : Nat}
    (h : timeline.cursor + k ≤ timeline.length) :
    back^[k] (forth^[k] timeline) = timeline := by
  induction k with
  | zero => rfl
  | succ k ih =>
      rw [Function.iterate_succ_apply,
        Function.iterate_succ_apply' forth, back_forth]
      · exact ih (Nat.le_of_succ_le h)
      · obtain ⟨hcursor, hlength⟩ := forth_iterate_cursor timeline k
        omega

theorem length_trim_le (timeline : Timeline) (capacity : Nat) :
    (timeline.trim capacity).length ≤ capacity := by
  rw [length, trim_labels, List.length_drop, length]
  omega

theorem length_after_le {operation : Operation ρ} {answer : Answer ρ}
    {capacity : Nat} (h : timeline.length ≤ capacity) :
    (timeline.after capacity operation answer).length ≤ capacity := by
  unfold after
  split
  · exact h
  · exact h
  · exact length_trim_le _ capacity
  · exact length_trim_le _ capacity
  · exact length_trim_le _ capacity
  · exact h

/-- What becomes of a timeline in the course of a run. -/
def follow (timeline : Timeline) (capacity : Nat) :
    List (Operation ρ) → List (Answer ρ) → Timeline
  | operation :: operations, answer :: answers =>
      (timeline.after capacity operation answer).follow capacity
        operations answers
  | _, _ => timeline

end Timeline

end Workbench
