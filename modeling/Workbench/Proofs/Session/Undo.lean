import Workbench.Proofs.Session.Run
import Workbench.Proofs.Session.Timeline

/-!
# Undo and redo move a cursor over a timeline

A session shows a timeline if its past is what lies before the cursor and its
future what lies after. Each session shows the timeline that its stacks lay out,
and each operation does to that timeline what it is to do to a timeline; so a
run moves along the timeline that its operations make.

What makes this hold without exception is that past and future together never
exceed the capacity. Returning to a later version puts one more snapshot on the
past, and that the past is cut to the capacity then never takes effect.
-/

namespace Workbench

namespace Session

variable {ρ : Type} {session : Session} {capacity : Nat}

/-- The live workflow stands at the cursor, each workflow of the past with the
label of the change that leads away from it before the cursor, and each of the
future with the label of the change that leads to it after the cursor. -/
structure Shows (session : Session) (timeline : Timeline) : Prop where
  live : session.workflow = timeline.live
  past : session.history.past.reverse =
    List.zipWith Snapshot.mk (timeline.labels.take timeline.cursor)
      (timeline.versions.take timeline.cursor)
  future : session.history.future =
    List.zipWith Snapshot.mk (timeline.labels.drop timeline.cursor)
      (timeline.versions.drop (timeline.cursor + 1))

def goBack (session : Session) : Session := session.undo.2

def goForth (session : Session) : Session := session.redo.2

/-- The timeline laid out by the stacks of a session. -/
@[simps] def timeline (session : Session) : Timeline where
  versions := session.history.past.reverse.map (·.workflow) ++
    session.workflow :: session.history.future.map (·.workflow)
  labels := session.history.past.reverse.map (·.label) ++
    session.history.future.map (·.label)
  cursor := session.history.past.length
  length_versions := by
    simp only [List.length_append, List.length_map, List.length_reverse,
      List.length_cons]
    omega
  cursor_le := by
    simp only [List.length_append, List.length_map, List.length_reverse]
    omega

theorem zipWith_mk_map (snapshots : List Snapshot) :
    List.zipWith Snapshot.mk (snapshots.map (·.label))
      (snapshots.map (·.workflow)) = snapshots := by
  rw [List.zipWith_map, List.zipWith_self]
  exact List.map_id snapshots

theorem length_timeline (session : Session) :
    session.timeline.length =
      session.history.past.length + session.history.future.length := by
  unfold Timeline.length timeline
  rw [List.length_append, List.length_map, List.length_map, List.length_reverse]

theorem live_timeline (session : Session) :
    session.timeline.live = session.workflow := by
  unfold Timeline.live timeline
  rw [List.get_eq_getElem, List.getElem_append_right (by simp)]
  simp

theorem shows_timeline (session : Session) :
    session.Shows session.timeline := by
  refine ⟨(live_timeline session).symm, ?_, ?_⟩
  · unfold timeline
    rw [List.take_left' (by simp), List.take_left' (by simp), zipWith_mk_map]
  · unfold timeline
    rw [List.drop_left' (by simp), List.drop_append,
      List.drop_eq_nil_of_le (by simp)]
    simp

theorem eq_of_timeline_eq {session other : Session}
    (h : session.timeline = other.timeline)
    (hcapacity : session.history.capacity = other.history.capacity) :
    session.workflow = other.workflow ∧ session.history = other.history := by
  have hshows := shows_timeline session
  have hother := shows_timeline other
  rw [h] at hshows
  refine ⟨hshows.live.trans hother.live.symm, ?_⟩
  have hpast := List.reverse_inj.1 (hshows.past.trans hother.past.symm)
  have hfuture := hshows.future.trans hother.future.symm
  obtain ⟨workflow, ⟨capacity, past, future⟩, selected, options⟩ := session
  dsimp only at hpast hfuture hcapacity
  rw [hpast, hfuture, hcapacity]

/-! ## One operation -/

/-- Going back puts the snapshot that comes off the past on the future. -/
theorem timeline_undo (session : Session) :
    session.undo.1 = decide (0 < session.timeline.cursor) ∧
      session.undo.2.timeline = session.timeline.back ∧
      session.undo.2.history.capacity = session.history.capacity := by
  obtain ⟨workflow, ⟨capacity, past, future⟩, selected, options⟩ := session
  cases past with
  | nil => exact ⟨rfl, rfl, rfl⟩
  | cons last past =>
      refine ⟨rfl, ?_, rfl⟩
      ext1
      · simp [undo, History.undo?, replace, reconcile, timeline, Timeline.back]
      · simp [undo, History.undo?, replace, reconcile, timeline, Timeline.back]
      · rfl

/-- As past and future together keep to the capacity, the snapshot that comes
off the future fits on the past. -/
theorem timeline_redo (h : session.timeline.length ≤ session.history.capacity) :
    session.redo.1 =
      decide (session.timeline.cursor < session.timeline.length) ∧
      session.redo.2.timeline = session.timeline.forth ∧
      session.redo.2.history.capacity = session.history.capacity := by
  rw [length_timeline] at h ⊢
  obtain ⟨workflow, ⟨capacity, past, future⟩, selected, options⟩ := session
  cases future with
  | nil =>
      refine ⟨?_, ?_, rfl⟩
      · simp [redo, History.redo?, timeline]
      · ext1
        · rfl
        · rfl
        · simp [redo, History.redo?, timeline, Timeline.forth]
  | cons next future =>
      have hfits : (⟨next.label, workflow⟩ :: past).take capacity =
          ⟨next.label, workflow⟩ :: past := by
        apply List.take_of_length_le
        dsimp only at h
        rw [List.length_cons] at h ⊢
        omega
      have hredo :
          (Session.mk workflow ⟨capacity, past, next :: future⟩ selected
            options).redo.2 =
          (Session.mk workflow
            ⟨capacity, ⟨next.label, workflow⟩ :: past, future⟩ selected
            options).replace next.workflow := by
        simp only [redo, History.redo?, History.remember, hfits]
      refine ⟨?_, ?_, ?_⟩
      · simp [redo, History.redo?, timeline]
      · rw [hredo]
        ext1
        · simp [replace, reconcile, timeline, Timeline.forth]
        · simp [replace, reconcile, timeline, Timeline.forth]
        · simp [replace, reconcile, timeline, Timeline.forth]
      · rw [hredo]
        rfl

theorem cut_timeline (session : Session) :
    session.timeline.cut =
      { session with
        history := { session.history with future := [] } }.timeline := by
  ext1
  · rw [Timeline.cut_versions, timeline_versions, timeline_cursor,
      List.take_append, List.take_of_length_le (by simp)]
    simp
  · rw [Timeline.cut_labels, timeline_labels, timeline_cursor,
      List.take_left' (by simp)]
    simp
  · rfl

/-- Recording a change forgets the future, and cutting the past to the capacity
drops the oldest versions. -/
theorem timeline_of_push {session next : Session} {label : String}
    (h : next.history = session.history.push label session.workflow) :
    next.timeline =
      session.timeline.record session.history.capacity label next.workflow := by
  unfold Timeline.record
  rw [cut_timeline]
  ext1
  · simp only [h, History.push, History.remember, List.reverse_take,
      Timeline.length, timeline_versions,
      timeline_labels, Timeline.trim_versions, Timeline.append_versions,
      Timeline.append_labels, List.map_drop, List.map_nil]
    -- No more is dropped than was recorded, so the live version stays.
    rw [List.drop_append_of_le_length (by simp)]
    simp
  · simp [h, History.push, History.remember, List.reverse_take, Timeline.length]
  · simp [h, History.push, History.remember, Timeline.length]
    omega

/-- An operation does to the timeline of a session what it is to do to a
timeline. -/
theorem timeline_perform {next : Session} {operation : Operation ρ}
    {answer : Answer ρ}
    (hfits : session.timeline.length ≤ session.history.capacity)
    (h : session.perform? operation = some (answer, next)) :
    next.timeline =
      session.timeline.after session.history.capacity operation answer ∧
      next.history.capacity = session.history.capacity := by
  cases performs_of_perform? h with
  | select id =>
      unfold select
      split
      · exact ⟨rfl, rfl⟩
      · exact ⟨rfl, rfl⟩
  | clearSelection => exact ⟨rfl, rfl⟩
  | record label =>
      refine ⟨?_, rfl⟩
      unfold Timeline.after
      rw [live_timeline]
      exact timeline_of_push rfl
  | edit label change =>
      refine ⟨?_, rfl⟩
      unfold Timeline.after
      rw [live_timeline]
      exact timeline_of_push rfl
  | undo => exact (timeline_undo session).2
  | redo => exact (timeline_redo hfits).2
  | failed patch validator error => exact ⟨rfl, rfl⟩
  | merged patch validator accepted =>
      refine ⟨?_, rfl⟩
      unfold Timeline.after
      rw [live_timeline]
      exact timeline_of_push rfl

/-! ## Runs -/

theorem timeline_run {last : Session} {operations : List (Operation ρ)}
    {answers : List (Answer ρ)}
    (hfits : session.timeline.length ≤ session.history.capacity)
    (h : session.run? operations = some (answers, last)) :
    last.timeline =
      session.timeline.follow session.history.capacity operations answers ∧
      last.history.capacity = session.history.capacity ∧
      last.timeline.length ≤ session.history.capacity := by
  induction operations generalizing session answers with
  | nil =>
      obtain ⟨rfl, rfl⟩ := run?_nil_eq_some h
      exact ⟨rfl, rfl, hfits⟩
  | cons operation operations ih =>
      obtain ⟨answer, next, answers, hperform, hrun, rfl⟩ := run?_cons_eq_some h
      obtain ⟨htimeline, hcapacity⟩ := timeline_perform hfits hperform
      have hnext : next.timeline.length ≤ next.history.capacity := by
        rw [htimeline, hcapacity]
        exact Timeline.length_after_le hfits
      have hlast := ih hnext hrun
      rw [hcapacity, htimeline] at hlast
      exact hlast

theorem timeline_goBack_iterate (session : Session) (k : Nat) :
    (goBack^[k] session).timeline = Timeline.back^[k] session.timeline ∧
      (goBack^[k] session).history.capacity = session.history.capacity := by
  induction k with
  | zero => exact ⟨rfl, rfl⟩
  | succ k ih =>
      obtain ⟨-, htimeline, hcapacity⟩ := timeline_undo (goBack^[k] session)
      rw [Function.iterate_succ_apply', Function.iterate_succ_apply',
        ← ih.1, ← ih.2]
      exact ⟨htimeline, hcapacity⟩

theorem timeline_goForth_iterate
    (hfits : session.timeline.length ≤ session.history.capacity) (k : Nat) :
    (goForth^[k] session).timeline = Timeline.forth^[k] session.timeline ∧
      (goForth^[k] session).history.capacity = session.history.capacity := by
  induction k with
  | zero => exact ⟨rfl, rfl⟩
  | succ k ih =>
      have hlength : (goForth^[k] session).timeline.length ≤
          (goForth^[k] session).history.capacity := by
        rw [ih.1, ih.2, (Timeline.forth_iterate_cursor session.timeline k).2]
        exact hfits
      obtain ⟨-, htimeline, hcapacity⟩ := timeline_redo hlength
      rw [Function.iterate_succ_apply', Function.iterate_succ_apply',
        ← ih.1, ← ih.2]
      exact ⟨htimeline, hcapacity⟩

/-- Going back and forth again as often leaves the workflow and both stacks as
they were. -/
theorem goForth_goBack_iterate
    (hfits : session.timeline.length ≤ session.history.capacity) {k : Nat}
    (h : k ≤ session.timeline.cursor) :
    (goForth^[k] (goBack^[k] session)).workflow = session.workflow ∧
      (goForth^[k] (goBack^[k] session)).history = session.history := by
  obtain ⟨hback, hcapacity⟩ := timeline_goBack_iterate session k
  have hlength : (goBack^[k] session).timeline.length ≤
      (goBack^[k] session).history.capacity := by
    rw [hback, hcapacity, (Timeline.back_iterate_cursor session.timeline k).2]
    exact hfits
  obtain ⟨hforth, hcapacity'⟩ := timeline_goForth_iterate hlength k
  apply eq_of_timeline_eq
  · rw [hforth, hback, Timeline.forth_back_iterate h]
  · exact hcapacity'.trans hcapacity

theorem goBack_goForth_iterate
    (hfits : session.timeline.length ≤ session.history.capacity) {k : Nat}
    (h : session.timeline.cursor + k ≤ session.timeline.length) :
    (goBack^[k] (goForth^[k] session)).workflow = session.workflow ∧
      (goBack^[k] (goForth^[k] session)).history = session.history := by
  obtain ⟨hforth, hcapacity⟩ := timeline_goForth_iterate hfits k
  obtain ⟨hback, hcapacity'⟩ := timeline_goBack_iterate (goForth^[k] session) k
  apply eq_of_timeline_eq
  · rw [hback, hforth, Timeline.back_forth_iterate h]
  · exact hcapacity'.trans hcapacity

/-- The session shows the timeline, which keeps to the capacity; it goes back
and forth along it and nowhere else, and whatever else is asked of it does to
the timeline what is to be done. -/
structure MovesAlong (session : Session) (capacity : Nat)
    (timeline : Timeline) : Prop where
  shows : session.Shows timeline
  length_le : timeline.length ≤ capacity
  undo_refused : session.undo.1 = false ↔ timeline.cursor = 0
  shows_back : session.goBack.Shows timeline.back
  redo_refused : session.redo.1 = false ↔ timeline.cursor = timeline.length
  shows_forth : session.goForth.Shows timeline.forth
  shows_after : ∀ {ρ : Type} (operation : Operation ρ) answer next,
    session.perform? operation = some (answer, next) →
      next.Shows (timeline.after capacity operation answer)
  forth_of_back : ∀ k ≤ timeline.cursor,
    (goForth^[k] (goBack^[k] session)).workflow = session.workflow ∧
      (goForth^[k] (goBack^[k] session)).history = session.history
  back_of_forth : ∀ k ≤ timeline.length - timeline.cursor,
    (goBack^[k] (goForth^[k] session)).workflow = session.workflow ∧
      (goBack^[k] (goForth^[k] session)).history = session.history

theorem movesAlong_timeline
    (hfits : session.timeline.length ≤ session.history.capacity) :
    session.MovesAlong session.history.capacity session.timeline := by
  obtain ⟨hundo, hback, -⟩ := timeline_undo session
  obtain ⟨hredo, hforth, -⟩ := timeline_redo hfits
  have hcursor := session.timeline.cursor_le
  exact {
    shows := shows_timeline session
    length_le := hfits
    undo_refused := by
      rw [hundo, decide_eq_false_iff_not]
      omega
    shows_back := by
      rw [← hback]
      exact shows_timeline session.goBack
    redo_refused := by
      rw [hredo, decide_eq_false_iff_not]
      unfold Timeline.length
      omega
    shows_forth := by
      rw [← hforth]
      exact shows_timeline session.goForth
    shows_after := by
      intro ρ operation answer next h
      rw [← (timeline_perform hfits h).1]
      exact shows_timeline next
    forth_of_back := fun k h => goForth_goBack_iterate hfits h
    back_of_forth := fun k h => goBack_goForth_iterate hfits (by
      unfold Timeline.length at h ⊢
      omega) }

/-- A session moves along the timeline that the operations so far have made out
of the first workflow. -/
theorem run_movesAlong {workflow : Workflow} {options : MergeOptions}
    {operations : List (Operation ρ)} {answers : List (Answer ρ)}
    (h : (start workflow capacity options).run? operations =
      some (answers, session)) :
    session.MovesAlong capacity
      ((Timeline.start workflow).follow capacity operations answers) := by
  have hstart :
      (start workflow capacity options).timeline = Timeline.start workflow :=
    rfl
  obtain ⟨htimeline, hcapacity, hfits⟩ := timeline_run (Nat.zero_le _) h
  have hcapacity : session.history.capacity = capacity := hcapacity
  rw [hstart] at htimeline
  rw [← hcapacity] at hfits
  have hmoves := movesAlong_timeline hfits
  rw [hcapacity, htimeline] at hmoves
  exact hmoves

def bareWorkflow : Workflow :=
  { id := ⟨List.replicate 32 0, rfl⟩, name := "bare" }

/-- With room for one change this run drops one, goes back, is refused to go
back again, and cuts off what it went back from. -/
def shortRun : List (Operation Unit) :=
  [.record "first", .merge {} { judge := fun _ => .ok () }, .undo, .undo,
    .merge {} { judge := fun _ => .error [] }, .redo, .undo,
    .edit "last" fun workflow => ((), { workflow with name := "renamed" })]

theorem shortRun_movesAlong :
    ∃ answers session,
      (start bareWorkflow 1).run? shortRun = some (answers, session) ∧
      session.workflow.name = "renamed" ∧
      session.MovesAlong 1
        ((Timeline.start bareWorkflow).follow 1 shortRun answers) := by
  obtain ⟨⟨answers, session⟩, h⟩ :
      ∃ result, (start bareWorkflow 1).run? shortRun = some result := ⟨_, rfl⟩
  refine ⟨answers, session, h, ?_, run_movesAlong h⟩
  obtain ⟨rfl, rfl⟩ := Prod.mk.inj (Option.some.inj h)
  rfl

end Session

end Workbench
