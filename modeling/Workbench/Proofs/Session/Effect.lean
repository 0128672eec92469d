import Workbench.Proofs.Session.Run

/-!
# What an operation can do to the versions of a workflow

However many operations there are, live workflow and history change in three
ways only: the live workflow is recorded and another one takes its place, or it
changes places with the nearest workflow of the past, or with the nearest of the
future. `Effect` lists these, together with the case that nothing changes, and
`Supplies` says where a workflow comes from that is new. Whatever concerns the
versions of a workflow in a session follows from the list.

One thing that follows is that an operation puts no workflow into the history
but the live one (`Effect.origin_of_mem_snapshots`), and so every snapshot was
live once (`wasLive_of_mem_snapshots`).
-/

namespace Workbench.Session

variable {ρ : Type} {session next : Session} {operation : Operation ρ}

/-- The workflow that an operation puts in the place of the live one, and the
label under which it records the live one before. -/
inductive Supplies (live : Workflow) : Operation ρ → String → Workflow → Prop
  | record (label : String) : Supplies live (.record label) label live
  | edit (label : String) (change : Workflow → ρ × Workflow) :
      Supplies live (.edit label change) label (change live).2
  | merge (patch : Patch) (validator : Validator)
      (accepted : validator.judge (live.candidate patch) = .ok ()) :
      Supplies live (.merge patch validator) mergeLabel (live.candidate patch)

/-- What an operation does to the live workflow and to the history. -/
inductive Effect (session : Session) (operation : Operation ρ)
    (next : Session) : Prop
  | kept (live : next.workflow = session.workflow)
      (history : next.history = session.history)
  | recorded (label : String)
      (supplied : Supplies session.workflow operation label next.workflow)
      (history : next.history = session.history.push label session.workflow)
  | back (nearest : Snapshot) (rest : List Snapshot)
      (is_undo : operation = .undo)
      (top : session.history.past = nearest :: rest)
      (live : next.workflow = nearest.workflow)
      (history : next.history =
        { session.history with
          past := rest
          future := ⟨nearest.label, session.workflow⟩ ::
            session.history.future })
  | forth (nearest : Snapshot) (rest : List Snapshot)
      (is_redo : operation = .redo)
      (top : session.history.future = nearest :: rest)
      (live : next.workflow = nearest.workflow)
      (history : next.history =
        { session.history with
          past := session.history.remember ⟨nearest.label, session.workflow⟩
          future := rest })

theorem effect_undo (session : Session) :
    session.Effect (.undo : Operation ρ) session.undo.2 := by
  unfold undo History.undo?
  cases hpast : session.history.past with
  | nil => exact .kept rfl rfl
  | cons nearest rest => exact .back nearest rest rfl hpast rfl rfl

theorem effect_redo (session : Session) :
    session.Effect (.redo : Operation ρ) session.redo.2 := by
  unfold redo History.redo?
  cases hfuture : session.history.future with
  | nil => exact .kept rfl rfl
  | cons nearest rest => exact .forth nearest rest rfl hfuture rfl rfl

theorem effect_perform? {answer : Answer ρ}
    (h : session.perform? operation = some (answer, next)) :
    session.Effect operation next := by
  cases performs_of_perform? h with
  | select id =>
      unfold select
      split
      · exact .kept rfl rfl
      · exact .kept rfl rfl
  | clearSelection => exact .kept rfl rfl
  | record label => exact .recorded label (.record label) rfl
  | edit label change => exact .recorded label (.edit label change) rfl
  | undo => exact effect_undo session
  | redo => exact effect_redo session
  | failed patch validator error => exact .kept rfl rfl
  | merged patch validator accepted =>
      exact .recorded mergeLabel (.merge patch validator accepted) rfl

/-! ## Where versions come from -/

/-- The snapshots of the past and of the future. -/
def snapshots (session : Session) : List Snapshot :=
  session.history.past ++ session.history.future

theorem mem_snapshots {snapshot : Snapshot} :
    snapshot ∈ session.snapshots ↔
      snapshot ∈ session.history.past ∨ snapshot ∈ session.history.future :=
  List.mem_append

theorem eq_or_mem_of_mem_remember {history : History} {top snapshot : Snapshot}
    (h : snapshot ∈ history.remember top) :
    snapshot = top ∨ snapshot ∈ history.past :=
  List.mem_cons.1 (List.mem_of_mem_take h)

/-- An operation makes a snapshot of the live workflow only. -/
theorem Effect.origin_of_mem_snapshots (h : session.Effect operation next)
    {snapshot : Snapshot} (hsnapshot : snapshot ∈ next.snapshots) :
    snapshot.workflow = session.workflow ∨ snapshot ∈ session.snapshots := by
  rw [mem_snapshots] at hsnapshot ⊢
  cases h with
  | kept _ history =>
      rw [history] at hsnapshot
      exact .inr hsnapshot
  | recorded label _ history =>
      rw [history] at hsnapshot
      rcases hsnapshot with hpast | hfuture
      · rcases eq_or_mem_of_mem_remember hpast with rfl | hpast
        · exact .inl rfl
        · exact .inr (.inl hpast)
      · cases hfuture
  | back nearest rest _ top _ history =>
      rw [history] at hsnapshot
      rcases hsnapshot with hpast | hfuture
      · exact .inr (.inl (top ▸ List.mem_cons_of_mem _ hpast))
      · rcases List.mem_cons.1 hfuture with rfl | hfuture
        · exact .inl rfl
        · exact .inr (.inr hfuture)
  | forth nearest rest _ top _ history =>
      rw [history] at hsnapshot
      rcases hsnapshot with hpast | hfuture
      · rcases eq_or_mem_of_mem_remember hpast with rfl | hpast
        · exact .inl rfl
        · exact .inr (.inl hpast)
      · exact .inr (.inr (top ▸ List.mem_cons_of_mem _ hfuture))

/-- A workflow becomes live out of the history, or because the operation
supplies it. -/
theorem Effect.origin_of_live (h : session.Effect operation next) :
    next.workflow = session.workflow ∨
    (∃ snapshot ∈ session.snapshots, next.workflow = snapshot.workflow) ∨
    ∃ label, Supplies session.workflow operation label next.workflow := by
  cases h with
  | kept live _ => exact .inl live
  | recorded label supplied _ => exact .inr (.inr ⟨label, supplied⟩)
  | back nearest rest _ top live _ =>
      exact .inr (.inl ⟨nearest,
        mem_snapshots.2 (.inl (top ▸ List.mem_cons_self ..)), live⟩)
  | forth nearest rest _ top live _ =>
      exact .inr (.inl ⟨nearest,
        mem_snapshots.2 (.inr (top ▸ List.mem_cons_self ..)), live⟩)

/-- In a run from the session the workflow was live before one of the
operations. -/
def WasLive (session : Session) (operations : List (Operation ρ))
    (workflow : Workflow) : Prop :=
  ∃ before operation after answers earlier,
    operations = before ++ operation :: after ∧
    session.run? before = some (answers, earlier) ∧ earlier.workflow = workflow

theorem wasLive_start {rest : List (Operation ρ)} :
    session.WasLive (operation :: rest) session.workflow :=
  ⟨[], operation, rest, [], session, rfl, rfl, rfl⟩

theorem WasLive.cons {rest : List (Operation ρ)} {answer : Answer ρ}
    {workflow : Workflow} (h : next.WasLive rest workflow)
    (hperform : session.perform? operation = some (answer, next)) :
    session.WasLive (operation :: rest) workflow := by
  obtain ⟨before, later, after, answers, earlier, rfl, hrun, hlive⟩ := h
  refine ⟨operation :: before, later, after, answer :: answers, earlier,
    rfl, ?_, hlive⟩
  simp only [run?, hperform, hrun]

/-- What is in the history after a run was there before it or has been live in
its course. -/
theorem wasLive_of_mem_snapshots {last : Session}
    {operations : List (Operation ρ)} {answers : List (Answer ρ)}
    (h : session.run? operations = some (answers, last)) {snapshot : Snapshot}
    (hsnapshot : snapshot ∈ last.snapshots) :
    snapshot ∈ session.snapshots ∨
      session.WasLive operations snapshot.workflow := by
  induction operations generalizing session answers with
  | nil =>
      obtain ⟨-, rfl⟩ := run?_nil_eq_some h
      exact .inl hsnapshot
  | cons operation rest ih =>
      obtain ⟨answer, next, answers, hperform, hrun, rfl⟩ := run?_cons_eq_some h
      rcases ih hrun with hnext | hlive
      · rcases (effect_perform? hperform).origin_of_mem_snapshots hnext
          with heq | hbefore
        · rw [heq]
          exact .inr wasLive_start
        · exact .inl hbefore
      · exact .inr (hlive.cons hperform)

end Workbench.Session
