import Mathlib.Data.List.Perm.Basic
import Workbench.Proofs.Session.Run
import Workbench.Session.Shared

/-!
# A shared session behaves as if tasks came one after another

Events of many tasks mix in any order, and a merge has a gap in its middle: its
candidate is built when it gets the session, and the candidate becomes live only
when its validator has answered. Nothing else gets at the session in between. So
whatever the course of events, what the tasks are told and what becomes of the
session is what would come of it if the tasks that got the session had come one
after another, in the order in which they got it, each alone with the session
from beginning to end.

The invariant is `Serial`. The requests that are done have been served in
sequence, with the replies given and the session as it is, and a merge that
holds the session has its candidate from the workflow that is live now. Every
event keeps it: either the session stays, or the holder's request is the next
one of the sequence and ends here. What an event can do at all is said once, by
`Move`.

A session that is never given back would keep to all of this. It is given back
(`Releases`): a task that was let in acts with one event, and a merge ends with
one event as soon as there is a ruling. So only a validator that never answers,
waited for without a limit, can keep tasks waiting for good (`exists_idle`).
-/

namespace Workbench

variable {ρ : Type}

/-! ## One request after another -/

namespace Session

/-- The reply to a request that is alone with the session, and the session then;
`none` if it never ends. -/
def answer? (session : Session) : Request ρ → Option (Reply ρ × Session)
  | .merge patch validator =>
      (session.merge? patch validator).map fun (result, next) =>
        (.merged result, next)
  | .act action => some (.done (action session).1, (action session).2)

/-- The replies to requests that come one after another, and the session after
all of them. -/
def serve? (session : Session) :
    List (Nat × Request ρ) → Option (List (Nat × Reply ρ) × Session)
  | [] => some ([], session)
  | (task, request) :: rest =>
      match session.answer? request with
      | none => none
      | some (reply, next) =>
          match next.serve? rest with
          | none => none
          | some (replies, last) => some ((task, reply) :: replies, last)

theorem serve?_cons_eq_some {session last : Session} {task : Nat}
    {request : Request ρ} {rest : List (Nat × Request ρ)}
    {replies : List (Nat × Reply ρ)} :
    session.serve? ((task, request) :: rest) = some (replies, last) ↔
      ∃ reply next later, session.answer? request = some (reply, next) ∧
        next.serve? rest = some (later, last) ∧
        replies = (task, reply) :: later := by
  rw [serve?]
  refine ⟨?_, ?_⟩
  · intro h
    split at h
    · cases h
    · next reply next hanswer =>
        split at h
        · cases h
        · next later last' hserve =>
            rw [Option.some.injEq, Prod.mk.injEq] at h
            obtain ⟨rfl, rfl⟩ := h
            exact ⟨reply, next, later, hanswer, hserve, rfl⟩
  · intro h
    obtain ⟨reply, next, later, hanswer, hserve, rfl⟩ := h
    rw [hanswer]
    dsimp only
    rw [hserve]

theorem serve?_append_eq_some {session last : Session}
    {before after : List (Nat × Request ρ)} {replies : List (Nat × Reply ρ)} :
    session.serve? (before ++ after) = some (replies, last) ↔
      ∃ earlier between later, session.serve? before = some (earlier, between) ∧
        between.serve? after = some (later, last) ∧
        replies = earlier ++ later := by
  induction before generalizing session replies with
  | nil =>
      rw [List.nil_append]
      refine ⟨fun h => ⟨[], session, replies, rfl, h, rfl⟩, fun h => ?_⟩
      obtain ⟨earlier, between, later, hserve, hlater, rfl⟩ := h
      obtain ⟨rfl, rfl⟩ := Prod.mk.inj (Option.some.inj hserve)
      exact hlater
  | cons first rest ih =>
      obtain ⟨task, request⟩ := first
      rw [List.cons_append, serve?_cons_eq_some]
      refine ⟨?_, ?_⟩
      · intro h
        obtain ⟨reply, next, others, hanswer, hserve, rfl⟩ := h
        obtain ⟨earlier, between, later, hearlier, hlater, rfl⟩ := ih.1 hserve
        exact ⟨(task, reply) :: earlier, between, later,
          serve?_cons_eq_some.2 ⟨reply, next, earlier, hanswer, hearlier, rfl⟩,
          hlater, rfl⟩
      · intro h
        obtain ⟨earlier, between, later, hserve, hlater, rfl⟩ := h
        obtain ⟨reply, next, others, hanswer, hothers, rfl⟩ :=
          serve?_cons_eq_some.1 hserve
        exact ⟨reply, next, others ++ later, hanswer,
          ih.2 ⟨others, between, later, hothers, hlater, rfl⟩, rfl⟩

theorem serve?_concat {session next last : Session}
    {completed : List (Nat × Request ρ)} {replies : List (Nat × Reply ρ)}
    {task : Nat} {request : Request ρ} {reply : Reply ρ}
    (h : session.serve? completed = some (replies, next))
    (hanswer : next.answer? request = some (reply, last)) :
    session.serve? (completed ++ [(task, request)]) =
      some (replies ++ [(task, reply)], last) :=
  serve?_append_eq_some.2 ⟨replies, next, [(task, reply)], h,
    serve?_cons_eq_some.2 ⟨reply, last, [], hanswer, rfl, rfl⟩, rfl⟩

end Session

/-- Whether the reply refuses a merge for the session being taken. -/
def Reply.isBusy : Reply ρ → Bool
  | .merged (.error .busy) => true
  | _ => false

/-- The request for which the session is held. -/
def Holder.request : Holder ρ → List (Nat × Request ρ)
  | .free => []
  | .merging task patch validator _ => [(task, .merge patch validator)]
  | .granted task action => [(task, .act action)]

namespace Shared

variable {shared : Shared ρ} {session : Session}

/-- The replies to the requests that were not refused as busy, the earliest
first. -/
def answers (shared : Shared ρ) : List (Nat × Reply ρ) :=
  (shared.replies.filter (!·.2.isBusy)).reverse

/-! ## What happens to requests -/

/-- The request that an event brings. -/
def asks : SharedEvent ρ → List (Nat × Request ρ)
  | .request task request => [(task, request)]
  | _ => []

/-- The request for which the session is taken with an event. -/
def takes (shared : Shared ρ) (event : SharedEvent ρ) :
    List (Nat × Request ρ) :=
  match shared.holder with
  | .free => (shared.step event).holder.request
  | _ => []

/-- The request that is refused with an event. -/
def refuses (shared : Shared ρ) : SharedEvent ρ → List (Nat × Request ρ)
  | .request task (.merge patch validator) =>
      match shared.holder with
      | .free => []
      | _ => [(task, .merge patch validator)]
  | _ => []

/-- What is noted of the events in the course of them. -/
def along (note : Shared ρ → SharedEvent ρ → List (Nat × Request ρ))
    (shared : Shared ρ) :
    List (SharedEvent ρ) → List (Nat × Request ρ)
  | [] => []
  | event :: rest => note shared event ++ (shared.step event).along note rest

/-- The requests in the order in which they got the session. -/
def order (shared : Shared ρ) (events : List (SharedEvent ρ)) :
    List (Nat × Request ρ) :=
  shared.along takes events

def refused (shared : Shared ρ) (events : List (SharedEvent ρ)) :
    List (Nat × Request ρ) :=
  shared.along refuses events

def waitingRequests (shared : Shared ρ) : List (Nat × Request ρ) :=
  shared.waiting.map fun (task, action) => (task, .act action)

/-- Everything that can happen with an event. -/
inductive Move (shared : Shared ρ) : SharedEvent ρ → Shared ρ → Prop
  | idle {event : SharedEvent ρ} (hasks : asks event = []) :
      Move shared event shared
  | wait (task : Nat) (action : Action ρ) :
      Move shared (.request task (.act action))
        { shared with waiting := shared.waiting ++ [(task, action)] }
  | refuse (task : Nat) (patch : Patch) (validator : Validator)
      (hheld : shared.holder ≠ .free) :
      Move shared (.request task (.merge patch validator))
        { shared with
          replies := (task, .merged (.error .busy)) :: shared.replies }
  | take (task : Nat) (patch : Patch) (validator : Validator)
      (hfree : shared.holder = .free) :
      Move shared (.request task (.merge patch validator))
        { shared with
          holder := .merging task patch validator
            (shared.session.workflow.candidate patch) }
  | grant (place task : Nat) (action : Action ρ) (hfree : shared.holder = .free)
      (hplace : shared.waiting[place]? = some (task, action)) :
      Move shared (.grant place)
        { shared with
          holder := .granted task action
          waiting := shared.waiting.eraseIdx place }
  | act (task : Nat) (action : Action ρ)
      (hheld : shared.holder = .granted task action) :
      Move shared .act (shared.perform task action)
  | conclude (task : Nat) (patch : Patch) (validator : Validator)
      (candidate : Workflow) (merged : Except MergeError Workflow)
      (hheld : shared.holder = .merging task patch validator candidate)
      (hruling : validator.ruling? shared.session.options candidate =
        some merged) :
      Move shared .conclude (shared.finish task patch merged)

theorem move_step (shared : Shared ρ) (event : SharedEvent ρ) :
    shared.Move event (shared.step event) := by
  cases event with
  | request task request =>
      cases request with
      | act action => exact .wait task action
      | merge patch validator =>
          unfold Shared.step
          dsimp only
          split
          · next hfree => exact .take task patch validator hfree
          · next hheld => exact .refuse task patch validator hheld
  | grant place =>
      unfold Shared.step
      dsimp only
      split
      · next task action hfree hplace =>
          exact .grant place task action hfree hplace
      · exact .idle rfl
  | act =>
      unfold Shared.step
      dsimp only
      split
      · next task action hheld => exact .act task action hheld
      · exact .idle rfl
  | conclude =>
      unfold Shared.step
      dsimp only
      split
      · next task patch validator candidate hheld =>
          split
          · next merged hruling =>
              exact .conclude task patch validator candidate merged
                hheld hruling
          · exact .idle rfl
      · exact .idle rfl

theorem isBusy_commit {session : Session} {patch : Patch}
    {merged : Except MergeError Workflow} (h : merged ≠ .error .busy) :
    (Reply.merged (session.commit patch merged).1 : Reply ρ).isBusy =
      false := by
  unfold Session.commit
  split
  · next error =>
      cases error with
      | busy => exact absurd rfl h
      | rejected reasons => rfl
      | timedOut limit => rfl
  · rfl

theorem answers_finish {task : Nat} {patch : Patch}
    {merged : Except MergeError Workflow} (h : merged ≠ .error .busy) :
    (shared.finish task patch merged).answers =
      shared.answers ++
        [(task, .merged (shared.session.commit patch merged).1)] := by
  simp only [answers, finish]
  rw [List.filter_cons_of_pos (by simp [isBusy_commit h]), List.reverse_cons]

theorem answers_perform {task : Nat} {action : Action ρ} :
    (shared.perform task action).answers =
      shared.answers ++ [(task, .done (action shared.session).1)] := by
  simp only [answers, perform]
  rw [List.filter_cons_of_pos rfl, List.reverse_cons]

theorem ruling?_ne_busy {validator : Validator} {options : MergeOptions}
    {candidate : Workflow} {merged : Except MergeError Workflow}
    (h : validator.ruling? options candidate = some merged) :
    merged ≠ .error .busy := by
  unfold Validator.ruling? at h
  split at h
  · rw [Option.some.injEq] at h
    subst h
    unfold Verdict.ruleOn
    split
    · exact nofun
    · exact nofun
  · cases h
    exact nofun
  · cases h

/-! ## The invariant -/

/-- The completed requests have been served in sequence, and a merge that holds
the session would replace the workflow that its candidate was built from. -/
structure Serial (session : Session) (shared : Shared ρ)
    (completed : List (Nat × Request ρ)) : Prop where
  served : session.serve? completed = some (shared.answers, shared.session)
  based : ∀ task patch validator candidate,
    shared.holder = .merging task patch validator candidate →
      candidate = shared.session.workflow.candidate patch

/-- With every event the holder's request is completed or stays, and only a free
session is taken. -/
theorem Serial.step {completed : List (Nat × Request ρ)}
    (h : Serial session shared completed) (event : SharedEvent ρ) :
    ∃ completed', Serial session (shared.step event) completed' ∧
      completed' ++ (shared.step event).holder.request =
        completed ++ shared.holder.request ++ shared.takes event := by
  have hmove := shared.move_step event
  rw [takes]
  generalize shared.step event = next at hmove ⊢
  cases hmove with
  | idle => exact ⟨completed, h, by split <;> simp [Holder.request, *]⟩
  | wait =>
      exact ⟨completed, ⟨h.served, h.based⟩, by
        split <;> simp [Holder.request, *]⟩
  | refuse task patch validator hheld =>
      refine ⟨completed, ⟨?_, h.based⟩, ?_⟩
      · exact h.served
      · split
        · next hfree => exact absurd hfree hheld
        · simp
  | take task patch validator hfree =>
      refine ⟨completed, ⟨h.served, ?_⟩, by simp [hfree, Holder.request]⟩
      rintro _ _ _ _ ⟨⟩
      rfl
  | grant place task action hfree hplace =>
      exact ⟨completed, ⟨h.served, nofun⟩, by simp [hfree, Holder.request]⟩
  | act task action hheld =>
      refine ⟨completed ++ [(task, .act action)], ⟨?_, nofun⟩, ?_⟩
      · rw [answers_perform]
        exact Session.serve?_concat h.served rfl
      · simp [hheld, perform, Holder.request]
  | conclude task patch validator candidate merged hheld hruling =>
      refine ⟨completed ++ [(task, .merge patch validator)], ⟨?_, nofun⟩, ?_⟩
      · rw [answers_finish (ruling?_ne_busy hruling)]
        rw [h.based _ _ _ _ hheld] at hruling
        refine Session.serve?_concat h.served ?_
        simp [Session.answer?, Session.merge?, Workflow.merge?, hruling, finish]
      · simp [hheld, finish, Holder.request]

theorem Serial.play {completed : List (Nat × Request ρ)}
    (h : Serial session shared completed) (events : List (SharedEvent ρ)) :
    ∃ completed', Serial session (shared.play events) completed' ∧
      completed' ++ (shared.play events).holder.request =
        completed ++ shared.holder.request ++ shared.order events := by
  induction events generalizing shared completed with
  | nil => exact ⟨completed, h, by simp [Shared.play, order, along]⟩
  | cons event rest ih =>
      obtain ⟨next, hnext, hstep⟩ := h.step event
      obtain ⟨last, hlast, hrest⟩ := ih hnext
      refine ⟨last, hlast, ?_⟩
      rw [hstep] at hrest
      rw [order, along, ← List.append_assoc]
      exact hrest

/-! ## The base of a merge -/

/-- A merge holds the session because it did so before or because it has just
got it. -/
theorem merging_of_step {event : SharedEvent ρ} {task : Nat} {patch : Patch}
    {validator : Validator} {candidate : Workflow}
    (h : (shared.step event).holder = .merging task patch validator candidate) :
    (shared.step event).session = shared.session ∧
      (shared.holder = .merging task patch validator candidate ∨
        shared.holder = .free ∧ event = .request task (.merge patch validator) ∧
          candidate = shared.session.workflow.candidate patch) := by
  have hmove := shared.move_step event
  generalize shared.step event = next at hmove h ⊢
  cases hmove with
  | idle => exact ⟨rfl, .inl h⟩
  | wait => exact ⟨rfl, .inl h⟩
  | refuse => exact ⟨rfl, .inl h⟩
  | take _ _ _ hfree =>
      cases h
      exact ⟨rfl, .inr ⟨hfree, rfl, rfl⟩⟩
  | grant => cases h
  | act => cases h
  | conclude => cases h

/-- While a merge holds the session nothing changes, so its base is the live
workflow to the end. -/
theorem exists_base_of_merging {events : List (SharedEvent ρ)} {task : Nat}
    {patch : Patch} {validator : Validator} {candidate : Workflow}
    (h : (shared.play events).holder =
      .merging task patch validator candidate) :
    shared.holder = .merging task patch validator candidate ∧
        (shared.play events).session = shared.session ∨
      ∃ before after,
        events = before ++ .request task (.merge patch validator) :: after ∧
        (shared.play before).holder = .free ∧
        candidate = (shared.play before).session.workflow.candidate patch ∧
        (shared.play events).session = (shared.play before).session := by
  induction events generalizing shared with
  | nil => exact .inl ⟨h, rfl⟩
  | cons event rest ih =>
      rcases ih h with ⟨hstep, hsession⟩ | ⟨before, after, rfl, hbase⟩
      · obtain ⟨hsame, hheld | ⟨hfree, rfl, rfl⟩⟩ := merging_of_step hstep
        · exact .inl ⟨hheld, hsession.trans hsame⟩
        · exact .inr ⟨[], rest, rfl, hfree, rfl, hsession.trans hsame⟩
      · exact .inr ⟨event :: before, after, rfl, hbase⟩

/-! ## No request is lost or doubled -/

theorem perm_step (shared : Shared ρ) (event : SharedEvent ρ) :
    (shared.waitingRequests ++ asks event).Perm
      (shared.takes event ++ shared.refuses event ++
        (shared.step event).waitingRequests) := by
  have hmove := shared.move_step event
  rw [takes]
  generalize shared.step event = next at hmove ⊢
  cases hmove with
  | idle hasks =>
      have hrefuses : shared.refuses event = [] := by
        cases event <;> first | rfl | cases hasks
      cases hholder : shared.holder <;> simp [hasks, hrefuses, Holder.request]
  | wait =>
      cases shared.holder <;>
        simp [refuses, waitingRequests, asks, Holder.request]
  | refuse task patch validator hheld =>
      split
      · next hfree => exact absurd hfree hheld
      · have hrefuses :
            shared.refuses (.request task (.merge patch validator)) =
            [(task, .merge patch validator)] := by
          simp [refuses]
        rw [hrefuses]
        exact List.perm_append_singleton _ shared.waitingRequests
  | take task patch validator hfree =>
      have hrefuses :
          shared.refuses (.request task (.merge patch validator)) = [] := by
        simp [refuses, hfree]
      rw [hfree, hrefuses]
      exact List.perm_append_singleton _ shared.waitingRequests
  | grant place task action hfree hplace =>
      obtain ⟨hlt, hget⟩ := List.getElem?_eq_some_iff.1 hplace
      have hperm := (List.getElem_cons_eraseIdx_perm hlt).symm.map
        fun (task, action) => ((task, .act action) : Nat × Request ρ)
      simpa [refuses, hfree, waitingRequests, asks, Holder.request, hget]
        using hperm
  | act => simp [*, refuses, waitingRequests, asks, perform]
  | conclude => simp [*, refuses, waitingRequests, asks, finish]

theorem perm_order (shared : Shared ρ) (events : List (SharedEvent ρ)) :
    (shared.waitingRequests ++ events.flatMap asks).Perm
      (shared.order events ++ shared.refused events ++
        (shared.play events).waitingRequests) := by
  induction events generalizing shared with
  | nil => simp [order, refused, along, Shared.play]
  | cons event rest ih =>
      have hstep := (perm_step shared event).append_right (rest.flatMap asks)
      have hrest := (ih (shared.step event)).append_left
        (shared.takes event ++ shared.refuses event)
      have hswap := ((shared.refuses event).perm_append_comm_assoc
        ((shared.step event).order rest)
          ((shared.step event).refused rest)).append_left (shared.takes event)
      have hlast :=
        hswap.append_right ((shared.step event).play rest).waitingRequests
      simp only [List.append_assoc] at hstep hrest hlast
      simpa [order, refused, along, Shared.play]
        using hstep.trans (hrest.trans hlast)

/-! ## The session is given back -/

/-- A course of events that brings the given requests leads from one state to
the other. -/
def Leads (shared : Shared ρ) (requests : List (Nat × Request ρ))
    (next : Shared ρ) : Prop :=
  ∃ events, shared.play events = next ∧ events.flatMap asks = requests

theorem Leads.refl (shared : Shared ρ) : shared.Leads [] shared :=
  ⟨[], rfl, rfl⟩

theorem Leads.step (shared : Shared ρ) (event : SharedEvent ρ) :
    shared.Leads (asks event) (shared.step event) := ⟨[event], rfl, by simp⟩

theorem Leads.trans {next last : Shared ρ}
    {requests more : List (Nat × Request ρ)} (h : shared.Leads requests next)
    (hlast : next.Leads more last) : shared.Leads (requests ++ more) last := by
  obtain ⟨events, rfl, rfl⟩ := h
  obtain ⟨later, rfl, rfl⟩ := hlast
  exact ⟨events ++ later, List.foldl_append, List.flatMap_append⟩

theorem leads_drain (shared : Shared ρ) : shared.Leads [] shared.drain := by
  rw [drain]
  induction shared.waiting.length with
  | zero => exact .refl shared
  | succ n ih => exact ih.trans ⟨[.grant 0, .act], rfl, rfl⟩

/-- The session is free, and the task that had it has got one reply. No other
task has been told anything, and those that waited do so still. -/
structure Releases (shared next : Shared ρ) (task : Nat) : Prop where
  free : next.holder = .free
  replied : ∃ reply, next.replies = (task, reply) :: shared.replies ∧
    reply.isBusy = false
  waiting : next.waiting = shared.waiting

theorem releases_act {task : Nat} {action : Action ρ}
    (hheld : shared.holder = .granted task action) :
    shared.Releases (shared.step .act) task := by
  have hstep : shared.step .act = shared.perform task action := by
    unfold Shared.step
    dsimp only
    rw [hheld]
  rw [hstep]
  exact ⟨rfl, ⟨_, rfl, rfl⟩, rfl⟩

theorem releases_conclude {task : Nat} {patch : Patch} {validator : Validator}
    {candidate : Workflow} {merged : Except MergeError Workflow}
    (hheld : shared.holder = .merging task patch validator candidate)
    (hruling : validator.ruling? shared.session.options candidate =
      some merged) :
    shared.Releases (shared.step .conclude) task := by
  have hstep : shared.step .conclude = shared.finish task patch merged := by
    unfold Shared.step
    dsimp only
    rw [hheld]
    dsimp only
    rw [hruling]
  rw [hstep]
  exact ⟨rfl, ⟨_, rfl, isBusy_commit (ruling?_ne_busy hruling)⟩, rfl⟩

theorem holder_step_grant {place task : Nat} {action : Action ρ}
    (hfree : shared.holder = .free)
    (hplace : shared.waiting[place]? = some (task, action)) :
    (shared.step (.grant place)).holder = .granted task action ∧
      (shared.step (.grant place)).waiting = shared.waiting.eraseIdx place := by
  unfold Shared.step
  dsimp only
  rw [hfree, hplace]
  exact ⟨rfl, rfl⟩

/-- A task that is let in and acts leaves the session to the next. -/
theorem play_grant_act {rest : List (Nat × Action ρ)} {first : Nat × Action ρ}
    (hfree : shared.holder = .free)
    (hwaiting : shared.waiting = first :: rest) :
    (shared.play [.grant 0, .act]).holder = .free ∧
      (shared.play [.grant 0, .act]).waiting = rest := by
  obtain ⟨task, action⟩ := first
  have hplace : shared.waiting[0]? = some (task, action) := by
    rw [hwaiting, List.getElem?_cons_zero]
  obtain ⟨hheld, hothers⟩ := holder_step_grant hfree hplace
  have hreleases := releases_act hheld
  refine ⟨hreleases.free, hreleases.waiting.trans ?_⟩
  rw [hothers, hwaiting, List.eraseIdx_cons_zero]

/-- A free session can be given to all that wait, one after another. -/
theorem drain_of_free (hfree : shared.holder = .free) :
    shared.drain.holder = .free ∧ shared.drain.waiting = [] := by
  have hrounds : ∀ n ≤ shared.waiting.length,
      (Nat.repeat (·.play [.grant 0, .act]) n shared).holder = .free ∧
        (Nat.repeat (·.play [.grant 0, .act]) n shared).waiting =
          shared.waiting.drop n := by
    intro n
    induction n with
    | zero => exact fun _ => ⟨hfree, rfl⟩
    | succ n ih =>
        intro hle
        obtain ⟨hfree, hwaiting⟩ := ih (Nat.le_of_succ_le hle)
        rw [List.drop_eq_getElem_cons hle] at hwaiting
        exact play_grant_act hfree hwaiting
  rw [drain]
  obtain ⟨hfree, hwaiting⟩ := hrounds _ (Nat.le_refl _)
  exact ⟨hfree, hwaiting.trans List.drop_length⟩

/-- Unless a validator that never answers is waited for without a limit, events
can follow that serve all who wait. -/
theorem exists_idle (hends : ∀ task patch validator candidate,
    shared.holder = .merging task patch validator candidate →
      shared.session.options.limit ≠ none ∨ validator.delay ≠ none) :
    ∃ later, later.flatMap asks = [] ∧ (shared.play later).holder = .free ∧
      (shared.play later).waiting = [] := by
  obtain ⟨first, hasks, hfree⟩ : ∃ first, first.flatMap asks = [] ∧
      (shared.play first).holder = .free := by
    cases hheld : shared.holder with
    | free => exact ⟨[], rfl, hheld⟩
    | granted task action => exact ⟨[.act], rfl, (releases_act hheld).free⟩
    | merging task patch validator candidate =>
        cases hruling : validator.ruling? shared.session.options candidate with
        | some merged =>
            exact ⟨[.conclude], rfl, (releases_conclude hheld hruling).free⟩
        | none =>
            obtain ⟨hlimit, hdelay⟩ := Validator.ruling?_eq_none_iff.1 hruling
            rcases hends _ _ _ _ hheld with h | h
            · exact absurd hlimit h
            · exact absurd hdelay h
  obtain ⟨rest, hrest, hnothing⟩ := leads_drain (shared.play first)
  obtain ⟨hidle, hwaiting⟩ := drain_of_free hfree
  have hplay : shared.play (first ++ rest) = (shared.play first).drain :=
    List.foldl_append.trans hrest
  refine ⟨first ++ rest, ?_, hplay ▸ hidle, hplay ▸ hwaiting⟩
  rw [List.flatMap_append, hasks, hnothing, List.append_nil]

/-! ## Courses of a session -/

/-- What becomes of a session that nobody has when a course of events begins. -/
def course (session : Session) (events : List (SharedEvent ρ)) : Shared ρ :=
  ({ session } : Shared ρ).play events

theorem course_append (session : Session)
    (events later : List (SharedEvent ρ)) :
    course session (events ++ later) = (course session events).play later :=
  List.foldl_append

theorem course_concat (session : Session) (events : List (SharedEvent ρ))
    (event : SharedEvent ρ) :
    course session (events ++ [event]) = (course session events).step event :=
  course_append session events [event]

/-- A course of events is as good as one of tasks that come one after
another. -/
structure Serialised (session : Session) (events : List (SharedEvent ρ)) :
    Prop where
  /-- A merge that finds the session taken is told so, and nothing else
  happens. -/
  busy : ∀ task patch validator, (course session events).holder ≠ .free →
    course session (events ++ [.request task (.merge patch validator)]) =
      { course session events with
        replies :=
          (task, .merged (.error .busy)) :: (course session events).replies }
  /-- A merge that succeeds replaces the workflow from which its candidate was
  built when it got the session: that workflow is still the live one. -/
  based : ∀ event task outcome,
    (course session (events ++ [event])).replies =
        (task, .merged (.ok outcome)) :: (course session events).replies →
      ∃ patch validator before after,
        events = before ++ .request task (.merge patch validator) :: after ∧
        (course session before).holder = .free ∧
        (course session events).session = (course session before).session ∧
        (course session (events ++ [event])).session =
          ((course session events).session.record Session.mergeLabel).replace
            ((course session before).session.workflow.candidate patch)
  /-- The requests that got the session, in the order in which they got it, have
  had the replies and the effect that they have one by one, all but the one that
  has the session now. A snapshot among them shows the workflow that the
  requests before it leave. -/
  served : ∃ completed,
    order { session } events =
      completed ++ (course session events).holder.request ∧
      session.serve? completed =
        some ((course session events).answers,
          (course session events).session) ∧
      ∀ before after task form,
        completed = before ++ (task, .snapshot form) :: after →
        ∃ earlier between later,
          session.serve? before = some (earlier, between) ∧
          (course session events).answers =
            earlier ++ (task, .done (form between.workflow)) :: later
  /-- Every request has got the session or was refused or waits, just once. -/
  conserved : (events.flatMap asks).Perm
    (order { session } events ++ refused { session } events ++
      (course session events).waitingRequests)
  /-- A merge that has the session gives it back as soon as there is a
  ruling. -/
  concludes : ∀ task patch validator candidate merged,
    (course session events).holder = .merging task patch validator candidate →
    validator.ruling? (course session events).session.options candidate =
      some merged →
      (course session events).Releases
        (course session (events ++ [.conclude])) task
  /-- A free session can be had by any task that waits. -/
  grants : ∀ place task action, (course session events).holder = .free →
    (course session events).waiting[place]? = some (task, action) →
      (course session (events ++ [.grant place])).holder = .granted task action
  /-- A task that was let in acts and gives the session back. -/
  acts : ∀ task action, (course session events).holder = .granted task action →
    (course session events).Releases (course session (events ++ [.act])) task
  /-- No task waits for good, unless for a validator that never answers. -/
  finishes : (∀ task patch validator candidate,
      (course session events).holder = .merging task patch validator candidate →
        (course session events).session.options.limit ≠ none ∨
          validator.delay ≠ none) →
    ∃ later, later.flatMap asks = [] ∧
      (course session (events ++ later)).holder = .free ∧
      (course session (events ++ later)).waiting = []

theorem course_based {events : List (SharedEvent ρ)} {event : SharedEvent ρ}
    {task : Nat} {outcome : MergeOutcome}
    (h : (course session (events ++ [event])).replies =
      (task, .merged (.ok outcome)) :: (course session events).replies) :
    ∃ patch validator before after,
      events = before ++ .request task (.merge patch validator) :: after ∧
      (course session before).holder = .free ∧
      (course session events).session = (course session before).session ∧
      (course session (events ++ [event])).session =
        ((course session events).session.record Session.mergeLabel).replace
          ((course session before).session.workflow.candidate patch) := by
  rw [course_concat] at h ⊢
  have hmove := (course session events).move_step event
  generalize (course session events).step event = next at hmove h ⊢
  cases hmove with
  | idle => simp at h
  | wait => simp at h
  | refuse => simp at h
  | take => simp at h
  | grant => simp at h
  | act => simp [perform] at h
  | conclude _ patch validator candidate merged hheld hruling =>
      rw [finish, List.cons.injEq, Prod.mk.injEq, Reply.merged.injEq] at h
      obtain ⟨⟨rfl, hok⟩, -⟩ := h
      cases merged with
      | error error => cases hok
      | ok workflow =>
          obtain ⟨⟨⟩, -⟩ | ⟨before, after, rfl, hfree, hcandidate, hsession⟩ :=
            exists_base_of_merging hheld
          refine ⟨patch, validator, before, after, rfl, hfree, hsession, ?_⟩
          rw [(Validator.ruling?_eq_some_ok hruling).2, hcandidate]
          rfl

/-- Whatever the course of events, merges never work on a stale base and no
request is lost: tasks might as well have come one after another. Whoever has
the session gives it back. -/
theorem course_serialised (session : Session) (events : List (SharedEvent ρ)) :
    Serialised session events := by
  have hstart : Serial session ({ session } : Shared ρ) [] := ⟨rfl, nofun⟩
  obtain ⟨completed, hserial, horder⟩ := hstart.play events
  refine ⟨?_, ?_, ?_, ?_, ?_, ?_, ?_, ?_⟩
  · intro task patch validator hheld
    rw [course_concat]
    have hmove :=
      (course session events).move_step (.request task (.merge patch validator))
    generalize (course session events).step _ = next at hmove ⊢
    cases hmove with
    | idle hasks => cases hasks
    | refuse => rfl
    | take _ _ _ hfree => exact absurd hfree hheld
  · exact fun _ _ _ h => course_based h
  · refine ⟨completed, horder.symm, hserial.served, ?_⟩
    rintro before after task form rfl
    obtain ⟨earlier, between, later, hbefore, hafter, hanswers⟩ :=
      Session.serve?_append_eq_some.1 hserial.served
    obtain ⟨reply, next, others, hanswer, -, rfl⟩ :=
      Session.serve?_cons_eq_some.1 hafter
    cases hanswer
    exact ⟨earlier, between, others, hbefore, hanswers⟩
  · exact perm_order { session } events
  · intro task patch validator candidate merged hheld hruling
    rw [course_concat]
    exact releases_conclude hheld hruling
  · intro place task action hfree hplace
    rw [course_concat]
    exact (holder_step_grant hfree hplace).1
  · intro task action hheld
    rw [course_concat]
    exact releases_act hheld
  · intro hends
    obtain ⟨later, hasks, hidle⟩ := exists_idle hends
    rw [← course_append] at hidle
    exact ⟨later, hasks, hidle⟩

/-! ## Schedules are courses of events -/

theorem leads_settle (shared : Shared ρ) (due : Option Duration)
    (now : Duration) : shared.Leads [] (shared.settle due now).1 := by
  unfold settle
  split
  · exact .refl shared
  · split
    · exact (Leads.step shared .conclude).trans (leads_drain _)
    · exact .refl shared

theorem leads_run (shared : Shared ρ) (due : Option Duration)
    (tasks : List (Duration × Nat × Request ρ)) :
    shared.Leads (tasks.map (·.2)) (shared.run due tasks) := by
  induction tasks generalizing shared due with
  | nil =>
      cases due with
      | none => exact .refl shared
      | some => exact (Leads.step shared .conclude).trans (leads_drain _)
  | cons first rest ih =>
      obtain ⟨start, task, request⟩ := first
      rw [run]
      dsimp only
      have hasked := ((leads_settle shared due start).trans
        (Leads.step _ (.request task request))).trans (leads_drain _)
      split
      · exact hasked.trans (ih _ _)
      · exact (hasked.trans (leads_settle _ _ start)).trans (ih _ _)

/-- So what holds of every course of events holds of every schedule. -/
theorem exists_course_schedule (session : Session)
    (requests : List (Duration × Request ρ)) :
    ∃ events, schedule session requests = course session events ∧
      (events.flatMap asks).Perm
        (requests.zipIdx.map fun ((_, request), task) => (task, request)) := by
  obtain ⟨events, hplay, hasks⟩ := leads_run { session } none
    ((requests.zipIdx.map fun ((start, request), task) =>
      (start, task, request)).mergeSort
      fun a b => decide (a.1 ≤ b.1))
  refine ⟨events, hplay.symm, ?_⟩
  rw [hasks]
  have hperm := (List.mergeSort_perm (requests.zipIdx.map
    fun ((start, request), task) => (start, task, request)) fun a b =>
      decide (a.1 ≤ b.1)).map (·.2)
  rw [List.map_map] at hperm
  exact hperm

end Shared

end Workbench
