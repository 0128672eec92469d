import Workbench.Command.Generate
import Workbench.Proofs.Generate.Nested
import Workbench.Proofs.Generate.Sound

/-!
# Generation keeps its promises

Generation relies on things that it never asks about. An edge that is added is
accepted, and it does not take the place of another: the answer of
`Workflow.addEdge` is thrown away. A chain ends in an action that no edge
leaves, so that what comes next can be linked to it. And the depth, of which
each loop takes one off, does not fall below zero.

Here the calls of generation ask. A guarded call does what the call does, but it
stops where one of these promises is broken. It never stops
(`Guarded.run_chain`), so generation can do without the guards. What a call adds
is known from the traced calls: a guard of an edge compares what was there
before with what is there after.
-/

namespace Workbench

namespace Workflow

variable {workflow next : Workflow} {edge : Edge}

/-- Whether adding the edge succeeds and replaces no other. -/
def welcomes (workflow : Workflow) (edge : Edge) : Bool :=
  (workflow.addEdge edge).1 &&
    workflow.edges.all (!·.leaves edge.source edge.port)

/-- Whether the node is an action that no edge leaves. -/
def isOpen (workflow : Workflow) (id : Uuid) : Bool :=
  (workflow.find? id).any (·.step.category == .action) &&
    (workflow.outgoing id).isEmpty

/-- An edge is welcome if all that adding it does is to append it. -/
theorem welcomes_of_edges_eq
    (h : (workflow.addEdge edge).2.edges = workflow.edges ++ [edge]) :
    workflow.welcomes edge = true := by
  cases hadmits : workflow.admits edge with
  | false =>
      rw [addEdge_of_not_admits hadmits] at h
      exact absurd (congrArg List.length h) (by simp)
  | true =>
      rw [addEdge_of_admits hadmits] at h
      have hkept := List.filter_eq_self.1 (List.append_cancel_right h)
      rw [welcomes, addEdge, if_pos hadmits, Bool.true_and, List.all_eq_true]
      exact hkept

end Workflow

/-- A step in the making of a workflow that stops where a promise is broken. -/
abbrev Guarded := StateT Draft Option

namespace Guarded

/-- A step that promises nothing. -/
def plain {α : Type} (making : Making α) : Guarded α :=
  fun draft => some (making.run draft)

/-- Goes on only if the workflow is as promised. -/
def promise (holds : Workflow → Bool) : Guarded Unit := fun draft =>
  if holds draft.workflow then some ((), draft) else none

def connect (source target : Uuid) (port : Option Port := none) :
    Guarded Unit := do
  promise (·.welcomes ⟨source, target, port⟩)
  plain (Making.connect source target port)

variable (chance : Chance)

def branch : Guarded (Uuid × Uuid) := do
  let fork ← plain (Making.addStep chance (.ifThen ⟨Making.isTrue "found"⟩))
  let yes ← plain (Making.action chance)
  let no ← plain (Making.action chance)
  let join ← plain (Making.action chance)
  connect fork yes (some .ifTrue)
  connect fork no (some .ifFalse)
  connect yes join
  connect no join
  return (fork, join)

def extend (segment : Guarded (Uuid × Uuid)) (exit : Uuid) : Nat → Guarded Uuid
  | 0 => return exit
  | count + 1 => do
      let (entry, next) ← segment
      connect exit entry
      extend segment next count

def chain (segment : Guarded (Uuid × Uuid)) (count : Nat) :
    Guarded (Uuid × Uuid) := do
  let (entry, exit) ← segment
  let exit ← extend segment exit (count - 1)
  promise (·.isOpen exit)
  return (entry, exit)

/-- The edge that comes with a new loop is guarded like any other, so it is
added by itself. -/
def addLoop (name : String) (params : Loop) (head tail : Uuid) :
    Guarded Unit := do
  let first : Node := { id := head, name, step := .loop params }
  let last : Node :=
    { id := tail, name := "End " ++ name, step := .endLoop { loopId := head } }
  plain (modify fun draft =>
    { draft with workflow := (draft.workflow.addNode first).addNode last })
  connect tail head

def loop (segment : Guarded (Uuid × Uuid)) : Guarded (Uuid × Uuid) := do
  let name ← plain (Making.nextName "Loop")
  let k ← plain (Making.draw chance 19)
  let head ← plain (Making.freshId chance)
  let tail ← plain (Making.freshId chance)
  let params : Loop :=
    { exitCondition := Making.isTrue "done", maxIterations := .ofNat (k + 1) }
  addLoop name params head tail
  let count ← plain (Making.draw chance 3)
  let (entry, exit) ← chain segment (count + 1)
  connect head entry (some .loopBody)
  connect exit tail
  let after ← plain (Making.action chance)
  connect head after (some .loopDone)
  return (head, after)

def single : Guarded (Uuid × Uuid) := do
  let id ← plain (Making.action chance)
  return (id, id)

/-- The depth is a number that could fall below zero, were it not asked for
first. -/
def segment (depth : Int) : Guarded (Uuid × Uuid) := do
  promise fun _ => 0 ≤ depth
  match ← plain (Making.draw chance 4) with
  | 0 => if 0 < depth then loop chance (segment (depth - 1)) else single chance
  | 1 => branch chance
  | _ => single chance
termination_by depth.toNat

/-! ## No promise is broken -/

section

variable {chance} {α β : Type} {draft next last : Draft}

theorem run_bind {guarded : Guarded α} {rest : α → Guarded β} {a : α}
    (h : guarded.run draft = some (a, next)) :
    (guarded >>= rest).run draft = (rest a).run next := by
  rw [StateT.run_bind, h]
  rfl

theorem run_plain {making : Making α} {a : α}
    (h : making.run draft = (a, next)) :
    (plain making).run draft = some (a, next) := congrArg some h

theorem run_promise {holds : Workflow → Bool}
    (h : holds draft.workflow = true) :
    (promise holds).run draft = some ((), draft) := if_pos h

section

variable {start : Workflow}
  (hattached : ∀ edge ∈ start.edges, edge.source ∈ start.nodes.map (·.id))

include hattached

/-- The edges before and after tell that the new one was welcome. -/
theorem run_connect {source target : Uuid} {port : Option Port}
    {marks more : List Mark} {edges : List Edge}
    (h : (Making.connect source target port).run draft = ((), next))
    (hids : (next.workflow.nodes.map (·.id)).Nodup)
    (hbefore : start.Grows draft.workflow marks edges)
    (hafter :
      start.Grows next.workflow more (edges ++ [⟨source, target, port⟩])) :
    (connect source target port).run draft = some ((), next) := by
  have hwelcome : draft.workflow.welcomes ⟨source, target, port⟩ = true := by
    cases h
    have hsame : (draft.workflow.nodes.map (·.id)).Nodup := by
      rwa [Workflow.nodes_addEdge] at hids
    apply Workflow.welcomes_of_edges_eq
    rw [hbefore.edges_eq hsame hattached, List.append_assoc]
    exact hafter.edges_eq hids hattached
  exact (run_bind (run_promise hwelcome)).trans (run_plain h)

theorem isOpen_exit {part : Part}
    (h : start.Grows next.workflow part.marks part.edges)
    (hids : (next.workflow.nodes.map (·.id)).Nodup) :
    next.workflow.isOpen part.exit = true := by
  have hexit : { id := part.exit } ∈ next.workflow.nodes.map Node.mark := by
    rw [h.marks_eq]
    exact List.mem_append_right _ part.exit_mark_mem
  obtain ⟨node, hnode, hmark⟩ := List.mem_map.1 hexit
  have hfound : next.workflow.find? part.exit = some node :=
    (Workflow.find?_eq_some_iff hids).2 ⟨hnode, congrArg (·.id) hmark⟩
  have hcategory : node.step.category = .action := congrArg (·.category) hmark
  have hfree : next.workflow.outgoing part.exit = [] := by
    rw [Workflow.outgoing, List.filter_eq_nil_iff, h.edges_eq hids hattached]
    rw [h.ids_eq, Part.map_id_marks, List.nodup_append'] at hids
    obtain ⟨-, hpart, hdisjoint⟩ := hids
    intro edge hedge
    rw [beq_iff_eq]
    rcases List.mem_append.1 hedge with hedge | hedge
    · exact ne_of_mem_of_not_mem (hattached edge hedge) fun h =>
        hdisjoint h part.exit_mem_ids
    · exact Part.exit_free hpart hedge
  rw [Workflow.isOpen, hfound, hfree, Option.any_some, hcategory]
  rfl

end

theorem run_addLoop {name : String} {params : Loop} {head tail : Uuid}
    (hattached : ∀ edge ∈ draft.workflow.edges,
      edge.source ∈ draft.workflow.nodes.map (·.id))
    (h : (modify fun draft => { draft with
        workflow := draft.workflow.addLoop name params head tail } :
      Making Unit).run draft = ((), next))
    (hids : (next.workflow.nodes.map (·.id)).Nodup) :
    (addLoop name params head tail).run draft = some ((), next) := by
  cases h
  have hnodes : draft.workflow.Grows _ (Mark.ofLoop head tail) [] :=
    (Workflow.Grows.addNode { id := head, name, step := .loop params }).trans
      (.addNode
        { id := tail, name := "End " ++ name, step := .endLoop { loopId := head } })
  exact (run_bind (run_plain rfl)).trans
    (run_connect hattached rfl hids hnodes (.addLoop ..))

/-- The guarded call does what the traced call does and breaks no promise on the
way, if edges were attached and identifiers stay distinct. -/
def Follows (guarded : Guarded (Uuid × Uuid)) (traced : Making Part) : Prop :=
  ∀ {draft next part}, traced.run draft = (part, next) →
    (∀ edge ∈ draft.workflow.edges,
      edge.source ∈ draft.workflow.nodes.map (·.id)) →
      (next.workflow.nodes.map (·.id)).Nodup →
      guarded.run draft = some (part.ends, next)

theorem follows_single :
    (single chance).Follows (Making.singlePart chance) := by
  intro draft next part h _ _
  obtain ⟨id, d₁, hid, h⟩ := Making.run_bind_eq_iff.1 h
  cases h
  exact run_bind (run_plain hid)

theorem follows_branch :
    (branch chance).Follows (Making.branchPart chance) := by
  intro draft next part h hattached hids
  obtain ⟨fork, d₁, hfork, h⟩ := Making.run_bind_eq_iff.1 h
  obtain ⟨yes, d₂, hyes, h⟩ := Making.run_bind_eq_iff.1 h
  obtain ⟨no, d₃, hno, h⟩ := Making.run_bind_eq_iff.1 h
  obtain ⟨join, d₄, hjoin, h⟩ := Making.run_bind_eq_iff.1 h
  obtain ⟨⟨⟩, d₅, htrue, h⟩ := Making.run_bind_eq_iff.1 h
  obtain ⟨⟨⟩, d₆, hfalse, h⟩ := Making.run_bind_eq_iff.1 h
  obtain ⟨⟨⟩, d₇, hleft, h⟩ := Making.run_bind_eq_iff.1 h
  obtain ⟨⟨⟩, d₈, hright, h⟩ := Making.run_bind_eq_iff.1 h
  cases h
  have hnodes :=
    (((Making.grows_addStep hfork).trans (Making.grows_action hyes)).trans
      (Making.grows_action hno)).trans (Making.grows_action hjoin)
  obtain ⟨hone, htwo, hthree, hfour⟩ :=
    Making.grows_branch hnodes htrue hfalse hleft hright
  have hids₃ := hfour.nodup_earlier hids hthree List.prefix_rfl
  have hids₂ := hfour.nodup_earlier hids htwo List.prefix_rfl
  have hids₁ := hfour.nodup_earlier hids hone List.prefix_rfl
  refine (run_bind (run_plain hfork)).trans ?_
  refine (run_bind (run_plain hyes)).trans ?_
  refine (run_bind (run_plain hno)).trans ?_
  refine (run_bind (run_plain hjoin)).trans ?_
  refine (run_bind (run_connect hattached htrue hids₁ hnodes hone)).trans ?_
  refine (run_bind (run_connect hattached hfalse hids₂ hone htwo)).trans ?_
  refine (run_bind (run_connect hattached hleft hids₃ htwo hthree)).trans ?_
  exact run_bind (run_connect hattached hright hids hthree hfour)

/-- What has been linked stays at the front. -/
theorem prefix_extendPart {segment : Making Part} {first whole : Part}
    {count : Nat}
    (h : (Making.extendPart segment first count).run draft = (whole, last)) :
    first.marks <+: whole.marks ∧ first.entry = whole.entry := by
  induction count generalizing first draft with
  | zero =>
      cases h
      exact ⟨List.prefix_rfl, rfl⟩
  | succ count ih =>
      obtain ⟨second, d₁, _, h⟩ := Making.run_bind_eq_iff.1 h
      obtain ⟨⟨⟩, d₂, _, h⟩ := Making.run_bind_eq_iff.1 h
      obtain ⟨hmarks, hentry⟩ := ih h
      exact ⟨(List.prefix_append _ _).trans hmarks, hentry⟩

section

variable {guarded : Guarded (Uuid × Uuid)} {segment : Making Part} {depth : Nat}
  (hsegment : segment.Adding depth)

include hsegment

theorem nodup_of_extendPart {start : Workflow} {first whole : Part}
    {count : Nat} (hfirst : start.Grows draft.workflow first.marks first.edges)
    (hdepth : first.nesting ≤ depth)
    (h : (Making.extendPart segment first count).run draft = (whole, last))
    (hids : (last.workflow.nodes.map (·.id)).Nodup) :
    (draft.workflow.nodes.map (·.id)).Nodup :=
  (Making.grows_extendPart hsegment hfirst hdepth h).1.nodup_earlier hids hfirst
    (prefix_extendPart h).1

variable (hfollows : guarded.Follows segment)

include hfollows

theorem run_extend {start : Workflow} {first whole : Part} {count : Nat}
    (hattached : ∀ edge ∈ start.edges, edge.source ∈ start.nodes.map (·.id))
    (hfirst : start.Grows draft.workflow first.marks first.edges)
    (hdepth : first.nesting ≤ depth)
    (h : (Making.extendPart segment first count).run draft = (whole, last))
    (hids : (last.workflow.nodes.map (·.id)).Nodup) :
    (extend guarded first.exit count).run draft = some (whole.exit, last) := by
  induction count generalizing first draft with
  | zero =>
      cases h
      rfl
  | succ count ih =>
      have hbefore := nodup_of_extendPart hsegment hfirst hdepth h hids
      obtain ⟨second, d₁, hsecond, h⟩ := Making.run_bind_eq_iff.1 h
      obtain ⟨⟨⟩, d₂, hconnect, h⟩ := Making.run_bind_eq_iff.1 h
      obtain ⟨hgrows, hnesting⟩ := hsegment hsecond
      have hboth := hfirst.trans hgrows
      have hlink := Making.grows_link hconnect hboth
      have hdeep : (Part.link first second).nesting ≤ depth :=
        Nat.max_le.2 ⟨hdepth, hnesting⟩
      have hnext := nodup_of_extendPart hsegment hlink hdeep h hids
      have hmiddle := hlink.nodup_earlier hnext hboth List.prefix_rfl
      have hrest := ih hlink hdeep h
      refine (run_bind (hfollows hsecond
        (hfirst.attached hbefore hattached) hmiddle)).trans ?_
      exact (run_bind (run_connect hattached hconnect hnext hboth hlink)).trans
        hrest

theorem follows_chain (count : Nat) :
    (chain guarded count).Follows (Making.chainPart segment count) := by
  intro draft next whole h hattached hids
  obtain ⟨hwhole, -⟩ := Making.adding_chainPart hsegment count h
  obtain ⟨first, d₁, hfirst, h⟩ := Making.run_bind_eq_iff.1 h
  obtain ⟨hgrows, hnesting⟩ := hsegment hfirst
  obtain ⟨-, hentry⟩ := prefix_extendPart h
  have hsegmentIds := nodup_of_extendPart hsegment hgrows hnesting h hids
  refine (run_bind (hfollows hfirst hattached hsegmentIds)).trans ?_
  refine (run_bind
    (run_extend hsegment hfollows hattached hgrows hnesting h hids)).trans ?_
  refine (run_bind (run_promise (isOpen_exit hattached hwhole hids))).trans ?_
  rw [Part.ends, ← hentry]
  rfl

end

theorem follows_loop {guarded : Guarded (Uuid × Uuid)} {segment : Making Part}
    {depth : Nat} (hsegment : segment.Adding depth)
    (hfollows : guarded.Follows segment) :
    (loop chance guarded).Follows (Making.loopPart chance segment) := by
  intro draft next part h hattached hids
  obtain ⟨name, d₁, hname, h⟩ := Making.run_bind_eq_iff.1 h
  obtain ⟨k, d₂, hk, h⟩ := Making.run_bind_eq_iff.1 h
  obtain ⟨head, d₃, hhead, h⟩ := Making.run_bind_eq_iff.1 h
  obtain ⟨tail, d₄, htail, h⟩ := Making.run_bind_eq_iff.1 h
  obtain ⟨⟨⟩, d₅, hloop, h⟩ := Making.run_bind_eq_iff.1 h
  obtain ⟨count, d₆, hcount, h⟩ := Making.run_bind_eq_iff.1 h
  obtain ⟨body, d₇, hbody, h⟩ := Making.run_bind_eq_iff.1 h
  obtain ⟨⟨⟩, d₈, hentry, h⟩ := Making.run_bind_eq_iff.1 h
  obtain ⟨⟨⟩, d₉, hexit, h⟩ := Making.run_bind_eq_iff.1 h
  obtain ⟨after, d₁₀, hafter, h⟩ := Making.run_bind_eq_iff.1 h
  obtain ⟨⟨⟩, d₁₁, hdone, h⟩ := Making.run_bind_eq_iff.1 h
  cases h
  have hsame : d₄.workflow = draft.workflow := by
    rw [Making.workflow_freshId htail, Making.workflow_freshId hhead,
      Making.workflow_draw hk, Making.workflow_nextName hname]
  have hstart : draft.workflow.Grows d₅.workflow (Mark.ofLoop head tail)
      [⟨tail, head, none⟩] := by
    cases hloop
    rw [← hsame]
    exact .addLoop ..
  have hbegun := hstart
  rw [← Making.workflow_draw hcount] at hbegun
  obtain ⟨hinner, -⟩ := Making.adding_chainPart hsegment _ hbody
  have hmade := hbegun.trans hinner
  have henter := Making.grows_enter hentry hmade
  have hleave := Making.grows_leave hexit henter
  have hlast := hleave.trans (Making.grows_action hafter)
  rw [List.append_nil] at hlast
  have hwhole := Making.grows_done hdone hlast
  have hids₁₀ := hwhole.nodup_earlier hids hlast List.prefix_rfl
  have hids₉ := hlast.nodup_earlier hids₁₀ hleave (List.prefix_append _ _)
  have hids₈ := hleave.nodup_earlier hids₉ henter List.prefix_rfl
  have hids₇ := henter.nodup_earlier hids₈ hmade List.prefix_rfl
  have hids₆ := hmade.nodup_earlier hids₇ hbegun (List.prefix_append _ _)
  have hids₅ : (d₅.workflow.nodes.map (·.id)).Nodup := by
    rwa [Making.workflow_draw hcount] at hids₆
  have hbodyRun := follows_chain hsegment hfollows _ hbody
    (hbegun.attached hids₆ hattached) hids₇
  refine (run_bind (run_plain hname)).trans ?_
  refine (run_bind (run_plain hk)).trans ?_
  refine (run_bind (run_plain hhead)).trans ?_
  refine (run_bind (run_plain htail)).trans ?_
  refine (run_bind (run_addLoop (hsame ▸ hattached) hloop hids₅)).trans ?_
  refine (run_bind (run_plain hcount)).trans ?_
  refine (run_bind hbodyRun).trans ?_
  refine (run_bind (run_connect hattached hentry hids₈ hmade henter)).trans ?_
  refine (run_bind (run_connect hattached hexit hids₉ henter hleave)).trans ?_
  refine (run_bind (run_plain hafter)).trans ?_
  exact run_bind (run_connect hattached hdone hids hlast hwhole)

theorem follows_segment (depth : Nat) :
    (segment chance depth).Follows (Making.segmentPart chance depth) := by
  induction depth with
  | zero =>
      intro draft next part h hattached hids
      obtain ⟨k, d₁, hk, h⟩ := Making.run_bind_eq_iff.1 h
      rw [← Making.workflow_draw hk] at hattached
      rw [segment]
      refine (run_bind (run_promise rfl)).trans ?_
      refine (run_bind (run_plain hk)).trans ?_
      match k with
      | 0 => exact follows_single h hattached hids
      | 1 => exact follows_branch h hattached hids
      | _ + 2 => exact follows_single h hattached hids
  | succ depth ih =>
      intro draft next part h hattached hids
      obtain ⟨k, d₁, hk, h⟩ := Making.run_bind_eq_iff.1 h
      rw [← Making.workflow_draw hk] at hattached
      rw [segment]
      refine (run_bind (run_promise (by simp; omega))).trans ?_
      refine (run_bind (run_plain hk)).trans ?_
      match k with
      | 0 =>
          rw [if_pos (by omega), Int.natCast_succ, Int.add_sub_cancel]
          exact follows_loop
            (Making.adding_segmentPart depth) ih h hattached hids
      | 1 => exact follows_branch h hattached hids
      | _ + 2 => exact follows_single h hattached hids

end

/-- Guarded or not, generation does the same. -/
theorem run_chain (chance : Chance) (segments depth : Nat)
    (hids :
      ((Workflow.generate chance segments depth).nodes.map (·.id)).Nodup) :
    (chain (segment chance depth) segments).run (Making.start chance) =
      some ((Making.chain (Making.segment chance depth) segments).run
        (Making.start chance)) := by
  obtain ⟨part, next, htraced, hplain, -⟩ :=
    Making.traces_chain chance depth segments (Making.start chance)
  have hnext : next.workflow = Workflow.generate chance segments depth := by
    rw [Workflow.generate_eq, htraced]
  rw [hplain]
  exact follows_chain (Making.adding_segmentPart depth)
    (follows_segment depth) segments htraced
    nofun (hnext ▸ hids)

end Guarded

namespace Workflow

/-- Whatever chance supplies, as long as identifiers are distinct, a generated
workflow passes the check and the run gate, so it is written; and no promise was
broken in its making. -/
theorem generate_sound (chance : Chance) (segments depth : Nat)
    (hids : ((generate chance segments depth).nodes.map (·.id)).Nodup) :
    (generate chance segments depth).check = [] ∧
    (generate chance segments depth).splits = [] ∧
    (Guarded.chain (Guarded.segment chance depth) segments).run
      (Making.start chance) =
      some ((Making.chain (Making.segment chance depth) segments).run
        (Making.start chance)) ∧
    ∀ output,
      0 < segments → GenerateCommand.plan ⟨output, segments, depth⟩ chance =
      ⟨{ stdout := Report.lines
          [GenerateCommand.summary (generate chance segments depth) output] },
        some (output, (generate chance segments depth).toText)⟩ := by
  have hlaid := laid_generate chance segments depth hids
  have hcheck := check_eq_nil_iff_sound.2 hlaid.sound
  refine ⟨hcheck, hlaid.splits_eq_nil,
    Guarded.run_chain chance segments depth hids, ?_⟩
  intro output hsegments
  rw [GenerateCommand.plan, if_neg (Nat.ne_of_gt hsegments),
    GenerateCommand.planFor, hcheck]

theorem twiceLooped_sound :
    ((generate twiceLooped 1 2).nodes.map (·.id)).Nodup ∧ 0 < 1 ∧
      (generate twiceLooped 1 2).check = [] ∧
      (GenerateCommand.plan ⟨"out.json", 1, 2⟩ twiceLooped).report.exit =
        0 := by
  have hids : ((generate twiceLooped 1 2).nodes.map (·.id)).Nodup := by
    decide +kernel
  obtain ⟨hcheck, -, -, hplan⟩ := generate_sound twiceLooped 1 2 hids
  exact ⟨hids, Nat.one_pos, hcheck,
    congrArg (·.report.exit) (hplan "out.json" Nat.one_pos)⟩

end Workflow

end Workbench
