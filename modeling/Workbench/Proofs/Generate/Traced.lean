import Workbench.Generate
import Workbench.Proofs.Generate.Part
import Workbench.Proofs.Workflow.Edit

/-!
# Generation, traced

The calls by which a workflow is generated give back no more than an entry and
an exit. Here they give back the whole part that they have made, and otherwise
they do what they did: what is known of the parts can be forgotten, and that
gives the calls as they are (`ends_segmentPart`, `ends_chainPart`).

A call is followed step by step from the workflow that it found. All that counts
is what it adds, which is what `Workflow.Grows` says: the marks of the new
nodes, and the new edges. An edge takes the place of those that leave from its
port, so the edges that were there before stay only if the port was free. It
was: an edge that is added leaves a node of the same call, and where the call
itself has used the node before, that was another port.
-/

namespace Workbench

namespace Workflow

/-- Nodes and edges were added; the edges leave new nodes, and no edge was
replaced if identifiers are distinct and the edges were attached. -/
structure Grows (workflow next : Workflow) (marks : List Mark)
    (edges : List Edge) : Prop where
  marks_eq : next.nodes.map Node.mark = workflow.nodes.map Node.mark ++ marks
  source_mem : ∀ edge ∈ edges, edge.source ∈ marks.map (·.id)
  edges_eq : (next.nodes.map (·.id)).Nodup →
    (∀ edge ∈ workflow.edges, edge.source ∈ workflow.nodes.map (·.id)) →
      next.edges = workflow.edges ++ edges

namespace Grows

variable {workflow next last : Workflow} {marks more : List Mark}
  {edges later : List Edge}

theorem ids_eq (h : workflow.Grows next marks edges) :
    next.nodes.map (·.id) = workflow.nodes.map (·.id) ++ marks.map (·.id) := by
  have hmarks := congrArg (List.map (·.id)) h.marks_eq
  rw [List.map_append, List.map_map, List.map_map] at hmarks
  exact hmarks

theorem addNode (node : Node) :
    workflow.Grows (workflow.addNode node) [node.mark] [] where
  marks_eq := List.map_append
  source_mem := nofun
  edges_eq _ _ := (List.append_nil _).symm

/-- If no edge is replaced, edges stay attached to nodes. -/
theorem attached (h : workflow.Grows next marks edges)
    (hids : (next.nodes.map (·.id)).Nodup)
    (hattached : ∀ edge ∈ workflow.edges,
      edge.source ∈ workflow.nodes.map (·.id)) :
    ∀ edge ∈ next.edges, edge.source ∈ next.nodes.map (·.id) := by
  intro edge hedge
  rw [h.edges_eq hids hattached] at hedge
  rw [h.ids_eq, List.mem_append]
  rcases List.mem_append.1 hedge with hedge | hedge
  · exact .inl (hattached edge hedge)
  · exact .inr (h.source_mem edge hedge)

/-- Identifiers that are distinct later are distinct now. -/
theorem nodup_earlier (hlast : workflow.Grows last more later)
    (hids : (last.nodes.map (·.id)).Nodup) (h : workflow.Grows next marks edges)
    (hmore : marks <+: more) : (next.nodes.map (·.id)).Nodup := by
  rw [hlast.ids_eq] at hids
  rw [h.ids_eq]
  exact hids.sublist ((hmore.sublist.map _).append_left _)

theorem trans (h : workflow.Grows next marks edges)
    (hlast : next.Grows last more later) :
    workflow.Grows last (marks ++ more) (edges ++ later) where
  marks_eq := by rw [hlast.marks_eq, h.marks_eq, List.append_assoc]
  source_mem edge hedge := by
    rw [List.map_append, List.mem_append]
    rcases List.mem_append.1 hedge with hedge | hedge
    · exact .inl (h.source_mem edge hedge)
    · exact .inr (hlast.source_mem edge hedge)
  edges_eq hids hattached := by
    have hmiddle := hids
    rw [hlast.ids_eq] at hmiddle
    have hmiddle := (List.nodup_append'.1 hmiddle).1
    rw [hlast.edges_eq hids (h.attached hmiddle hattached),
      h.edges_eq hmiddle hattached, List.append_assoc]

/-- An edge between new nodes from a port that the new edges leave free. -/
theorem addEdge (h : workflow.Grows next marks edges) {edge : Edge}
    (hsource : edge.source ∈ marks.map (·.id))
    (htarget : edge.target ∈ marks.map (·.id))
    (hfree : (marks.map (·.id)).Nodup → ∀ other ∈ edges,
      other.source = edge.source → other.port ≠ edge.port) :
    workflow.Grows (next.addEdge edge).2 marks (edges ++ [edge]) where
  marks_eq := by rw [nodes_addEdge, h.marks_eq]
  source_mem other hother := by
    rcases List.mem_append.1 hother with hother | hother
    · exact h.source_mem other hother
    · rw [List.mem_singleton.1 hother]
      exact hsource
  edges_eq hids hattached := by
    rw [nodes_addEdge] at hids
    have hadmits : next.admits edge = true := by
      simp only [admits_iff, contains_iff_mem_ids, h.ids_eq, List.mem_append]
      exact ⟨.inr hsource, .inr htarget⟩
    have hnext := h.edges_eq hids hattached
    rw [h.ids_eq, List.nodup_append'] at hids
    obtain ⟨-, hnew, hdisjoint⟩ := hids
    rw [addEdge_of_admits hadmits]
    dsimp only
    rw [List.filter_eq_self.2, hnext, List.append_assoc]
    intro other hother
    rw [Bool.not_eq_true', ← Bool.not_eq_true, Edge.leaves_iff]
    rintro ⟨hsame, hport⟩
    rw [hnext] at hother
    rcases List.mem_append.1 hother with hother | hother
    · exact hdisjoint (hattached other hother) (hsame ▸ hsource)
    · exact hfree hnew other hother hsame hport

theorem addLoop (name : String) (loop : Loop) (head tail : Uuid) :
    workflow.Grows (workflow.addLoop name loop head tail)
      (Mark.ofLoop head tail) [⟨tail, head, none⟩] :=
  ((addNode _).trans (addNode _)).addEdge (by simp [Node.mark])
    (by simp [Node.mark]) nofun

end Grows

end Workflow

/-! ## Calls that give back parts -/

def Part.ends (part : Part) : Uuid × Uuid := (part.entry, part.exit)

namespace Making

variable (chance : Chance)

def branchPart : Making Part := do
  let fork ← addStep chance (.ifThen ⟨isTrue "found"⟩)
  let yes ← action chance
  let no ← action chance
  let join ← action chance
  connect fork yes (some .ifTrue)
  connect fork no (some .ifFalse)
  connect yes join
  connect no join
  return .branch fork yes no join

/-- Links further segments to a part. -/
def extendPart (segment : Making Part) (part : Part) : Nat → Making Part
  | 0 => return part
  | count + 1 => do
      let next ← segment
      connect part.exit next.entry
      extendPart segment (.link part next) count

def chainPart (segment : Making Part) (count : Nat) : Making Part := do
  let part ← segment
  extendPart segment part (count - 1)

def loopPart (segment : Making Part) : Making Part := do
  let name ← nextName "Loop"
  let k ← draw chance 19
  let head ← freshId chance
  let tail ← freshId chance
  let params : Loop :=
    { exitCondition := isTrue "done", maxIterations := .ofNat (k + 1) }
  modify fun draft =>
    { draft with workflow := draft.workflow.addLoop name params head tail }
  let count ← draw chance 3
  let body ← chainPart segment (count + 1)
  connect head body.entry (some .loopBody)
  connect body.exit tail
  let after ← action chance
  connect head after (some .loopDone)
  return .loop head tail body after

def singlePart : Making Part := do
  let id ← action chance
  return .action id

def segmentPart : (depth : Nat) → Making Part
  | 0 => do
      match ← draw chance 4 with
      | 1 => branchPart chance
      | _ => singlePart chance
  | depth + 1 => do
      match ← draw chance 4 with
      | 0 => loopPart chance (segmentPart depth)
      | 1 => branchPart chance
      | _ => singlePart chance

/-! ## Forgetting the parts -/

theorem ends_branchPart : Part.ends <$> branchPart chance = branch chance := by
  simp only [branchPart, branch, map_bind, map_pure]
  rfl

theorem ends_singlePart : Part.ends <$> singlePart chance = single chance := by
  simp only [singlePart, single, map_bind, map_pure]
  rfl

theorem ends_extendPart (segment : Making Part) (part : Part) (count : Nat) :
    Part.ends <$> extendPart segment part count = do
      let exit ← extend (Part.ends <$> segment) part.exit count
      return (part.entry, exit) := by
  induction count generalizing part with
  | zero => simp only [extendPart, extend, map_pure, pure_bind, Part.ends]
  | succ count ih =>
      simp only [extendPart, extend, map_bind, ih, bind_assoc, bind_map_left]
      rfl

theorem ends_chainPart (segment : Making Part) (count : Nat) :
    Part.ends <$> chainPart segment count =
      chain (Part.ends <$> segment) count := by
  simp only [chainPart, chain, map_bind, ends_extendPart, bind_map_left]
  rfl

theorem ends_loopPart (segment : Making Part) :
    Part.ends <$> loopPart chance segment =
      loop chance (Part.ends <$> segment) := by
  simp only [loopPart, loop, map_bind, map_pure, ← ends_chainPart,
    bind_map_left]
  rfl

theorem ends_segmentPart (depth : Nat) :
    Part.ends <$> segmentPart chance depth = segment chance depth := by
  induction depth with
  | zero =>
      rw [segmentPart, segment, map_bind]
      refine bind_congr fun k => ?_
      match k with
      | 0 => exact ends_singlePart chance
      | 1 => exact ends_branchPart chance
      | _ + 2 => exact ends_singlePart chance
  | succ depth ih =>
      rw [segmentPart, segment, map_bind, ← ih]
      refine bind_congr fun k => ?_
      match k with
      | 0 => exact ends_loopPart chance _
      | 1 => exact ends_branchPart chance
      | _ + 2 => exact ends_singlePart chance

/-! ## What the calls add -/

section

variable {α β : Type} {chance} {draft next last : Draft}

theorem run_bind_eq_iff {making : Making α} {rest : α → Making β} {b : β} :
    (making >>= rest).run draft = (b, last) ↔
      ∃ a next,
        making.run draft = (a, next) ∧ (rest a).run next = (b, last) := by
  refine ⟨fun h => ⟨_, _, rfl, h⟩, fun h => ?_⟩
  obtain ⟨a, next, hmaking, hrest⟩ := h
  rw [StateT.run_bind, hmaking]
  exact hrest

theorem workflow_draw {bound k : Nat}
    (h : (draw chance bound).run draft = (k, next)) :
    next.workflow = draft.workflow := by
  cases h
  rfl

theorem workflow_nextName {word name : String}
    (h : (nextName word).run draft = (name, next)) :
    next.workflow = draft.workflow := by
  cases h
  rfl

theorem workflow_freshId {id : Uuid}
    (h : (freshId chance).run draft = (id, next)) :
    next.workflow = draft.workflow := by
  cases h
  rfl

theorem grows_addStep {step : Step} {id : Uuid}
    (h : (addStep chance step).run draft = (id, next)) :
    draft.workflow.Grows next.workflow [step.mark id] [] := by
  cases h
  exact .addNode _

theorem grows_connect {start : Workflow} {marks : List Mark} {edges : List Edge}
    {source target : Uuid} {port : Option Port}
    (h : (connect source target port).run draft = ((), next))
    (hgrows : start.Grows draft.workflow marks edges)
    (hsource : source ∈ marks.map (·.id)) (htarget : target ∈ marks.map (·.id))
    (hfree : (marks.map (·.id)).Nodup → ∀ other ∈ edges, other.source = source →
      other.port ≠ port) :
    start.Grows next.workflow marks (edges ++ [⟨source, target, port⟩]) := by
  cases h
  exact hgrows.addEdge hsource htarget hfree

theorem workflow_coordinate {length : Nat} {x : Option Binary64}
    (h : (coordinate chance length).run draft = (x, next)) :
    next.workflow = draft.workflow := by
  obtain ⟨k, drawn, hk, h⟩ := run_bind_eq_iff.1 h
  cases h
  exact workflow_draw hk

theorem grows_action {id : Uuid} (h : (action chance).run draft = (id, next)) :
    draft.workflow.Grows next.workflow [{ id }] [] := by
  obtain ⟨k, drawn, hk, h⟩ := run_bind_eq_iff.1 h
  rw [← workflow_draw hk]
  match k with
  | 0 =>
      obtain ⟨x, _, hx, h⟩ := run_bind_eq_iff.1 h
      obtain ⟨y, _, hy, h⟩ := run_bind_eq_iff.1 h
      rw [← workflow_coordinate hx, ← workflow_coordinate hy]
      exact grows_addStep h
  | 1 => exact grows_addStep h
  | 2 => exact grows_addStep h
  | _ + 3 =>
      obtain ⟨_, _, hk, h⟩ := run_bind_eq_iff.1 h
      rw [← workflow_draw hk]
      exact grows_addStep h

/-- What a call adds to a workflow is its part, with loops nested at most so
deep. -/
def Adding (making : Making Part) (depth : Nat) : Prop :=
  ∀ {draft next part}, making.run draft = (part, next) →
    draft.workflow.Grows next.workflow part.marks part.edges ∧
      part.nesting ≤ depth

theorem adding_singlePart (depth : Nat) : (singlePart chance).Adding depth := by
  intro draft next part h
  obtain ⟨id, d₁, hid, h⟩ := run_bind_eq_iff.1 h
  cases h
  exact ⟨grows_action hid, Nat.zero_le _⟩

/-- The edges of a branch are added in turn, each from a free port. -/
theorem grows_branch {start : Workflow} {fork yes no join : Uuid}
    {d₁ d₂ d₃ d₄ : Draft}
    (h : start.Grows draft.workflow (Part.branch fork yes no join).marks [])
    (htrue : (connect fork yes (some .ifTrue)).run draft = ((), d₁))
    (hfalse : (connect fork no (some .ifFalse)).run d₁ = ((), d₂))
    (hleft : (connect yes join).run d₂ = ((), d₃))
    (hright : (connect no join).run d₃ = ((), d₄)) :
    let edges := (Part.branch fork yes no join).edges
    let Grown (count : Nat) (d : Draft) : Prop :=
      start.Grows d.workflow (Part.branch fork yes no join).marks
        (edges.take count)
    Grown 1 d₁ ∧ Grown 2 d₂ ∧ Grown 3 d₃ ∧ Grown 4 d₄ := by
  have hone :=
    grows_connect htrue h (by simp [Part.marks]) (by simp [Part.marks])
      (by simp)
  have htwo :=
    grows_connect hfalse hone (by simp [Part.marks]) (by simp [Part.marks])
      (by simp)
  -- The two edges into the join leave from the same port, but from different
  -- nodes.
  have hthree :=
    grows_connect hleft htwo (by simp [Part.marks]) (by simp [Part.marks])
      (by simp [Part.marks])
  have hfour :=
    grows_connect hright hthree (by simp [Part.marks]) (by simp [Part.marks])
      (by simp +contextual [Part.marks])
  exact ⟨hone, htwo, hthree, hfour⟩

theorem adding_branchPart (depth : Nat) : (branchPart chance).Adding depth := by
  intro draft next part h
  obtain ⟨fork, d₁, hfork, h⟩ := run_bind_eq_iff.1 h
  obtain ⟨yes, d₂, hyes, h⟩ := run_bind_eq_iff.1 h
  obtain ⟨no, d₃, hno, h⟩ := run_bind_eq_iff.1 h
  obtain ⟨join, d₄, hjoin, h⟩ := run_bind_eq_iff.1 h
  obtain ⟨⟨⟩, d₅, htrue, h⟩ := run_bind_eq_iff.1 h
  obtain ⟨⟨⟩, d₆, hfalse, h⟩ := run_bind_eq_iff.1 h
  obtain ⟨⟨⟩, d₇, hleft, h⟩ := run_bind_eq_iff.1 h
  obtain ⟨⟨⟩, d₈, hright, h⟩ := run_bind_eq_iff.1 h
  cases h
  have hnodes :=
    (((grows_addStep hfork).trans (grows_action hyes)).trans
      (grows_action hno)).trans (grows_action hjoin)
  obtain ⟨-, -, -, hjoined⟩ := grows_branch hnodes htrue hfalse hleft hright
  exact ⟨hjoined, Nat.zero_le _⟩

/-- A part is linked to another by an edge from its exit, which is free. -/
theorem grows_link {start : Workflow} {first second : Part}
    (hconnect : (connect first.exit second.entry).run draft = ((), next))
    (h : start.Grows draft.workflow (Part.link first second).marks
      (first.edges ++ second.edges)) :
    start.Grows next.workflow (Part.link first second).marks
      (Part.link first second).edges := by
  refine grows_connect hconnect h ?_ ?_ ?_
  · rw [Part.map_id_marks]
    exact List.mem_append_left _ first.exit_mem_ids
  · rw [Part.map_id_marks]
    exact List.mem_append_right _ second.entry_mem_ids
  · rw [Part.map_id_marks]
    intro hnodup other hother hsource
    obtain ⟨hleft, hright, hdisjoint⟩ := Part.nodup_link hnodup
    rcases List.mem_append.1 hother with hother | hother
    · exact absurd hsource (Part.exit_free hleft hother)
    · exact absurd (hsource ▸ (Part.ends_mem_ids hother).1)
        (hdisjoint first.exit_mem_ids)

section

variable {segment : Making Part} {depth : Nat} (hsegment : segment.Adding depth)

include hsegment

/-- Segments are linked to what has grown since the first of them began. -/
theorem grows_extendPart {start : Workflow} {first whole : Part} {count : Nat}
    (hfirst : start.Grows draft.workflow first.marks first.edges)
    (hdepth : first.nesting ≤ depth)
    (h : (extendPart segment first count).run draft = (whole, last)) :
    start.Grows last.workflow whole.marks whole.edges ∧
      whole.nesting ≤ depth := by
  induction count generalizing first draft with
  | zero =>
      cases h
      exact ⟨hfirst, hdepth⟩
  | succ count ih =>
      obtain ⟨second, d₁, hsecond, h⟩ := run_bind_eq_iff.1 h
      obtain ⟨⟨⟩, d₂, hconnect, h⟩ := run_bind_eq_iff.1 h
      obtain ⟨hgrows, hnesting⟩ := hsegment hsecond
      have hboth : (Part.link first second).nesting ≤ depth :=
        Nat.max_le.2 ⟨hdepth, hnesting⟩
      exact ih (grows_link hconnect (hfirst.trans hgrows)) hboth h

theorem adding_chainPart (count : Nat) :
    (chainPart segment count).Adding depth := by
  intro draft next part h
  obtain ⟨first, d₁, hfirst, h⟩ := run_bind_eq_iff.1 h
  obtain ⟨hgrows, hnesting⟩ := hsegment hfirst
  exact grows_extendPart hsegment hgrows hnesting h

end

/-! The edges of a loop are added in turn. Each finds its port free: the head
has no edge yet that is labelled like it, and the exit of the body has none at
all. -/

section

variable {start : Workflow} {head tail after : Uuid} {body : Part}

theorem grows_enter
    (hentry : (connect head body.entry (some .loopBody)).run draft = ((), next))
    (h : start.Grows draft.workflow (Mark.ofLoop head tail ++ body.marks)
      (⟨tail, head, none⟩ :: body.edges)) :
    start.Grows next.workflow (Mark.ofLoop head tail ++ body.marks)
      (⟨tail, head, none⟩ :: body.edges ++
        [⟨head, body.entry, some .loopBody⟩]) := by
  refine grows_connect hentry h (by simp [Mark.ofLoop])
    (by simp [Part.map_id_marks, Part.entry_mem_ids]) ?_
  intro hids other hother hsource
  simp only [Mark.ofLoop, List.cons_append, List.nil_append, List.map_cons,
    Part.map_id_marks, List.nodup_cons, List.mem_cons, not_or] at hids
  obtain ⟨⟨-, hhead⟩, -⟩ := hids
  rcases List.mem_cons.1 hother with rfl | hother
  · nofun
  · exact absurd hsource
      (ne_of_mem_of_not_mem (Part.ends_mem_ids hother).1 hhead)

theorem grows_leave (hexit : (connect body.exit tail).run draft = ((), next))
    (h : start.Grows draft.workflow (Mark.ofLoop head tail ++ body.marks)
      (⟨tail, head, none⟩ :: body.edges ++
        [⟨head, body.entry, some .loopBody⟩])) :
    start.Grows next.workflow (Mark.ofLoop head tail ++ body.marks)
      (⟨tail, head, none⟩ :: body.edges ++
        [⟨head, body.entry, some .loopBody⟩] ++
        [⟨body.exit, tail, none⟩]) := by
  refine grows_connect hexit h (by simp [Part.map_id_marks, Part.exit_mem_ids])
    (by simp [Mark.ofLoop]) ?_
  intro hids other hother hsource
  simp only [Mark.ofLoop, List.cons_append, List.nil_append, List.map_cons,
    Part.map_id_marks, List.nodup_cons] at hids
  obtain ⟨-, htail, hbody⟩ := hids
  simp only [List.mem_append, List.mem_cons, List.not_mem_nil,
    or_false] at hother
  rcases hother with (rfl | hother) | rfl
  · exact absurd hsource.symm (ne_of_mem_of_not_mem body.exit_mem_ids htail)
  · exact absurd hsource (Part.exit_free hbody hother)
  · exact fun hport => by cases hport

theorem grows_done
    (hdone : (connect head after (some .loopDone)).run draft = ((), next))
    (h : start.Grows draft.workflow (Part.loop head tail body after).marks
      (⟨tail, head, none⟩ :: body.edges ++
        [⟨head, body.entry, some .loopBody⟩] ++ [⟨body.exit, tail, none⟩])) :
    start.Grows next.workflow (Part.loop head tail body after).marks
      (Part.loop head tail body after).edges := by
  refine grows_connect hdone h (by simp [Part.map_id_marks, Part.ids])
    (by simp [Part.map_id_marks, Part.ids]) ?_
  rw [Part.map_id_marks]
  intro hids other hother hsource
  obtain ⟨-, hhead, -⟩ := Part.nodup_loop hids
  simp only [List.mem_append, List.mem_cons, List.not_mem_nil,
    or_false] at hother
  rcases hother with ((rfl | hother) | rfl) | rfl
  · exact fun hport => by cases hport
  · exact absurd hsource
      (ne_of_mem_of_not_mem (Part.ends_mem_ids hother).1 hhead)
  · exact fun hport => by cases hport
  · exact fun hport => by cases hport

end

theorem adding_loopPart {segment : Making Part} {depth : Nat}
    (hsegment : segment.Adding depth) :
    (loopPart chance segment).Adding (depth + 1) := by
  intro draft next part h
  obtain ⟨name, d₁, hname, h⟩ := run_bind_eq_iff.1 h
  obtain ⟨k, d₂, hk, h⟩ := run_bind_eq_iff.1 h
  obtain ⟨head, d₃, hhead, h⟩ := run_bind_eq_iff.1 h
  obtain ⟨tail, d₄, htail, h⟩ := run_bind_eq_iff.1 h
  obtain ⟨⟨⟩, d₅, hloop, h⟩ := run_bind_eq_iff.1 h
  obtain ⟨count, d₆, hcount, h⟩ := run_bind_eq_iff.1 h
  obtain ⟨body, d₇, hbody, h⟩ := run_bind_eq_iff.1 h
  obtain ⟨⟨⟩, d₈, hentry, h⟩ := run_bind_eq_iff.1 h
  obtain ⟨⟨⟩, d₉, hexit, h⟩ := run_bind_eq_iff.1 h
  obtain ⟨after, d₁₀, hafter, h⟩ := run_bind_eq_iff.1 h
  obtain ⟨⟨⟩, d₁₁, hdone, h⟩ := run_bind_eq_iff.1 h
  cases h
  have hsame : d₄.workflow = draft.workflow := by
    rw [workflow_freshId htail, workflow_freshId hhead, workflow_draw hk,
      workflow_nextName hname]
  have hstart : draft.workflow.Grows d₆.workflow (Mark.ofLoop head tail)
      [⟨tail, head, none⟩] := by
    cases hloop
    rw [workflow_draw hcount, ← hsame]
    exact .addLoop ..
  obtain ⟨hinner, hnesting⟩ := adding_chainPart hsegment _ hbody
  have hleft := grows_leave hexit (grows_enter hentry (hstart.trans hinner))
  have hlast := hleft.trans (grows_action hafter)
  rw [List.append_nil] at hlast
  exact ⟨grows_done hdone hlast, Nat.succ_le_succ hnesting⟩

theorem adding_segmentPart (depth : Nat) :
    (segmentPart chance depth).Adding depth := by
  induction depth with
  | zero =>
      intro draft next part h
      obtain ⟨k, d₁, hk, h⟩ := run_bind_eq_iff.1 h
      rw [← workflow_draw hk]
      match k with
      | 0 => exact adding_singlePart 0 h
      | 1 => exact adding_branchPart 0 h
      | _ + 2 => exact adding_singlePart 0 h
  | succ depth ih =>
      intro draft next part h
      obtain ⟨k, d₁, hk, h⟩ := run_bind_eq_iff.1 h
      rw [← workflow_draw hk]
      match k with
      | 0 => exact adding_loopPart ih h
      | 1 => exact adding_branchPart _ h
      | _ + 2 => exact adding_singlePart _ h

/-- The traced call does what the call does, and the part names the nodes that
were created. -/
def Traces (making : Making (Uuid × Uuid)) (traced : Making Part) : Prop :=
  ∀ draft, ∃ part next,
    traced.run draft = (part, next) ∧ making.run draft = (part.ends, next) ∧
    next.workflow.nodes.map (·.id) = draft.workflow.nodes.map (·.id) ++ part.ids

variable (chance) in
theorem traces_chain (depth count : Nat) :
    (chain (segment chance depth) count).Traces
      (chainPart (segmentPart chance depth) count) := by
  intro draft
  obtain ⟨part, next, hrun⟩ : ∃ part next,
      (chainPart (segmentPart chance depth) count).run draft = (part, next) :=
    ⟨_, _, rfl⟩
  refine ⟨part, next, hrun, ?_, ?_⟩
  · rw [← ends_segmentPart, ← ends_chainPart, StateT.run_map, hrun]
    rfl
  · have hids :=
      (adding_chainPart (adding_segmentPart depth) count hrun).1.ids_eq
    rw [Part.map_id_marks] at hids
    exact hids

end

/-- The draft with which a workflow begins. -/
def start (chance : Chance) : Draft where
  workflow := { id := chance.id 0, name := "Generated Workflow" }
  taken := 1

end Making

/-- The part that makes up a generated workflow. -/
def Part.generated (chance : Chance) (segments depth : Nat) : Part :=
  ((Making.chainPart (Making.segmentPart chance depth) segments).run
    (Making.start chance)).1

theorem Workflow.generate_eq (chance : Chance) (segments depth : Nat) :
    generate chance segments depth =
      ((Making.chainPart (Making.segmentPart chance depth) segments).run
        (Making.start chance)).2.workflow := by
  rw [generate, ← Making.ends_segmentPart, ← Making.ends_chainPart]
  rfl

theorem Workflow.grows_generate (chance : Chance) (segments depth : Nat) :
    (Making.start chance).workflow.Grows (generate chance segments depth)
        (Part.generated chance segments depth).marks
        (Part.generated chance segments depth).edges ∧
      (Part.generated chance segments depth).nesting ≤ depth := by
  rw [generate_eq]
  exact Making.adding_chainPart (Making.adding_segmentPart depth) segments rfl

end Workbench
