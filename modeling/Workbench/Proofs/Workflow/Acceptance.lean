import Workbench.Proofs.Workflow.Wired

/-!
# Which edits keep a workflow sound

An edit of a sound workflow interacts with every condition of soundness at once:
removing a node can take away the body edge of a loop far off, and changing a
step can leave another node without the loop that it ends. To tell each edit by
itself, soundness is split in two. Distinct identifiers and the wiring of edges
are one half; what is left, `Fitted`, no longer speaks of nodes but only of
which step stands at which identifier. Each edit changes these steps in a way
that takes one line to say, and a sound workflow has one step at an identifier
at most.

Wiring survives every edit. So an edit is accepted if identifiers stay distinct
and if the steps and edges still fit, and that comes down to the few things said
in `check_edit_iff`.
-/

namespace Workbench

/-- A node that is neither the head nor the end of a loop. -/
structure Node.Ordinary (node : Node) : Prop where
  not_loop : ∀ loop, node.step ≠ .loop loop
  not_end : ∀ loopId, node.step ≠ .endLoop ⟨loopId⟩

theorem Node.loop_or_end_or_ordinary (node : Node) :
    (∃ loop, node.step = .loop loop) ∨
      (∃ loopId, node.step = .endLoop ⟨loopId⟩) ∨
      node.Ordinary := by
  by_cases hloop : ∃ loop, node.step = .loop loop
  · exact .inl hloop
  · by_cases hend : ∃ loopId, node.step = .endLoop ⟨loopId⟩
    · exact .inr (.inl hend)
    · exact .inr
        (.inr ⟨fun loop h => hloop ⟨loop, h⟩, fun loopId h => hend ⟨loopId, h⟩⟩)

theorem Step.loopBody_mem_ports_iff {step : Step} :
    some .loopBody ∈ step.ports ↔ ∃ loop, step = .loop loop := by
  cases step <;> simp [Step.ports]

namespace Workflow

variable {workflow : Workflow}

/-- A node with the identifier does the step. -/
def StepAt (workflow : Workflow) (id : Uuid) (step : Step) : Prop :=
  ∃ node ∈ workflow.nodes, node.id = id ∧ node.step = step

def LoopAt (workflow : Workflow) (id : Uuid) : Prop :=
  ∃ loop, workflow.StepAt id (.loop loop)

/-- Edges leave from ports that are there, and loops have an end each and a
body. -/
structure Fitted (workflow : Workflow) : Prop where
  port_declared : ∀ edge ∈ workflow.edges, ∃ step,
    workflow.StepAt edge.source step ∧ edge.port ∈ step.ports
  end_of_loop : ∀ id loopId,
    workflow.StepAt id (.endLoop ⟨loopId⟩) → workflow.LoopAt loopId
  ended_once : ∀ loopId, workflow.LoopAt loopId → ∃! id,
    workflow.StepAt id (.endLoop ⟨loopId⟩)
  has_body : ∀ loopId, workflow.LoopAt loopId →
    ∃ edge ∈ workflow.edges, edge.source = loopId ∧ edge.port = some .loopBody

theorem StepAt.contains {id : Uuid} {step : Step}
    (h : workflow.StepAt id step) : workflow.contains id = true := by
  obtain ⟨node, hnode, hid, -⟩ := h
  exact contains_iff.2 ⟨node, hnode, hid⟩

theorem not_stepAt_of_fresh {id : Uuid} (hfresh : workflow.contains id = false)
    (step : Step) : ¬ workflow.StepAt id step := by
  intro h
  rw [h.contains] at hfresh
  cases hfresh

theorem not_loopAt_of_fresh {id : Uuid}
    (hfresh : workflow.contains id = false) : ¬ workflow.LoopAt id := by
  rintro ⟨loop, hstep⟩
  exact not_stepAt_of_fresh hfresh _ hstep

theorem Wired.source_ne_of_fresh (h : workflow.Wired) {edge : Edge}
    (hedge : edge ∈ workflow.edges) {id : Uuid}
    (hfresh : workflow.contains id = false) : edge.source ≠ id := by
  rintro rfl
  rw [h.source_exists edge hedge] at hfresh
  cases hfresh

section

variable (hids : (workflow.nodes.map (·.id)).Nodup)

include hids

theorem StepAt.unique {id : Uuid} {step other : Step}
    (h : workflow.StepAt id step) (hother : workflow.StepAt id other) :
    step = other := by
  obtain ⟨a, ha, rfl, rfl⟩ := h
  obtain ⟨b, hb, hid, rfl⟩ := hother
  rw [eq_of_id_eq hids ha hb hid.symm]

theorem stepAt_iff {node : Node} (hnode : node ∈ workflow.nodes) {step : Step} :
    workflow.StepAt node.id step ↔ node.step = step := by
  refine ⟨fun h => ?_, fun h => ⟨node, hnode, rfl, h⟩⟩
  exact StepAt.unique hids ⟨node, hnode, rfl, rfl⟩ h

theorem loopAt_iff {node : Node} (hnode : node ∈ workflow.nodes) :
    workflow.LoopAt node.id ↔ ∃ loop, node.step = .loop loop :=
  exists_congr fun _ => stepAt_iff hids hnode

/-- One node ends a loop exactly if one identifier is that of an end of it. -/
theorem existsUnique_end_iff {loopId : Uuid} :
    (∃! id, workflow.StepAt id (.endLoop ⟨loopId⟩)) ↔
      ∃! last, last ∈ workflow.nodes ∧ last.step = .endLoop ⟨loopId⟩ := by
  refine ⟨?_, ?_⟩
  · intro h
    obtain ⟨_, ⟨last, hlast, rfl, hstep⟩, honly⟩ := h
    refine ⟨last, ⟨hlast, hstep⟩, fun other hother => ?_⟩
    exact eq_of_id_eq hids hother.1 hlast
      (honly other.id ⟨other, hother.1, rfl, hother.2⟩)
  · intro h
    obtain ⟨last, ⟨hlast, hstep⟩, honly⟩ := h
    refine ⟨last.id, ⟨last, hlast, rfl, hstep⟩, fun id hid => ?_⟩
    obtain ⟨other, hother, rfl, hends⟩ := hid
    rw [honly other ⟨hother, hends⟩]

end

theorem sound_iff_fitted :
    workflow.Sound ↔
      (workflow.nodes.map (·.id)).Nodup ∧ workflow.Wired ∧ workflow.Fitted := by
  refine ⟨?_, ?_⟩
  · intro h
    refine ⟨h.ids_nodup, h.wired, ?_, ?_, ?_, ?_⟩
    · intro edge hedge
      obtain ⟨node, hnode, hid⟩ := h.source_exists edge hedge
      exact ⟨node.step, ⟨node, hnode, hid, rfl⟩,
        h.port_declared edge hedge node hnode hid⟩
    · intro id loopId hend
      obtain ⟨node, hnode, -, hstep⟩ := hend
      obtain ⟨head, hhead, hid, loop, hloop⟩ :=
        h.end_of_loop node hnode loopId hstep
      exact ⟨loop, head, hhead, hid, hloop⟩
    · intro loopId hloop
      obtain ⟨loop, head, hhead, rfl, hstep⟩ := hloop
      exact (existsUnique_end_iff h.ids_nodup).2
        (h.ended_once head hhead ⟨loop, hstep⟩)
    · intro loopId hloop
      obtain ⟨loop, head, hhead, rfl, hstep⟩ := hloop
      exact h.has_body head hhead ⟨loop, hstep⟩
  · intro h
    obtain ⟨hids, hwired, hfitted⟩ := h
    refine ⟨hids, ?_, ?_, ?_, hwired.port_single, ?_, ?_, ?_⟩
    · exact fun edge hedge => contains_iff.1 (hwired.source_exists edge hedge)
    · exact fun edge hedge => contains_iff.1 (hwired.target_exists edge hedge)
    · intro edge hedge node hnode hid
      obtain ⟨step, hstep, hport⟩ := hfitted.port_declared edge hedge
      rw [← hid, stepAt_iff hids hnode] at hstep
      rwa [hstep]
    · intro node hnode loopId hstep
      obtain ⟨loop, head, hhead, hid, hloop⟩ :=
        hfitted.end_of_loop node.id loopId ⟨node, hnode, rfl, hstep⟩
      exact ⟨head, hhead, hid, loop, hloop⟩
    · intro node hnode hloop
      exact (existsUnique_end_iff hids).1
        (hfitted.ended_once node.id ((loopAt_iff hids hnode).2 hloop))
    · intro node hnode hloop
      exact hfitted.has_body node.id ((loopAt_iff hids hnode).2 hloop)

/-- A body edge leaves from a loop, as no other step has the port. -/
theorem Fitted.loopAt_of_body (h : workflow.Fitted) {edge : Edge}
    (hedge : edge ∈ workflow.edges) (hport : edge.port = some .loopBody) :
    workflow.LoopAt edge.source := by
  obtain ⟨step, hstep, hmem⟩ := h.port_declared edge hedge
  rw [hport] at hmem
  obtain ⟨loop, rfl⟩ := Step.loopBody_mem_ports_iff.1 hmem
  exact ⟨loop, hstep⟩

/-- Where the same loops are ended by the same ends, only ports and bodies are
left to look at. -/
theorem Fitted.of_same_loops (h : workflow.Fitted) {other : Workflow}
    (hports : ∀ edge ∈ other.edges, ∃ step,
      other.StepAt edge.source step ∧ edge.port ∈ step.ports)
    (hends : ∀ id loopId, other.StepAt id (.endLoop ⟨loopId⟩) ↔
      workflow.StepAt id (.endLoop ⟨loopId⟩))
    (hloops : ∀ id, other.LoopAt id ↔ workflow.LoopAt id)
    (hbodies : ∀ edge ∈ workflow.edges, edge.port = some .loopBody →
      ∃ body ∈ other.edges,
        body.source = edge.source ∧ body.port = some .loopBody) :
    other.Fitted := by
  refine ⟨hports, ?_, ?_, ?_⟩
  · intro id loopId hend
    rw [hends] at hend
    exact (hloops loopId).2 (h.end_of_loop id loopId hend)
  · intro loopId hloop
    simp only [hends]
    exact h.ended_once loopId ((hloops loopId).1 hloop)
  · intro loopId hloop
    obtain ⟨edge, hedge, rfl, hport⟩ :=
      h.has_body loopId ((hloops loopId).1 hloop)
    exact hbodies edge hedge hport

/-! ## Adding a node -/

theorem stepAt_addNode {node : Node} {id : Uuid} {step : Step} :
    (workflow.addNode node).StepAt id step ↔
      workflow.StepAt id step ∨ node.id = id ∧ node.step = step := by
  simp only [StepAt, addNode, List.mem_append, List.mem_singleton, or_and_right,
    exists_or, exists_eq_left]

theorem loopAt_addNode {node : Node} {id : Uuid} :
    (workflow.addNode node).LoopAt id ↔
      workflow.LoopAt id ∨ node.id = id ∧ ∃ loop, node.step = .loop loop := by
  simp only [LoopAt, stepAt_addNode, exists_or, exists_and_left]

theorem nodup_ids_addNode_iff (hids : (workflow.nodes.map (·.id)).Nodup)
    {node : Node} :
    ((workflow.addNode node).nodes.map (·.id)).Nodup ↔
      workflow.contains node.id = false := by
  rw [addNode, List.map_append, List.map_singleton, ← Bool.not_eq_true,
    contains_iff_mem_ids, List.nodup_append]
  refine ⟨?_, ?_⟩
  · intro h hmem
    exact h.2.2 _ hmem _ (List.mem_singleton_self _) rfl
  · intro h
    refine ⟨hids, List.nodup_singleton _, fun a ha b hb heq => ?_⟩
    rw [List.mem_singleton] at hb
    exact h (hb ▸ heq ▸ ha)

theorem Sound.addNode_iff (h : workflow.Sound) {node : Node} :
    (workflow.addNode node).Sound ↔
      workflow.contains node.id = false ∧ node.Ordinary := by
  obtain ⟨hids, hwired, hfitted⟩ := sound_iff_fitted.1 h
  rw [sound_iff_fitted, nodup_ids_addNode_iff hids]
  refine ⟨?_, ?_⟩
  · intro hsound
    obtain ⟨hfresh, -, hfits⟩ := hsound
    refine ⟨hfresh, fun loop hloop => ?_, fun loopId hend => ?_⟩
    · -- No edge of the old workflow can be the body edge of a new loop.
      obtain ⟨edge, hedge, hsource, -⟩ :=
        hfits.has_body node.id (loopAt_addNode.2 (.inr ⟨rfl, loop, hloop⟩))
      exact hwired.source_ne_of_fresh hedge hfresh hsource
    · -- The loop that a new end refers to has an end already.
      have hlast : (workflow.addNode node).StepAt node.id (.endLoop ⟨loopId⟩) :=
        stepAt_addNode.2 (.inr ⟨rfl, hend⟩)
      have hhead := hfits.end_of_loop node.id loopId hlast
      rcases loopAt_addNode.1 hhead with hold | ⟨-, loop, hloop⟩
      · obtain ⟨id, hid, -⟩ := hfitted.ended_once loopId hold
        obtain rfl := (hfits.ended_once loopId hhead).unique
          (stepAt_addNode.2 (.inl hid)) hlast
        exact not_stepAt_of_fresh hfresh _ hid
      · rw [hend] at hloop
        cases hloop
  · intro hnode
    obtain ⟨hfresh, hordinary⟩ := hnode
    refine ⟨hfresh, hwired.addNode node, hfitted.of_same_loops ?_ ?_ ?_ ?_⟩
    · intro edge hedge
      obtain ⟨step, hstep, hport⟩ := hfitted.port_declared edge hedge
      exact ⟨step, stepAt_addNode.2 (.inl hstep), hport⟩
    · intro id loopId
      rw [stepAt_addNode]
      exact or_iff_left fun hnew => hordinary.not_end loopId hnew.2
    · intro id
      rw [loopAt_addNode]
      exact or_iff_left fun ⟨_, loop, hnew⟩ => hordinary.not_loop loop hnew
    · exact fun edge hedge hport => ⟨edge, hedge, rfl, hport⟩

/-! ## Adding and removing an edge -/

theorem stepAt_addEdge (edge : Edge) {id : Uuid} {step : Step} :
    (workflow.addEdge edge).2.StepAt id step ↔ workflow.StepAt id step := by
  rw [StepAt, StepAt, nodes_addEdge]

theorem loopAt_addEdge (edge : Edge) {id : Uuid} :
    (workflow.addEdge edge).2.LoopAt id ↔ workflow.LoopAt id :=
  exists_congr fun _ => stepAt_addEdge edge

theorem Sound.addEdge_iff (h : workflow.Sound) {edge : Edge}
    (hadmits : workflow.admits edge = true) :
    (workflow.addEdge edge).2.Sound ↔
      ∃ source, workflow.find? edge.source = some source ∧
        edge.port ∈ source.step.ports := by
  obtain ⟨hids, hwired, hfitted⟩ := sound_iff_fitted.1 h
  obtain ⟨source, hfind⟩ :=
    exists_find?_iff.2 (contains_iff.1 (admits_iff.1 hadmits).1)
  obtain ⟨hsource, hid⟩ := mem_of_find? hfind
  rw [sound_iff_fitted, nodes_addEdge]
  refine ⟨?_, ?_⟩
  · intro hsound
    obtain ⟨step, hstep, hport⟩ :=
      hsound.2.2.port_declared edge ((mem_edges_addEdge hadmits).2 (.inl rfl))
    rw [stepAt_addEdge, ← hid, stepAt_iff hids hsource] at hstep
    exact ⟨source, hfind, hstep ▸ hport⟩
  · intro hport
    obtain ⟨found, hfound, hport⟩ := hport
    obtain rfl : source = found := Option.some.inj (hfind.symm.trans hfound)
    refine ⟨hids, hwired.addEdge edge, hfitted.of_same_loops ?_ ?_ ?_ ?_⟩
    · intro other hother
      rcases (mem_edges_addEdge hadmits).1 hother with rfl | ⟨hother, -⟩
      · exact ⟨source.step,
          (stepAt_addEdge _).2 ⟨source, hsource, hid, rfl⟩, hport⟩
      · obtain ⟨step, hstep, hmem⟩ := hfitted.port_declared other hother
        exact ⟨step, (stepAt_addEdge _).2 hstep, hmem⟩
    · exact fun id loopId => stepAt_addEdge edge
    · exact fun id => loopAt_addEdge edge
    · -- A body edge that gives way does so to another at the same port.
      intro other hother hbody
      by_cases hsame : other.source = edge.source ∧ other.port = edge.port
      · exact ⟨edge, (mem_edges_addEdge hadmits).2 (.inl rfl), hsame.1.symm,
          hsame.2.symm.trans hbody⟩
      · exact ⟨other, (mem_edges_addEdge hadmits).2 (.inr ⟨hother, hsame⟩), rfl,
          hbody⟩

theorem Sound.removeEdge_iff (h : workflow.Sound) {edge : Edge} :
    (workflow.removeEdge edge).2.Sound ↔
      ¬ (edge ∈ workflow.edges ∧ edge.port = some .loopBody) := by
  obtain ⟨hids, hwired, hfitted⟩ := sound_iff_fitted.1 h
  rw [sound_iff_fitted]
  refine ⟨?_, ?_⟩
  · intro hsound hbody
    obtain ⟨hedge, hport⟩ := hbody
    obtain ⟨other, hother, hsource, hbody⟩ :=
      hsound.2.2.has_body edge.source (hfitted.loopAt_of_body hedge hport)
    obtain ⟨hother, hne⟩ := mem_edges_removeEdge.1 hother
    exact hne
      (hwired.eq_of_same_port hother hedge hsource (hbody.trans hport.symm))
  · intro hkept
    refine ⟨hids, hwired.removeEdge edge, hfitted.of_same_loops ?_ ?_ ?_ ?_⟩
    · exact fun other hother =>
        hfitted.port_declared other (mem_edges_removeEdge.1 hother).1
    · exact fun id loopId => Iff.rfl
    · exact fun id => Iff.rfl
    · intro other hother hbody
      refine ⟨other, mem_edges_removeEdge.2 ⟨hother, ?_⟩, rfl, hbody⟩
      rintro rfl
      exact hkept ⟨hother, hbody⟩

/-! ## Removing a node -/

section

variable (hids : (workflow.nodes.map (·.id)).Nodup)

include hids

theorem stepAt_removeNode {id : Uuid} (hid : workflow.contains id = true)
    {other : Uuid} {step : Step} :
    (workflow.removeNode id).2.StepAt other step ↔
      other ≠ id ∧ workflow.StepAt other step := by
  rw [StepAt, StepAt, removeNode_of_contains hid]
  refine ⟨?_, ?_⟩
  · rintro ⟨node, hnode, rfl, hstep⟩
    obtain ⟨hnode, hne⟩ := (mem_eraseP_id hids).1 hnode
    exact ⟨hne, node, hnode, rfl, hstep⟩
  · rintro ⟨hne, node, hnode, rfl, hstep⟩
    exact ⟨node, (mem_eraseP_id hids).2 ⟨hnode, hne⟩, rfl, hstep⟩

theorem loopAt_removeNode {id : Uuid} (hid : workflow.contains id = true)
    {other : Uuid} :
    (workflow.removeNode id).2.LoopAt other ↔
      other ≠ id ∧ workflow.LoopAt other := by
  simp only [LoopAt, stepAt_removeNode hids hid, exists_and_left]

end

/-- A node that is gone takes along the end of its loop, its loop, or the body
of a loop. -/
theorem Sound.removeNode_iff (h : workflow.Sound) {node : Node}
    (hnode : node ∈ workflow.nodes) :
    (workflow.removeNode node.id).2.Sound ↔
      node.Ordinary ∧
        ∀ edge ∈ workflow.edges,
          edge.port = some .loopBody → edge.target ≠ node.id := by
  obtain ⟨hids, hwired, hfitted⟩ := sound_iff_fitted.1 h
  have hid : workflow.contains node.id = true :=
    contains_iff.2 ⟨node, hnode, rfl⟩
  have hat : ∀ {step}, node.step = step → workflow.StepAt node.id step :=
    fun hstep => ⟨node, hnode, rfl, hstep⟩
  rw [sound_iff_fitted]
  refine ⟨?_, ?_⟩
  · intro hsound
    obtain ⟨-, -, hfits⟩ := hsound
    have hloop : ∀ loop, node.step ≠ .loop loop := by
      intro loop hloop
      obtain ⟨last, hlast, -⟩ := hfitted.ended_once node.id ⟨loop, hat hloop⟩
      have hne : last ≠ node.id := by
        rintro rfl
        cases StepAt.unique hids (hat hloop) hlast
      have hhead := hfits.end_of_loop last node.id
        ((stepAt_removeNode hids hid).2 ⟨hne, hlast⟩)
      exact ((loopAt_removeNode hids hid).1 hhead).1 rfl
    have hend : ∀ loopId, node.step ≠ .endLoop ⟨loopId⟩ := by
      intro loopId hend
      have hhead := hfitted.end_of_loop node.id loopId (hat hend)
      have hne : loopId ≠ node.id := by
        rintro rfl
        obtain ⟨loop, hstep⟩ := hhead
        cases StepAt.unique hids (hat hend) hstep
      obtain ⟨last, hlast, -⟩ :=
        hfits.ended_once loopId ((loopAt_removeNode hids hid).2 ⟨hne, hhead⟩)
      obtain ⟨hother, hlast⟩ := (stepAt_removeNode hids hid).1 hlast
      exact hother ((hfitted.ended_once loopId hhead).unique hlast (hat hend))
    refine ⟨⟨hloop, hend⟩, fun edge hedge hport htarget => ?_⟩
    have hhead := hfitted.loopAt_of_body hedge hport
    have hne : edge.source ≠ node.id := by
      intro hsource
      obtain ⟨loop, hstep⟩ := hhead
      rw [hsource, stepAt_iff hids hnode] at hstep
      exact hloop loop hstep
    obtain ⟨body, hbody, hsource, hbodyPort⟩ :=
      hfits.has_body edge.source ((loopAt_removeNode hids hid).2 ⟨hne, hhead⟩)
    obtain ⟨hbody, -, hother⟩ := (mem_edges_removeNode hid).1 hbody
    rw [hwired.eq_of_same_port hbody hedge hsource (hbodyPort.trans hport.symm)]
      at hother
    exact hother htarget
  · intro hspare
    obtain ⟨hordinary, htargets⟩ := hspare
    refine ⟨?_, hwired.removeNode node.id, hfitted.of_same_loops ?_ ?_ ?_ ?_⟩
    · rw [removeNode_of_contains hid]
      exact hids.sublist ((List.eraseP_sublist).map _)
    · intro edge hedge
      obtain ⟨hedge, hsource, -⟩ := (mem_edges_removeNode hid).1 hedge
      obtain ⟨step, hstep, hport⟩ := hfitted.port_declared edge hedge
      exact ⟨step, (stepAt_removeNode hids hid).2 ⟨hsource, hstep⟩, hport⟩
    · intro id loopId
      rw [stepAt_removeNode hids hid]
      refine and_iff_right_of_imp fun hend => ?_
      rintro rfl
      exact hordinary.not_end loopId ((stepAt_iff hids hnode).1 hend)
    · intro id
      rw [loopAt_removeNode hids hid]
      refine and_iff_right_of_imp fun hloop => ?_
      rintro rfl
      obtain ⟨loop, hstep⟩ := (loopAt_iff hids hnode).1 hloop
      exact hordinary.not_loop loop hstep
    · intro edge hedge hport
      have hsource : edge.source ≠ node.id := by
        intro hsource
        obtain ⟨loop, hstep⟩ := hfitted.loopAt_of_body hedge hport
        rw [hsource, stepAt_iff hids hnode] at hstep
        exact hordinary.not_loop loop hstep
      exact ⟨edge, (mem_edges_removeNode hid).2 ⟨hedge, hsource,
        htargets edge hedge hport⟩, rfl, hport⟩

/-! ## Replacing a node -/

theorem mem_modifyFirst_id {nodes : List Node} (hids : (nodes.map (·.id)).Nodup)
    {id : Uuid} {change : Node → Node} {node : Node} :
    node ∈ modifyFirst id change nodes ↔
      (∃ old ∈ nodes, old.id = id ∧ node = change old) ∨ node ∈ nodes ∧
        node.id ≠ id := by
  induction nodes with
  | nil => simp [modifyFirst]
  | cons first rest ih =>
      obtain ⟨hfirst, hrest⟩ := List.nodup_cons.1 hids
      rw [modifyFirst, List.exists_mem_cons_iff]
      by_cases hid : first.id = id
      · have hothers : ∀ other ∈ rest, other.id ≠ id := fun other hother heq =>
          hfirst (List.mem_map.2 ⟨other, hother, heq.trans hid.symm⟩)
        rw [if_pos (by simpa using hid), List.mem_cons, List.mem_cons]
        refine ⟨?_, ?_⟩
        · rintro (rfl | hmem)
          · exact .inl (.inl ⟨hid, rfl⟩)
          · exact .inr ⟨.inr hmem, hothers node hmem⟩
        · rintro ((⟨-, rfl⟩ | ⟨old, hold, heq, -⟩) | ⟨rfl | hmem, hne⟩)
          · exact .inl rfl
          · exact absurd heq (hothers old hold)
          · exact absurd hid hne
          · exact .inr hmem
      · rw [if_neg (by simpa using hid), List.mem_cons, List.mem_cons, ih hrest]
        refine ⟨?_, ?_⟩
        · rintro (rfl | hold | ⟨hmem, hne⟩)
          · exact .inr ⟨.inl rfl, hid⟩
          · exact .inl (.inr hold)
          · exact .inr ⟨.inr hmem, hne⟩
        · rintro ((⟨heq, -⟩ | hold) | ⟨rfl | hmem, hne⟩)
          · exact absurd heq hid
          · exact .inr (.inl hold)
          · exact .inl rfl
          · exact .inr (.inr ⟨hmem, hne⟩)

section

variable (hids : (workflow.nodes.map (·.id)).Nodup) {old node : Node}
  (hold : old ∈ workflow.nodes)
  (hid : old.id = node.id)

include hids hold hid

theorem stepAt_replaced {step : Step} :
    workflow.StepAt node.id step ↔ old.step = step := by
  rw [← hid]
  exact stepAt_iff hids hold

theorem stepAt_updateNode {id : Uuid} {step : Step} :
    (workflow.updateNode node).2.StepAt id step ↔
      id = node.id ∧ node.step = step ∨ id ≠ node.id ∧
        workflow.StepAt id step := by
  rw [StepAt, StepAt]
  refine ⟨?_, ?_⟩
  · rintro ⟨found, hfound, rfl, rfl⟩
    rcases (mem_modifyFirst_id hids).1 hfound
      with ⟨_, _, _, rfl⟩ | ⟨hfound, hne⟩
    · exact .inl ⟨rfl, rfl⟩
    · exact .inr ⟨hne, found, hfound, rfl, rfl⟩
  · rintro (⟨rfl, rfl⟩ | ⟨hne, found, hfound, rfl, rfl⟩)
    · exact ⟨node, (mem_modifyFirst_id hids).2 (.inl ⟨old, hold, hid, rfl⟩),
        rfl, rfl⟩
    · exact ⟨found, (mem_modifyFirst_id hids).2 (.inr ⟨hfound, hne⟩), rfl, rfl⟩

theorem loopAt_updateNode {id : Uuid} :
    (workflow.updateNode node).2.LoopAt id ↔
      id = node.id ∧ (∃ loop, node.step = .loop loop) ∨ id ≠ node.id ∧
        workflow.LoopAt id := by
  simp only [LoopAt, stepAt_updateNode hids hold hid, exists_or,
    exists_and_left]

end

/-- What a record may be replaced by: a loop by a loop, an end by an end of the
same loop, and any other step by one with the ports that are in use. -/
inductive Replaces (workflow : Workflow) (old node : Node) : Prop
  | loop (before : ∃ loop, old.step = .loop loop) (after : ∃ loop,
      node.step = .loop loop)
  | last (loopId : Uuid) (before : old.step = .endLoop ⟨loopId⟩)
      (after : node.step = .endLoop ⟨loopId⟩)
  | ordinary (before : old.Ordinary) (after : node.Ordinary)
      (ports : ∀ edge ∈ workflow.outgoing node.id, edge.port ∈ node.step.ports)

theorem mem_outgoing {id : Uuid} {edge : Edge} :
    edge ∈ workflow.outgoing id ↔ edge ∈ workflow.edges ∧ edge.source = id := by
  rw [outgoing, List.mem_filter, beq_iff_eq]

section

variable (hids : (workflow.nodes.map (·.id)).Nodup) (hfitted : workflow.Fitted)
  {old node : Node}
  (hold : old ∈ workflow.nodes) (hid : old.id = node.id)

include hids hfitted hold hid

/-- A loop that ceases to be one is missed by its end, an end by its loop, and a
new loop or end has nothing to pair with that is not paired already. -/
theorem replaces_of_fitted (hfits : (workflow.updateNode node).2.Fitted) :
    workflow.Replaces old node := by
  have hat : ∀ {id step}, (workflow.updateNode node).2.StepAt id step ↔
      id = node.id ∧ node.step = step ∨ id ≠ node.id ∧
        workflow.StepAt id step :=
    stepAt_updateNode hids hold hid
  have hloopAt : ∀ {id}, (workflow.updateNode node).2.LoopAt id ↔
      id = node.id ∧ (∃ loop, node.step = .loop loop) ∨ id ≠ node.id ∧
        workflow.LoopAt id :=
    loopAt_updateNode hids hold hid
  have hbefore : ∀ {step}, workflow.StepAt node.id step ↔ old.step = step :=
    stepAt_replaced hids hold hid
  rcases old.loop_or_end_or_ordinary
    with ⟨loop, hloop⟩ | ⟨loopId, hend⟩ | hordinary
  · obtain ⟨last, hlast, -⟩ :=
      hfitted.ended_once node.id ⟨loop, hbefore.2 hloop⟩
    have hne : last ≠ node.id := by
      rintro rfl
      cases hloop.symm.trans (hbefore.1 hlast)
    rcases hloopAt.1
      (hfits.end_of_loop last node.id (hat.2 (.inr ⟨hne, hlast⟩))) with h | h
    · exact .loop ⟨loop, hloop⟩ h.2
    · exact absurd rfl h.1
  · have hhead := hfitted.end_of_loop node.id loopId (hbefore.2 hend)
    have hne : loopId ≠ node.id := by
      rintro rfl
      obtain ⟨loop, hstep⟩ := hhead
      cases hend.symm.trans (hbefore.1 hstep)
    obtain ⟨last, hlast, -⟩ :=
      hfits.ended_once loopId (hloopAt.2 (.inr ⟨hne, hhead⟩))
    rcases hat.1 hlast with ⟨-, hstep⟩ | ⟨hother, hlast⟩
    · exact .last loopId hend hstep
    · exact absurd ((hfitted.ended_once loopId hhead).unique hlast
        (hbefore.2 hend)) hother
  · refine .ordinary hordinary ⟨fun loop hloop => ?_, fun loopId hend => ?_⟩ ?_
    · obtain ⟨last, hlast, -⟩ :=
        hfits.ended_once node.id (hloopAt.2 (.inl ⟨rfl, loop, hloop⟩))
      rcases hat.1 hlast with ⟨-, hstep⟩ | ⟨-, hlast⟩
      · cases hloop.symm.trans hstep
      · obtain ⟨before, hstep⟩ := hfitted.end_of_loop last node.id hlast
        exact hordinary.not_loop before (hbefore.1 hstep)
    · have hlast := hat.2 (.inl ⟨rfl, hend⟩)
      have hhead := hfits.end_of_loop node.id loopId hlast
      rcases hloopAt.1 hhead with ⟨-, loop, hloop⟩ | ⟨-, hbeforeHead⟩
      · cases hend.symm.trans hloop
      · obtain ⟨first, hfirst, -⟩ := hfitted.ended_once loopId hbeforeHead
        have hne : first ≠ node.id := by
          rintro rfl
          exact hordinary.not_end loopId (hbefore.1 hfirst)
        exact hne ((hfits.ended_once loopId hhead).unique
          (hat.2 (.inr ⟨hne, hfirst⟩)) hlast)
    · intro edge hedge
      obtain ⟨hedge, hsource⟩ := mem_outgoing.1 hedge
      obtain ⟨step, hstep, hport⟩ := hfits.port_declared edge hedge
      rcases hat.1 hstep with ⟨-, rfl⟩ | ⟨hne, -⟩
      · exact hport
      · exact absurd hsource hne

theorem Replaces.fitted (h : workflow.Replaces old node) :
    (workflow.updateNode node).2.Fitted := by
  have hat : ∀ {id step}, (workflow.updateNode node).2.StepAt id step ↔
      id = node.id ∧ node.step = step ∨ id ≠ node.id ∧
        workflow.StepAt id step :=
    stepAt_updateNode hids hold hid
  have hbefore : ∀ {step}, workflow.StepAt node.id step ↔ old.step = step :=
    stepAt_replaced hids hold hid
  have hports : ∀ edge ∈ workflow.edges,
      edge.source = node.id → edge.port ∈ node.step.ports := by
    intro edge hedge hsource
    obtain ⟨step, hstep, hport⟩ := hfitted.port_declared edge hedge
    rw [hsource, hbefore] at hstep
    subst hstep
    cases h with
    | loop before after =>
        obtain ⟨_, before⟩ := before
        obtain ⟨_, after⟩ := after
        rw [before] at hport
        rwa [after]
    | last loopId before after =>
        rw [before] at hport
        rwa [after]
    | ordinary before after ports =>
        exact ports edge (mem_outgoing.2 ⟨hedge, hsource⟩)
  have hsameEnd : ∀ loopId,
      node.step = .endLoop ⟨loopId⟩ ↔ old.step = .endLoop ⟨loopId⟩ := by
    intro loopId
    cases h with
    | loop before after =>
        obtain ⟨_, before⟩ := before
        obtain ⟨_, after⟩ := after
        simp [before, after]
    | last _ before after => rw [before, after]
    | ordinary before after _ =>
        exact iff_of_false (after.not_end loopId) (before.not_end loopId)
  have hsameLoop : (∃ loop, node.step = .loop loop) ↔
      ∃ loop, old.step = .loop loop := by
    cases h with
    | loop before after => exact iff_of_true after before
    | last loopId before after => simp [before, after]
    | ordinary before after _ =>
        exact iff_of_false (fun ⟨params, h⟩ => after.not_loop params h)
          fun ⟨params, h⟩ => before.not_loop params h
  apply hfitted.of_same_loops
  · intro edge hedge
    by_cases hsource : edge.source = node.id
    · exact ⟨node.step, hat.2 (.inl ⟨hsource, rfl⟩), hports edge hedge hsource⟩
    · obtain ⟨step, hstep, hport⟩ := hfitted.port_declared edge hedge
      exact ⟨step, hat.2 (.inr ⟨hsource, hstep⟩), hport⟩
  · intro id loopId
    rw [hat]
    by_cases heq : id = node.id
    · subst heq
      simp only [true_and, ne_eq, not_true_eq_false, false_and, or_false]
      rw [hbefore, hsameEnd]
    · simp [heq]
  · intro id
    rw [loopAt_updateNode hids hold hid]
    by_cases heq : id = node.id
    · subst heq
      simp only [true_and, ne_eq, not_true_eq_false, false_and,
        or_false, LoopAt]
      simp only [hbefore, hsameLoop]
    · simp [heq]
  · exact fun edge hedge hport => ⟨edge, hedge, rfl, hport⟩

end

theorem Sound.updateNode_iff (h : workflow.Sound) {old node : Node}
    (hfind : workflow.find? node.id = some old) :
    (workflow.updateNode node).2.Sound ↔ workflow.Replaces old node := by
  obtain ⟨hids, hwired, hfitted⟩ := sound_iff_fitted.1 h
  obtain ⟨hold, hid⟩ := mem_of_find? hfind
  rw [sound_iff_fitted, ids_updateNode]
  refine ⟨?_, ?_⟩
  · exact fun hsound => replaces_of_fitted hids hfitted hold hid hsound.2.2
  · exact fun hreplaces =>
      ⟨hids, hwired.updateNode node, hreplaces.fitted hids hfitted hold hid⟩

/-! ## Adding a loop -/

section

variable {name : String} {loop : Loop} {loopId endId : Uuid}

theorem stepAt_addLoop {id : Uuid} {step : Step} :
    (workflow.addLoop name loop loopId endId).StepAt id step ↔
      workflow.StepAt id step ∨ loopId = id ∧ .loop loop = step ∨
        endId = id ∧ .endLoop ⟨loopId⟩ = step := by
  rw [addLoop, stepAt_addEdge, stepAt_addNode, stepAt_addNode, or_assoc]

theorem loopAt_addLoop {id : Uuid} :
    (workflow.addLoop name loop loopId endId).LoopAt id ↔
      workflow.LoopAt id ∨ loopId = id := by
  simp [LoopAt, stepAt_addLoop, exists_or]

theorem mem_edges_addLoop (hwired : workflow.Wired)
    (hfresh : workflow.contains endId = false) {edge : Edge} :
    edge ∈ (workflow.addLoop name loop loopId endId).edges ↔
      edge ∈ workflow.edges ∨ edge = ⟨endId, loopId, none⟩ := by
  have hadmits :
      ((workflow.addNode { id := loopId, name, step := .loop loop }).addNode
        { id := endId, name := "End " ++ name
          step := .endLoop { loopId } }).admits
            { source := endId, target := loopId } = true := by
    simp only [admits_iff, contains_addNode, or_true, true_or, and_self]
  rw [addLoop, mem_edges_addEdge hadmits, or_comm]
  refine or_congr_left (and_iff_left_of_imp fun hedge hsame => ?_)
  exact hwired.source_ne_of_fresh hedge hfresh hsame.1

theorem nodup_ids_addLoop (hids : (workflow.nodes.map (·.id)).Nodup)
    (hloop : workflow.contains loopId = false)
    (hend : workflow.contains endId = false) (hne : loopId ≠ endId) :
    ((workflow.addLoop name loop loopId endId).nodes.map (·.id)).Nodup := by
  rw [addLoop, nodes_addEdge, nodup_ids_addNode_iff]
  · rw [← Bool.not_eq_true, contains_addNode, not_or, Bool.not_eq_true]
    exact ⟨hend, hne⟩
  · exact (nodup_ids_addNode_iff hids).2 hloop

/-- The new loop has no body edge, as every edge but the one back to it is an
old one. -/
theorem not_sound_addLoop (hwired : workflow.Wired)
    (hloop : workflow.contains loopId = false)
    (hend : workflow.contains endId = false) :
    ¬ (workflow.addLoop name loop loopId endId).Sound := by
  intro hsound
  obtain ⟨edge, hedge, hsource, hport⟩ :=
    (sound_iff_fitted.1 hsound).2.2.has_body loopId
      (loopAt_addLoop.2 (.inr rfl))
  rcases (mem_edges_addLoop hwired hend).1 hedge with hedge | rfl
  · exact hwired.source_ne_of_fresh hedge hloop hsource
  · cases hport

theorem Sound.addLoop_addEdge (h : workflow.Sound)
    (hloop : workflow.contains loopId = false)
    (hend : workflow.contains endId = false) (hne : loopId ≠ endId)
    {target : Uuid}
    (htarget :
      (workflow.addLoop name loop loopId endId).contains target = true) :
    ((workflow.addLoop name loop loopId endId).addEdge
      ⟨loopId, target, some .loopBody⟩).2.Sound := by
  obtain ⟨hids, hwired, hfitted⟩ := sound_iff_fitted.1 h
  have hhead :
      (workflow.addLoop name loop loopId endId).StepAt loopId (.loop loop) :=
    stepAt_addLoop.2 (.inr (.inl ⟨rfl, rfl⟩))
  have hadmits : (workflow.addLoop name loop loopId endId).admits
      ⟨loopId, target, some .loopBody⟩ = true :=
    admits_iff.2 ⟨hhead.contains, htarget⟩
  have hmem : ∀ {edge}, edge ∈ workflow.edges →
      edge ∈ ((workflow.addLoop name loop loopId endId).addEdge
        ⟨loopId, target, some .loopBody⟩).2.edges := by
    intro edge hedge
    refine (mem_edges_addEdge hadmits).2
      (.inr ⟨(mem_edges_addLoop hwired hend).2 (.inl hedge), fun hsame => ?_⟩)
    exact hwired.source_ne_of_fresh hedge hloop hsame.1
  rw [sound_iff_fitted, nodes_addEdge]
  refine ⟨nodup_ids_addLoop hids hloop hend hne, (hwired.addLoop ..).addEdge _,
    ?_, ?_, ?_, ?_⟩
  · intro edge hedge
    simp only [stepAt_addEdge]
    rcases (mem_edges_addEdge hadmits).1 hedge with rfl | ⟨hedge, -⟩
    · exact ⟨.loop loop, hhead, List.mem_cons_self ..⟩
    · rcases (mem_edges_addLoop hwired hend).1 hedge with hedge | rfl
      · obtain ⟨step, hstep, hport⟩ := hfitted.port_declared edge hedge
        exact ⟨step, stepAt_addLoop.2 (.inl hstep), hport⟩
      · exact ⟨_, stepAt_addLoop.2 (.inr (.inr ⟨rfl, rfl⟩)),
          List.mem_cons_self ..⟩
  · intro id other hlast
    rw [stepAt_addEdge] at hlast
    rw [loopAt_addEdge, loopAt_addLoop]
    rcases stepAt_addLoop.1 hlast with hlast | ⟨-, hstep⟩ | ⟨-, hstep⟩
    · exact .inl (hfitted.end_of_loop id other hlast)
    · cases hstep
    · cases hstep
      exact .inr rfl
  · intro other hother
    simp only [stepAt_addEdge, stepAt_addLoop]
    rcases loopAt_addLoop.1 ((loopAt_addEdge _).1 hother) with hother | rfl
    · obtain ⟨last, hlast, honly⟩ := hfitted.ended_once other hother
      refine ⟨last, .inl hlast, fun id hid => ?_⟩
      rcases hid with hid | ⟨-, hstep⟩ | ⟨-, hstep⟩
      · exact honly id hid
      · cases hstep
      · cases hstep
        exact absurd hother (not_loopAt_of_fresh hloop)
    · refine ⟨endId, .inr (.inr ⟨rfl, rfl⟩), fun id hid => ?_⟩
      rcases hid with hid | ⟨-, hstep⟩ | ⟨hid, -⟩
      · exact absurd (hfitted.end_of_loop id loopId hid)
          (not_loopAt_of_fresh hloop)
      · cases hstep
      · exact hid.symm
  · intro other hother
    rcases loopAt_addLoop.1 ((loopAt_addEdge _).1 hother) with hother | rfl
    · obtain ⟨edge, hedge, hbody⟩ := hfitted.has_body other hother
      exact ⟨edge, hmem hedge, hbody⟩
    · exact ⟨_, (mem_edges_addEdge hadmits).2 (.inl rfl), rfl, rfl⟩

end

/-! ## All edits -/

/-- Of the edits of a workflow that the check accepts, exactly these are
accepted again. -/
theorem check_edit_iff (h : workflow.check = []) :
    (∀ node, (workflow.addNode node).check = [] ↔
      workflow.contains node.id = false ∧ node.Ordinary) ∧
    (∀ edge, workflow.admits edge = true →
      ((workflow.addEdge edge).2.check = [] ↔
        ∃ source, workflow.find? edge.source = some source ∧
          edge.port ∈ source.step.ports)) ∧
    (∀ edge, workflow.admits edge = false →
      workflow.addEdge edge = (false, workflow)) ∧
    (∀ edge, (workflow.removeEdge edge).2.check = [] ↔
      ¬ (edge ∈ workflow.edges ∧ edge.port = some .loopBody)) ∧
    (∀ node ∈ workflow.nodes, (workflow.removeNode node.id).2.check = [] ↔
      node.Ordinary ∧
        ∀ edge ∈ workflow.edges,
          edge.port = some .loopBody → edge.target ≠ node.id) ∧
    (∀ node old, workflow.find? node.id = some old →
      ((workflow.updateNode node).2.check = [] ↔ workflow.Replaces old node)) ∧
    (∀ name loop loopId endId,
      workflow.contains loopId = false → workflow.contains endId = false →
      loopId ≠ endId →
        (workflow.addLoop name loop loopId endId).check ≠ [] ∧
        ∀ target,
          (workflow.addLoop name loop loopId endId).contains target = true →
          ((workflow.addLoop name loop loopId endId).addEdge
            ⟨loopId, target, some .loopBody⟩).2.check = []) := by
  simp only [check_eq_nil_iff_sound] at h ⊢
  refine ⟨?_, ?_, ?_, ?_, ?_, ?_, ?_⟩
  · exact fun node => h.addNode_iff
  · exact fun edge hadmits => h.addEdge_iff hadmits
  · exact fun edge hadmits => addEdge_of_not_admits hadmits
  · exact fun edge => h.removeEdge_iff
  · exact fun node hnode => h.removeNode_iff hnode
  · exact fun node old hfind => h.updateNode_iff hfind
  · intro name loop loopId endId hloop hend hne
    refine ⟨?_, fun target htarget => h.addLoop_addEdge hloop hend hne htarget⟩
    rw [ne_eq, check_eq_nil_iff_sound]
    exact not_sound_addLoop h.wired hloop hend

/-- A loop around a single action. -/
def tightLoop : Workflow where
  id := .ofNat 0
  name := "tight loop"
  nodes :=
    [{ id := .ofNat 1, name := "again"
       step := .loop { exitCondition := ⟨"x", .isEmpty, .null⟩ } },
      { id := .ofNat 2, name := "act", step := .typeText {} },
      { id := .ofNat 3, name := "End again", step := .endLoop ⟨.ofNat 1⟩ }]
  edges :=
    [⟨.ofNat 3, .ofNat 1, none⟩, ⟨.ofNat 1, .ofNat 2, some .loopBody⟩,
      ⟨.ofNat 2, .ofNat 3, none⟩]

/-- The action is the body of the loop and cannot go, but another step can take
its place. -/
theorem tightLoop_check_edit :
    tightLoop.check = [] ∧ (tightLoop.removeNode (.ofNat 2)).2.check ≠ [] ∧
      (tightLoop.updateNode
        { id := .ofNat 2, name := "press", step := .pressKey {} }).2.check =
        [] := by
  have h : tightLoop.check = [] := rfl
  obtain ⟨-, -, -, -, hremove, hupdate, -⟩ := check_edit_iff h
  have hbody : (⟨.ofNat 1, .ofNat 2, some .loopBody⟩ : Edge) ∈
      tightLoop.edges := by
    simp [tightLoop]
  refine ⟨h, fun hgone => ?_, ?_⟩
  · have hnode :
        ({ id := .ofNat 2, name := "act", step := .typeText {} } : Node) ∈
          tightLoop.nodes := by
      simp [tightLoop]
    exact ((hremove _ hnode).1 hgone).2 _ hbody rfl rfl
  · refine
      (hupdate _ { id := .ofNat 2, name := "act", step := .typeText {} } rfl).2
        (.ordinary ⟨nofun, nofun⟩ ⟨nofun, nofun⟩ fun edge hedge => ?_)
    have hedge : edge ∈ [(⟨.ofNat 2, .ofNat 3, none⟩ : Edge)] := hedge
    rw [List.mem_singleton.1 hedge]
    exact List.mem_cons_self ..

end Workflow

end Workbench
