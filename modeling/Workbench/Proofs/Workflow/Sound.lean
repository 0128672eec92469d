import Mathlib.Data.Set.Function
import Workbench.Proofs.Occurrences
import Workbench.Proofs.Workflow.Lookup
import Workbench.Workflow.Violation

/-!
# The check finds a violation unless the workflow is sound

`Sound` says what a workflow is to be without saying how that is found out: no
order of nodes or edges, no counting, no first hits. The check is told apart
into its four lists, and each is empty under a condition of its own. These
conditions depend on each other. The counts of ports, for one, leave out edges
that hang in the air and repeated edges, so an empty list of crowded ports says
nothing about ports until the list of edge violations is known to be empty too;
and a first hit is the only hit only where identifiers are distinct. Put
together in the right order they are the fields of `Sound`.
-/

namespace Workbench.Workflow

variable {workflow : Workflow}

/-- What the data model asks of a workflow. -/
structure Sound (workflow : Workflow) : Prop where
  ids_nodup : (workflow.nodes.map (·.id)).Nodup
  source_exists : ∀ edge ∈ workflow.edges, ∃ node ∈ workflow.nodes,
    node.id = edge.source
  target_exists : ∀ edge ∈ workflow.edges, ∃ node ∈ workflow.nodes,
    node.id = edge.target
  port_declared : ∀ edge ∈ workflow.edges, ∀ node ∈ workflow.nodes,
    node.id = edge.source → edge.port ∈ node.step.ports
  port_single :
    workflow.edges.Pairwise fun a b => ¬ (a.source = b.source ∧ a.port = b.port)
  end_of_loop : ∀ node ∈ workflow.nodes, ∀ loopId,
    node.step = .endLoop ⟨loopId⟩ →
    ∃ head ∈ workflow.nodes, head.id = loopId ∧ ∃ loop, head.step = .loop loop
  ended_once : ∀ node ∈ workflow.nodes, (∃ loop, node.step = .loop loop) →
    ∃! last, last ∈ workflow.nodes ∧ last.step = .endLoop ⟨node.id⟩
  has_body : ∀ node ∈ workflow.nodes, (∃ loop, node.step = .loop loop) →
    ∃ edge ∈ workflow.edges, edge.source = node.id ∧ edge.port = some .loopBody

/-! ## Nodes one by one -/

theorem reusedIds_eq_nil_iff {seen : List Uuid} {nodes : List Node} :
    reusedIds seen nodes = [] ↔
      (nodes.map (·.id)).Nodup ∧ ∀ node ∈ nodes, node.id ∉ seen := by
  induction nodes generalizing seen with
  | nil => simp [reusedIds]
  | cons node rest ih =>
      rw [reusedIds, List.map_cons, List.nodup_cons, List.forall_mem_cons]
      split
      · next hseen =>
          have hseen : node.id ∈ seen := by simpa using hseen
          simp [hseen]
      · next hseen =>
          have hseen : node.id ∉ seen := by simpa using hseen
          rw [ih]
          refine ⟨?_, ?_⟩
          · intro h
            obtain ⟨hnodup, hrest⟩ := h
            refine ⟨⟨?_, hnodup⟩, hseen, ?_⟩
            · intro hmem
              obtain ⟨other, hother, heq⟩ := List.mem_map.1 hmem
              exact hrest other hother (heq ▸ List.mem_cons_self ..)
            · exact fun other hother hs =>
                hrest other hother (List.mem_cons_of_mem _ hs)
          · intro h
            obtain ⟨⟨hnot, hnodup⟩, -, hrest⟩ := h
            refine ⟨hnodup, fun other hother hmem => ?_⟩
            rcases List.mem_cons.1 hmem with heq | hs
            · exact hnot (List.mem_map.2 ⟨other, hother, heq⟩)
            · exact hrest other hother hs

theorem exists_of_mem_reusedIds {seen : List Uuid} {nodes : List Node}
    {violation : Violation} (h : violation ∈ reusedIds seen nodes) :
    ∃ node ∈ nodes, violation = .reusedId node := by
  induction nodes generalizing seen with
  | nil => cases h
  | cons node rest ih =>
      rw [List.exists_mem_cons_iff]
      rw [reusedIds] at h
      split at h
      · exact (List.mem_cons.1 h).imp (fun h => h) ih
      · exact .inr (ih h)

theorem cases_of_mem_pairingViolations {node : Node} {violation : Violation}
    (h : violation ∈ workflow.pairingViolations node) :
    (∃ loopId, violation = .endWithoutLoop node loopId) ∨
      (∃ target, violation = .endOfOther node target) ∨
      (∃ ends, violation = .unpairedLoop node ends) ∨
      violation = .loopWithoutBody node := by
  unfold pairingViolations at h
  split at h
  · split at h
    · exact .inl ⟨_, List.mem_singleton.1 h⟩
    · split at h
      · cases h
      · exact .inr (.inl ⟨_, List.mem_singleton.1 h⟩)
  · rcases List.mem_append.1 h with hends | hbody
    · split at hends
      · cases hends
      · exact .inr (.inr (.inl ⟨_, List.mem_singleton.1 hends⟩))
    · split at hbody
      · cases hbody
      · exact .inr (.inr (.inr (List.mem_singleton.1 hbody)))
  · cases h

theorem pairingViolations_eq_nil_iff {node : Node} :
    workflow.pairingViolations node = [] ↔
      (∀ loopId, node.step = .endLoop ⟨loopId⟩ →
        ∃ head, workflow.find? loopId = some head ∧ head.isLoop = true) ∧
      ((∃ loop, node.step = .loop loop) →
        (workflow.endsOf node.id).length = 1 ∧
          (workflow.edgeFrom? node.id (some .loopBody)).isSome = true) := by
  unfold pairingViolations
  split
  · next params hstep =>
      cases params with
      | mk loopId =>
          split
          · next hfind => simp [hstep, hfind]
          · next head hfind => simp [hstep, hfind]
  · next loop hstep => simp [hstep, Option.isSome_iff_ne_none]
  · next hend hloop =>
      have hend : ∀ loopId, node.step ≠ .endLoop ⟨loopId⟩ := fun _ => hend _
      have hloop : ∀ loop, node.step ≠ .loop loop := hloop
      simp [hend, hloop]

/-! ## Edges one by one -/

/-- An edge between existing nodes from a port that the first node of its source
has. -/
def InOrder (workflow : Workflow) (edge : Edge) : Prop :=
  ∃ source, workflow.find? edge.source = some source ∧
    workflow.contains edge.target = true ∧ edge.port ∈ source.step.ports

theorem edgeViolation?_eq_none_iff {before : List Edge} {edge : Edge} :
    workflow.edgeViolation? before edge = none ↔
      workflow.InOrder edge ∧ edge ∉ before := by
  unfold edgeViolation? InOrder
  cases hfind : workflow.find? edge.source with
  | none => simp
  | some source =>
      by_cases htarget : workflow.contains edge.target = true
      · by_cases hbefore : edge ∈ before
        · simp [htarget, hbefore]
        · by_cases hport : edge.port ∈ source.step.ports
          · simp [htarget, hbefore, hport]
          · simp [htarget, hbefore, hport]
      · simp [htarget]

theorem edgeViolations_eq_nil_iff {before edges : List Edge} :
    workflow.edgeViolations before edges = [] ↔
      edges.Nodup ∧ ∀ edge ∈ edges, workflow.InOrder edge ∧ edge ∉ before := by
  induction edges generalizing before with
  | nil => simp [edgeViolations]
  | cons edge rest ih =>
      rw [edgeViolations, List.append_eq_nil_iff, Option.toList_eq_nil_iff,
        edgeViolation?_eq_none_iff, ih, List.nodup_cons, List.forall_mem_cons]
      refine ⟨?_, ?_⟩
      · intro h
        obtain ⟨hedge, hnodup, hrest⟩ := h
        refine ⟨⟨fun hmem => ?_, hnodup⟩, hedge, fun other hother => ?_⟩
        · exact (hrest edge hmem).2 (List.mem_cons_self ..)
        · exact ⟨(hrest other hother).1,
            fun hb => (hrest other hother).2 (List.mem_cons_of_mem _ hb)⟩
      · intro h
        obtain ⟨⟨hnot, hnodup⟩, hedge, hrest⟩ := h
        refine ⟨hedge, hnodup,
          fun other hother => ⟨(hrest other hother).1, fun hb => ?_⟩⟩
        rcases List.mem_cons.1 hb with rfl | hb
        · exact hnot hother
        · exact (hrest other hother).2 hb

/-! ## Ports -/

theorem soundEdges_eq_edges (hnodup : workflow.edges.Nodup)
    (hends : ∀ edge ∈ workflow.edges, workflow.contains edge.source = true ∧
      workflow.contains edge.target = true) :
    workflow.soundEdges = workflow.edges := by
  have hkeep : (workflow.edges.filter
      fun e => workflow.contains e.source && workflow.contains e.target) =
        workflow.edges := by
    rw [List.filter_eq_self]
    intro edge hedge
    rw [Bool.and_eq_true]
    exact hends edge hedge
  rw [soundEdges, hkeep, eraseDups_eq_self hnodup]

/-- No two edges share a port if and only if no port of any node counts more
than one. -/
theorem pairwise_port_iff {edges : List Edge} :
    (edges.Pairwise fun a b => ¬ (a.source = b.source ∧ a.port = b.port)) ↔
      ∀ id port, edges.countP (·.leaves id port) ≤ 1 := by
  induction edges with
  | nil => simp
  | cons edge rest ih =>
      rw [List.pairwise_cons, ih]
      refine ⟨?_, ?_⟩
      · intro h id port
        obtain ⟨hedge, hrest⟩ := h
        rw [List.countP_cons]
        split
        · next hleaves =>
            obtain ⟨rfl, rfl⟩ := Edge.leaves_iff.1 hleaves
            have hzero : rest.countP (·.leaves edge.source edge.port) = 0 := by
              rw [List.countP_eq_zero]
              intro other hother hsame
              obtain ⟨hsource, hport⟩ := Edge.leaves_iff.1 hsame
              exact hedge other hother ⟨hsource.symm, hport.symm⟩
            omega
        · have := hrest id port
          omega
      · intro h
        refine ⟨?_, ?_⟩
        · intro other hother hsame
          have hcount := h edge.source edge.port
          rw [List.countP_cons, if_pos (Edge.leaves_iff.2 ⟨rfl, rfl⟩)] at hcount
          have hpos : 0 < rest.countP (·.leaves edge.source edge.port) :=
            List.countP_pos_iff.2
              ⟨other, hother, Edge.leaves_iff.2 ⟨hsame.1.symm, hsame.2.symm⟩⟩
          omega
        · intro id port
          have hcount := h id port
          rw [List.countP_cons] at hcount
          omega

theorem crowdedPorts_eq_nil_iff :
    workflow.crowdedPorts = [] ↔
      ∀ node ∈ workflow.nodes, ∀ port ∈ node.step.ports,
        workflow.soundEdges.countP (·.leaves node.id port) ≤ 1 := by
  unfold crowdedPorts
  simp only [List.flatMap_eq_nil_iff, List.map_eq_nil_iff,
    List.filter_eq_nil_iff, decide_eq_true_eq, Nat.not_lt]

/-! ## All together -/

theorem violations_eq_nil_iff :
    workflow.violations = [] ↔
      reusedIds [] workflow.nodes = [] ∧
        workflow.edgeViolations [] workflow.edges = [] ∧
        workflow.crowdedPorts = [] ∧ ∀ node ∈ workflow.nodes,
          workflow.pairingViolations node = [] := by
  unfold violations
  rw [List.append_eq_nil_iff, List.append_eq_nil_iff, List.append_eq_nil_iff,
    List.flatMap_eq_nil_iff, and_assoc, and_assoc]

theorem check_eq_nil_iff_violations :
    workflow.check = [] ↔ workflow.violations = [] := by
  rw [check, List.map_eq_nil_iff]

theorem nodup_of_port_single {edges : List Edge}
    (h : edges.Pairwise fun a b => ¬ (a.source = b.source ∧ a.port = b.port)) :
    edges.Nodup := by
  refine List.Pairwise.imp ?_ h
  intro a b hne heq
  exact hne (heq ▸ ⟨rfl, rfl⟩)

theorem Sound.nodup_edges (h : workflow.Sound) : workflow.edges.Nodup :=
  nodup_of_port_single h.port_single

theorem Sound.contains_ends (h : workflow.Sound) :
    ∀ edge ∈ workflow.edges,
      workflow.contains edge.source = true ∧
        workflow.contains edge.target = true :=
  fun edge hedge =>
    ⟨contains_iff.2 (h.source_exists edge hedge),
      contains_iff.2 (h.target_exists edge hedge)⟩

theorem length_endsOf_eq_one_iff (hids : (workflow.nodes.map (·.id)).Nodup)
    {loopId : Uuid} :
    (workflow.endsOf loopId).length = 1 ↔
      ∃! last, last ∈ workflow.nodes ∧ last.step = .endLoop ⟨loopId⟩ := by
  have hnodup : (workflow.endsOf loopId).Nodup :=
    (List.Nodup.of_map _ hids).filter _
  simp only [← mem_endsOf]
  refine ⟨?_, ?_⟩
  · intro h
    obtain ⟨last, hlast⟩ := List.length_eq_one_iff.1 h
    exact ⟨last, by simp [hlast], by simp [hlast]⟩
  · intro h
    obtain ⟨last, hlast, honly⟩ := h
    have hperm : (workflow.endsOf loopId).Perm [last] := by
      rw [List.perm_ext_iff_of_nodup hnodup (List.nodup_singleton _)]
      intro other
      rw [List.mem_singleton]
      exact ⟨honly other, fun heq => heq ▸ hlast⟩
    simpa using hperm.length_eq

theorem sound_of_violations_eq_nil (h : workflow.violations = []) :
    workflow.Sound := by
  obtain ⟨hids, hedges, hports, hpairs⟩ := violations_eq_nil_iff.1 h
  obtain ⟨hids, -⟩ := reusedIds_eq_nil_iff.1 hids
  obtain ⟨hnodup, hedges⟩ := edgeViolations_eq_nil_iff.1 hedges
  have hsource : ∀ edge ∈ workflow.edges, ∃ node ∈ workflow.nodes,
      node.id = edge.source := by
    intro edge hedge
    obtain ⟨⟨source, hfind, _⟩, _⟩ := hedges edge hedge
    exact ⟨source, mem_of_find? hfind⟩
  have htarget : ∀ edge ∈ workflow.edges, ∃ node ∈ workflow.nodes,
      node.id = edge.target := by
    intro edge hedge
    obtain ⟨⟨_, _, htarget, _⟩, _⟩ := hedges edge hedge
    exact contains_iff.1 htarget
  have hdeclared : ∀ edge ∈ workflow.edges, ∀ node ∈ workflow.nodes,
      node.id = edge.source →
      edge.port ∈ node.step.ports := by
    intro edge hedge node hnode hid
    obtain ⟨⟨source, hfind, _, hport⟩, _⟩ := hedges edge hedge
    rw [(find?_eq_some_iff hids).2 ⟨hnode, hid⟩, Option.some.injEq] at hfind
    exact hfind ▸ hport
  -- Only now are the edges that are counted all edges, so that the counts say
  -- something of ports.
  have hsound : workflow.soundEdges = workflow.edges :=
    soundEdges_eq_edges hnodup fun edge hedge =>
      ⟨contains_iff.2 (hsource edge hedge), contains_iff.2 (htarget edge hedge)⟩
  refine ⟨hids, hsource, htarget, hdeclared, ?_, ?_, ?_, ?_⟩
  · rw [pairwise_port_iff]
    intro id port
    by_cases hpos : 0 < workflow.edges.countP (·.leaves id port)
    · obtain ⟨edge, hedge, hleaves⟩ := List.countP_pos_iff.1 hpos
      obtain ⟨rfl, rfl⟩ := Edge.leaves_iff.1 hleaves
      obtain ⟨node, hnode, hid⟩ := hsource edge hedge
      have := crowdedPorts_eq_nil_iff.1 hports node hnode _
        (hdeclared edge hedge node hnode hid)
      rwa [hsound, hid] at this
    · omega
  · intro node hnode loopId hstep
    obtain ⟨head, hfind, hloop⟩ :=
      (pairingViolations_eq_nil_iff.1 (hpairs node hnode)).1 _ hstep
    obtain ⟨hhead, hid⟩ := mem_of_find? hfind
    exact ⟨head, hhead, hid, Node.isLoop_iff.1 hloop⟩
  · intro node hnode hloop
    have hpair := (pairingViolations_eq_nil_iff.1 (hpairs node hnode)).2 hloop
    exact (length_endsOf_eq_one_iff hids).1 hpair.1
  · intro node hnode hloop
    have hpair := (pairingViolations_eq_nil_iff.1 (hpairs node hnode)).2 hloop
    exact edgeFrom?_isSome_iff.1 hpair.2

theorem Sound.violations_eq_nil (h : workflow.Sound) :
    workflow.violations = [] := by
  rw [violations_eq_nil_iff, reusedIds_eq_nil_iff, edgeViolations_eq_nil_iff,
    crowdedPorts_eq_nil_iff, soundEdges_eq_edges h.nodup_edges h.contains_ends]
  refine ⟨⟨h.ids_nodup, by simp⟩,
    ⟨h.nodup_edges, fun edge hedge => ⟨?_, by simp⟩⟩, ?_, ?_⟩
  · obtain ⟨node, hnode, hid⟩ := h.source_exists edge hedge
    exact ⟨node, (find?_eq_some_iff h.ids_nodup).2 ⟨hnode, hid⟩,
      (h.contains_ends edge hedge).2, h.port_declared edge hedge node hnode hid⟩
  · exact fun node _ port _ => pairwise_port_iff.1 h.port_single node.id port
  · intro node hnode
    rw [pairingViolations_eq_nil_iff]
    refine ⟨?_, ?_⟩
    · intro loopId hstep
      obtain ⟨head, hhead, hid, hloop⟩ := h.end_of_loop node hnode loopId hstep
      exact ⟨head, (find?_eq_some_iff h.ids_nodup).2 ⟨hhead, hid⟩,
        Node.isLoop_iff.2 hloop⟩
    · intro hloop
      exact ⟨(length_endsOf_eq_one_iff h.ids_nodup).2 (h.ended_once node
        hnode hloop), edgeFrom?_isSome_iff.2 (h.has_body node hnode hloop)⟩

theorem check_eq_nil_iff_sound : workflow.check = [] ↔ workflow.Sound := by
  rw [check_eq_nil_iff_violations]
  exact ⟨sound_of_violations_eq_nil, Sound.violations_eq_nil⟩

/-! ## Loops and their ends -/

/-- The node that an end of a loop refers to. -/
def pairedLoop? (workflow : Workflow) (node : Node) : Option Node :=
  node.closes?.bind workflow.find?

theorem Sound.pairedLoop?_eq_some_iff (h : workflow.Sound) {node head : Node} :
    workflow.pairedLoop? node = some head ↔
      head ∈ workflow.nodes ∧ node.step = .endLoop ⟨head.id⟩ := by
  unfold pairedLoop?
  rw [Option.bind_eq_some_iff]
  refine ⟨?_, ?_⟩
  · intro hpair
    obtain ⟨loopId, hcloses, hfind⟩ := hpair
    obtain ⟨hhead, rfl⟩ := mem_of_find? hfind
    exact ⟨hhead, Node.closes?_eq_some_iff.1 hcloses⟩
  · intro hpair
    exact ⟨head.id, Node.closes?_eq_some_iff.2 hpair.2,
      (find?_eq_some_iff h.ids_nodup).2 ⟨hpair.1, rfl⟩⟩

theorem Sound.bijOn_pairedLoop? (h : workflow.Sound) :
    Set.BijOn workflow.pairedLoop?
      {node | node ∈ workflow.nodes ∧ ∃ loopId, node.step = .endLoop ⟨loopId⟩}
      (some ''
        {node | node ∈ workflow.nodes ∧ ∃ loop, node.step = .loop loop}) := by
  have hpaired : ∀ node ∈ workflow.nodes,
      (∃ loopId, node.step = .endLoop ⟨loopId⟩) →
      ∃ head ∈ workflow.nodes, (∃ loop, head.step = .loop loop) ∧
        workflow.pairedLoop? node = some head := by
    intro node hnode hend
    obtain ⟨loopId, hstep⟩ := hend
    obtain ⟨head, hhead, rfl, hloop⟩ := h.end_of_loop node hnode loopId hstep
    exact ⟨head, hhead, hloop, h.pairedLoop?_eq_some_iff.2 ⟨hhead, hstep⟩⟩
  refine ⟨?_, ?_, ?_⟩
  · intro node hnode
    obtain ⟨head, hhead, hloop, hpair⟩ := hpaired node hnode.1 hnode.2
    exact ⟨head, ⟨hhead, hloop⟩, hpair.symm⟩
  · intro a ha b hb heq
    obtain ⟨head, hhead, hloop, hpair⟩ := hpaired a ha.1 ha.2
    have hstepA := (h.pairedLoop?_eq_some_iff.1 hpair).2
    have hstepB := (h.pairedLoop?_eq_some_iff.1 (heq.symm.trans hpair)).2
    exact (h.ended_once head hhead hloop).unique ⟨ha.1, hstepA⟩ ⟨hb.1, hstepB⟩
  · intro image himage
    obtain ⟨head, ⟨hhead, hloop⟩, rfl⟩ := himage
    obtain ⟨last, ⟨hlast, hstep⟩, _⟩ := h.ended_once head hhead hloop
    exact ⟨last, ⟨hlast, head.id, hstep⟩,
      h.pairedLoop?_eq_some_iff.2 ⟨hhead, hstep⟩⟩

/-- The check accepts the sound workflows and no others, and in those it accepts
each loop has its own end. -/
theorem check_accepts_sound (workflow : Workflow) :
    (workflow.check = [] ↔ workflow.Sound) ∧
    (workflow.check = [] →
      Set.BijOn workflow.pairedLoop?
        {node | node ∈ workflow.nodes ∧ ∃ loopId, node.step = .endLoop ⟨loopId⟩}
        (some ''
          {node | node ∈ workflow.nodes ∧ ∃ loop, node.step = .loop loop})) :=
  ⟨check_eq_nil_iff_sound,
    fun h => (check_eq_nil_iff_sound.1 h).bijOn_pairedLoop?⟩

end Workbench.Workflow
