import Workbench.Proofs.Generate.Traced
import Workbench.Proofs.Loops.Body

/-!
# Loops of a generated workflow nest as they were made

Generation makes the body of a loop with one call, and only afterwards asks
where the body of a loop is: the answer is found by a walk through the finished
workflow. The two agree. The walk stays within what the call created, for no
edge leaves it but to the end of the loop, and it finds all of it.

So bodies nest as calls do, and the loops that enclose a node are those that
were in the making when the node was created. They come out in the same order as
well: the outer loop has the larger body.
-/

namespace Workbench

namespace Workflow

/-- The workflow consists of the part. -/
structure Laid (workflow : Workflow) (part : Part) : Prop where
  marks_eq : workflow.nodes.map Node.mark = part.marks
  edges_eq : workflow.edges = part.edges
  nodup : part.ids.Nodup

variable {workflow : Workflow} {part : Part} {round : Round}

namespace Laid

theorem ids_eq (h : workflow.Laid part) :
    workflow.nodes.map (·.id) = part.ids := by
  have hids := congrArg (List.map (·.id)) h.marks_eq
  rw [List.map_map, Part.map_id_marks] at hids
  exact hids

theorem loopIds_eq (h : workflow.Laid part) :
    (workflow.nodes.filter (·.isLoop)).map (·.id) =
      part.rounds.map (·.head) := by
  rw [← Part.heads_eq, ← h.marks_eq, List.filter_map, List.map_map]
  rfl

theorem bodies_eq (h : workflow.Laid part) :
    workflow.loopBodies.bodies =
      part.rounds.map fun round =>
        (round.head, workflow.loopBody round.head) := by
  rw [loopBodies]
  dsimp only
  rw [h.loopIds_eq, NodeSet.toList_ofList_of_nodup (Part.nodup_heads h.nodup),
    List.map_map]
  rfl

theorem bodyEntry?_eq (h : workflow.Laid part) (hround : round ∈ part.rounds) :
    workflow.bodyEntry? round.head = some round.body.entry := by
  have hedge := Part.body_edge_mem hround
  rw [← h.edges_eq] at hedge
  have hsome : (workflow.edgeFrom? round.head (some .loopBody)).isSome = true :=
    edgeFrom?_isSome_iff.2 ⟨_, hedge, rfl, rfl⟩
  obtain ⟨edge, hedge⟩ := Option.isSome_iff_exists.1 hsome
  have hfound :
      workflow.edges.find? (·.leaves round.head (some .loopBody)) = some edge :=
    hedge
  have hmem : edge ∈ part.edges := h.edges_eq ▸ List.mem_of_find?_eq_some hfound
  have hleaves := List.find?_some hfound
  obtain ⟨hsource, hport⟩ := Edge.leaves_iff.1 hleaves
  unfold bodyEntry?
  rw [hedge, Option.map_some,
    Part.target_of_body_edge h.nodup hround hmem hsource hport]

theorem boundary?_eq (h : workflow.Laid part) (hround : round ∈ part.rounds) :
    workflow.boundary? round.head = some round.tail := by
  have hcloses : ∀ tail, (∃ node ∈ workflow.nodes,
      node.closes? = some round.head ∧ node.id = tail) ↔
      ∃ other ∈ part.rounds, other.head = round.head ∧ other.tail = tail := by
    intro tail
    rw [← Part.exists_closes_iff, ← h.marks_eq]
    simp
  obtain ⟨node, hnode, hcloses', -⟩ :=
    (hcloses round.tail).2 ⟨round, hround, rfl, rfl⟩
  have hsome :
      (workflow.nodes.find? (·.closes? == some round.head)).isSome = true := by
    rw [List.find?_isSome]
    exact ⟨node, hnode, by simpa using hcloses'⟩
  obtain ⟨found, hfound⟩ := Option.isSome_iff_exists.1 hsome
  have hfirst : found.closes? = some round.head := by
    simpa using List.find?_some hfound
  obtain ⟨other, hother, hhead, htail⟩ :=
    (hcloses found.id).1 ⟨found, List.mem_of_find?_eq_some hfound, hfirst, rfl⟩
  have hsame : other = round :=
    List.inj_on_of_nodup_map (Part.nodup_heads h.nodup) hother hround hhead
  rw [boundary?, hfound, Option.map_some, ← htail, hsame]

/-- The body of a loop is what was created by the call that made it. -/
theorem mem_loopBody_iff (h : workflow.Laid part) (hround : round ∈ part.rounds)
    {v : Uuid} :
    v ∈ (workflow.loopBody round.head).toList ↔ v ∈ round.body.ids := by
  obtain ⟨-, hhead, htail, -⟩ := Part.nodup_round h.nodup hround
  refine mem_loopBody_of_closed (h.bodyEntry?_eq hround)
    (h.boundary?_eq hround) hhead htail
    round.body.entry_mem_ids ?_ ?_
  · rintro _ _ ⟨edge, hedge, rfl, rfl⟩ hsource
    rw [h.edges_eq] at hedge
    exact Part.leaves_body h.nodup hround hedge hsource
  · intro b hb
    refine Relation.ReflTransGen.mono ?_ _ _ (Part.reaches_of_mem_ids hb)
    rintro _ _ ⟨edge, hedge, rfl, rfl⟩
    obtain ⟨hsource, htarget⟩ := Part.ends_mem_ids hedge
    refine ⟨⟨edge, ?_, rfl, rfl⟩, hsource, htarget⟩
    rw [h.edges_eq]
    exact Part.mem_edges_of_body hround hedge

theorem size_loopBody (h : workflow.Laid part) (hround : round ∈ part.rounds) :
    (workflow.loopBody round.head).size = round.body.ids.length := by
  obtain ⟨-, -, -, hnodup⟩ := Part.nodup_round h.nodup hround
  have hperm :=
    (List.perm_ext_iff_of_nodup (workflow.loopBody round.head).nodup hnodup).2
    fun v => h.mem_loopBody_iff hround
  exact hperm.length_eq

theorem bodies_around (h : workflow.Laid part) (v : Uuid) :
    workflow.loopBodies.bodies.filter (·.2.contains v) =
      (part.rounds.filter fun round => decide (v ∈ round.body.ids)).map
        fun round => (round.head, workflow.loopBody round.head) := by
  rw [h.bodies_eq, List.filter_map]
  congr 1
  refine List.filter_congr fun round hround => ?_
  rw [Bool.eq_iff_iff, Function.comp_apply, NodeSet.contains_iff,
    h.mem_loopBody_iff hround, decide_eq_true_iff]

/-- The loops around a node are in the order of the sizes of their bodies, as
they were made: each lies in the body of the one before. -/
theorem pairwise_precedes (h : workflow.Laid part) (v : Uuid) :
    (workflow.loopBodies.bodies.filter (·.2.contains v)).Pairwise
      fun a b => LoopBodies.precedes a b = true := by
  rw [h.bodies_around, List.pairwise_map]
  refine ((Part.pairwise_rounds h.nodup).filter _).imp_of_mem ?_
  intro a b ha hb hnested
  simp only [List.mem_filter, decide_eq_true_eq] at ha hb
  rcases hnested with hinside | hdisjoint
  · have hlt := hinside.length_le
    simp only [List.length_cons] at hlt
    rw [LoopBodies.precedes, h.size_loopBody ha.1, h.size_loopBody hb.1,
      Bool.or_eq_true, decide_eq_true_iff]
    exact .inl (by omega)
  · exact absurd hb.2 (hdisjoint ha.2)

theorem enclosing_eq (h : workflow.Laid part) (v : Uuid) :
    workflow.loopBodies.enclosing v = part.around v := by
  rw [LoopBodies.enclosing, List.mergeSort_of_pairwise (h.pairwise_precedes v),
    h.bodies_around, List.map_map, Part.around]
  rfl

end Laid

/-- The loops of the workflow nest as the calls by which the part was made. -/
structure NestedAs (workflow : Workflow) (part : Part) (depth : Nat) :
    Prop where
  created : workflow.nodes.map (·.id) = part.ids
  loops : (workflow.nodes.filter (·.isLoop)).map (·.id) =
    part.rounds.map (·.head)
  /-- The body of a loop is what the call created that made it. -/
  bodies : ∀ round ∈ part.rounds, ∃ body,
    workflow.loopBodies.body? round.head = some body ∧
    ∀ v, v ∈ body.toList ↔ v ∈ round.body.ids
  apart : ∀ a b first second, a ≠ b → workflow.loopBodies.body? a = some first →
    workflow.loopBodies.body? b = some second →
      first.toList.Disjoint second.toList ∨ second.StrictlyWithin first ∨
        first.StrictlyWithin second
  /-- The loops around a node are those whose bodies were in the making when it
  was created. -/
  enclosing : workflow.nodes.map
    (fun node => (node.id, workflow.loopBodies.enclosing node.id)) =
    part.places []
  depth_le : ∀ node ∈ workflow.nodes,
    (workflow.loopBodies.enclosing node.id).length ≤ depth

namespace Laid

theorem body?_eq (h : workflow.Laid part) (hround : round ∈ part.rounds) :
    workflow.loopBodies.body? round.head =
      some (workflow.loopBody round.head) := by
  rw [body?_eq_some_iff]
  refine ⟨?_, rfl⟩
  rw [h.bodies_eq, List.map_map]
  exact List.mem_map_of_mem hround

theorem exists_round (h : workflow.Laid part) {loopId : Uuid} {body : NodeSet}
    (hbody : workflow.loopBodies.body? loopId = some body) :
    ∃ round ∈ part.rounds,
      round.head = loopId ∧ body = workflow.loopBody round.head := by
  obtain ⟨hloop, rfl⟩ := body?_eq_some_iff.1 hbody
  rw [h.bodies_eq, List.map_map] at hloop
  obtain ⟨round, hround, rfl⟩ := List.mem_map.1 hloop
  exact ⟨round, hround, rfl, rfl⟩

/-- The body of a loop that lies in the body of another is contained in that,
and the head of the inner loop shows that it is not all of it. -/
theorem strictlyWithin (h : workflow.Laid part) {inner outer : Round}
    (hinner : inner ∈ part.rounds) (houter : outer ∈ part.rounds)
    (hsub :
      (inner.head :: inner.tail :: inner.body.ids).Sublist outer.body.ids) :
    (workflow.loopBody inner.head).StrictlyWithin
      (workflow.loopBody outer.head) := by
  simp only [NodeSet.StrictlyWithin, h.mem_loopBody_iff hinner,
    h.mem_loopBody_iff houter]
  refine ⟨fun v hv => ?_, inner.head, ?_, ?_⟩
  · exact hsub.subset (List.mem_cons_of_mem _ (List.mem_cons_of_mem _ hv))
  · exact hsub.subset (List.mem_cons_self ..)
  · obtain ⟨-, hhead, -, -⟩ := Part.nodup_round h.nodup hinner
    exact hhead

theorem nestedAs (h : workflow.Laid part) {depth : Nat}
    (hdepth : part.nesting ≤ depth) : workflow.NestedAs part depth where
  created := h.ids_eq
  loops := h.loopIds_eq
  bodies round hround :=
    ⟨_, h.body?_eq hround, fun _ => h.mem_loopBody_iff hround⟩
  apart a b first second hne hfirst hsecond := by
    obtain ⟨left, hleft, rfl, rfl⟩ := h.exists_round hfirst
    obtain ⟨right, hright, rfl, rfl⟩ := h.exists_round hsecond
    have hsides : left ≠ right := fun heq => hne (heq ▸ rfl)
    rcases Part.nested_or_disjoint h.nodup hleft hright hsides
      with hdisjoint | hsub | hsub
    · refine .inl fun v hfirst hsecond => ?_
      rw [h.mem_loopBody_iff hleft] at hfirst
      rw [h.mem_loopBody_iff hright] at hsecond
      exact hdisjoint hfirst hsecond
    · exact .inr (.inl (h.strictlyWithin hright hleft hsub))
    · exact .inr (.inr (h.strictlyWithin hleft hright hsub))
  enclosing := by
    rw [Part.places_eq h.nodup, ← h.ids_eq, List.map_map]
    refine List.map_congr_left fun node _ => ?_
    rw [Function.comp_apply, h.enclosing_eq, List.nil_append]
  depth_le node hnode := by
    have hplace : (node.id, part.around node.id) ∈ part.places [] := by
      rw [Part.places_eq h.nodup, List.mem_map]
      refine ⟨node.id, ?_, rfl⟩
      rw [← h.ids_eq]
      exact List.mem_map_of_mem hnode
    rw [h.enclosing_eq]
    have hle := Part.length_places_le hplace
    rw [List.length_nil, Nat.zero_add] at hle
    exact hle.trans hdepth

end Laid

theorem laid_generate (chance : Chance) (segments depth : Nat)
    (hids : ((generate chance segments depth).nodes.map (·.id)).Nodup) :
    (generate chance segments depth).Laid
      (Part.generated chance segments depth) := by
  obtain ⟨hgrows, -⟩ := grows_generate chance segments depth
  have hnodup : (Part.generated chance segments depth).ids.Nodup := by
    rw [hgrows.ids_eq, Part.map_id_marks] at hids
    exact hids
  exact ⟨hgrows.marks_eq, hgrows.edges_eq hids nofun, hnodup⟩

/-- Whatever chance supplies, as long as identifiers are distinct, the loops of
a generated workflow nest as the calls did that made their bodies, and never
deeper than asked for. -/
theorem generate_nested (chance : Chance) (segments depth : Nat)
    (hids : ((generate chance segments depth).nodes.map (·.id)).Nodup) :
    (∀ level count, (Making.chain (Making.segment chance level) count).Traces
      (Making.chainPart (Making.segmentPart chance level) count)) ∧
    (generate chance segments depth).NestedAs
      (Part.generated chance segments depth) depth := by
  obtain ⟨-, hnesting⟩ := grows_generate chance segments depth
  exact ⟨Making.traces_chain chance,
    (laid_generate chance segments depth hids).nestedAs hnesting⟩

/-- Chance that makes a loop within a loop if it may. -/
def twiceLooped : Chance where
  draw place := if place < 6 then 0 else 2
  id := .ofNat

theorem twiceLooped_nested :
    ((generate twiceLooped 1 2).nodes.map (·.id)).Nodup ∧
      (Part.generated twiceLooped 1 2).nesting = 2 ∧
      (generate twiceLooped 1 2).NestedAs
        (Part.generated twiceLooped 1 2) 2 := by
  have hids : ((generate twiceLooped 1 2).nodes.map (·.id)).Nodup := by
    decide +kernel
  exact ⟨hids, by decide +kernel, (generate_nested twiceLooped 1 2 hids).2⟩

end Workflow

end Workbench
