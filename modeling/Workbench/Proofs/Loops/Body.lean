import Mathlib.Data.List.Basic
import Mathlib.Data.List.Chain
import Workbench.Loops.Body
import Workbench.Proofs.Graph.Reach
import Workbench.Proofs.Loops.NodeSet
import Workbench.Proofs.Workflow.Lookup

/-!
# The body of a loop is a set of reachable nodes

The body is computed by a walk that marks the head of the loop before it starts
and that lists the boundary but never leaves it. Said without a walk, the body
is what can be reached from its entry on a path that touches neither the head
nor the boundary: `exists_bodyPath_iff` turns the one into the other. The head
is kept out by the mark; the boundary, if the walk lists it, is the last node of
any path the walk has to it, so leaving it out of the list leaves out nothing
else.

Nothing is asked of the graph. Entry and boundary are the first in the order of
edges and nodes, so they are unique even where identifiers or ports are not.
-/

namespace Workbench

namespace Workflow

variable {workflow : Workflow} {loopId : Uuid}

/-- The first edge from the body port of the node leads to the entry. -/
def IsEntry (workflow : Workflow) (loopId entry : Uuid) : Prop :=
  ∃ before edge after, workflow.edges = before ++ edge :: after ∧
    (edge.source = loopId ∧ edge.port = some .loopBody) ∧ edge.target = entry ∧
    ∀ earlier ∈ before,
      ¬ (earlier.source = loopId ∧ earlier.port = some .loopBody)

/-- The first node that ends the loop has the identifier. -/
def IsBoundary (workflow : Workflow) (loopId bound : Uuid) : Prop :=
  ∃ before node after, workflow.nodes = before ++ node :: after ∧
    node.step = .endLoop ⟨loopId⟩ ∧ node.id = bound ∧
    ∀ earlier ∈ before, earlier.step ≠ .endLoop ⟨loopId⟩

/-- A path along edges that touches neither the head of the loop nor its
boundary. -/
structure BodyPath (workflow : Workflow) (loopId first last : Uuid)
    (path : List Uuid) : Prop where
  starts : path.head? = some first
  ends : path.getLast? = some last
  joined : path.IsChain workflow.Joins
  avoids_head : loopId ∉ path
  avoids_boundary : ∀ bound, workflow.IsBoundary loopId bound → bound ∉ path

/-! ## Entry and boundary -/

theorem bodyEntry?_eq_some_iff {entry : Uuid} :
    workflow.bodyEntry? loopId = some entry ↔
      workflow.IsEntry loopId entry := by
  unfold bodyEntry? edgeFrom? IsEntry
  rw [Option.map_eq_some_iff]
  simp only [List.find?_eq_some_iff_append, Edge.leaves_iff, Bool.not_eq_true',
    ← Bool.not_eq_true]
  refine ⟨?_, ?_⟩
  · intro h
    obtain ⟨edge, ⟨hport, before, after, hedges, hfirst⟩, htarget⟩ := h
    exact ⟨before, edge, after, hedges, hport, htarget, hfirst⟩
  · intro h
    obtain ⟨before, edge, after, hedges, hport, htarget, hfirst⟩ := h
    exact ⟨edge, ⟨hport, before, after, hedges, hfirst⟩, htarget⟩

theorem boundary?_eq_some_iff {bound : Uuid} :
    workflow.boundary? loopId = some bound ↔
      workflow.IsBoundary loopId bound := by
  unfold boundary? IsBoundary
  rw [Option.map_eq_some_iff]
  simp only [List.find?_eq_some_iff_append, beq_iff_eq,
    Node.closes?_eq_some_iff, Bool.not_eq_true', ← Bool.not_eq_true, ne_eq]
  refine ⟨?_, ?_⟩
  · intro h
    obtain ⟨node, ⟨hends, before, after, hnodes, hfirst⟩, hid⟩ := h
    exact ⟨before, node, after, hnodes, hends, hid, hfirst⟩
  · intro h
    obtain ⟨before, node, after, hnodes, hends, hid, hfirst⟩ := h
    exact ⟨node, ⟨hends, before, after, hnodes, hfirst⟩, hid⟩

/-! ## Paths and walks -/

theorem mem_arcsWithin {a b : Uuid} :
    (a, b) ∈ workflow.arcsWithin loopId ↔
      workflow.Joins a b ∧ workflow.boundary? loopId ≠ some a := by
  simp only [arcsWithin, Joins, List.mem_map, List.mem_filter, bne_iff_ne,
    Prod.mk.injEq]
  refine ⟨?_, ?_⟩
  · intro h
    obtain ⟨edge, ⟨hedge, hbound⟩, rfl, rfl⟩ := h
    exact ⟨⟨edge, hedge, rfl, rfl⟩, hbound⟩
  · intro h
    obtain ⟨⟨edge, hedge, rfl, rfl⟩, hbound⟩ := h
    exact ⟨edge, ⟨hedge, hbound⟩, rfl, rfl⟩

/-- A node that a path through the body may touch. -/
def Passable (workflow : Workflow) (loopId a : Uuid) : Prop :=
  a ≠ loopId ∧ workflow.boundary? loopId ≠ some a

theorem BodyPath.single {a : Uuid} (ha : workflow.Passable loopId a) :
    workflow.BodyPath loopId a a [a] where
  starts := rfl
  ends := rfl
  joined := .singleton a
  avoids_head := by simpa using ha.1.symm
  avoids_boundary bound hbound := by
    intro h
    obtain rfl : bound = a := by simpa using h
    exact ha.2 (boundary?_eq_some_iff.2 hbound)

theorem BodyPath.cons {a b v : Uuid} {path : List Uuid}
    (hpath : workflow.BodyPath loopId b v path) (hjoin : workflow.Joins a b)
    (ha : workflow.Passable loopId a) :
    workflow.BodyPath loopId a v (a :: path) where
  starts := rfl
  ends := by rw [List.getLast?_cons, hpath.ends]; rfl
  joined := by
    refine List.isChain_cons.2 ⟨fun c hc => ?_, hpath.joined⟩
    obtain rfl : b = c := by simpa [hpath.starts] using hc
    exact hjoin
  avoids_head := by
    rw [List.mem_cons, not_or]
    exact ⟨ha.1.symm, hpath.avoids_head⟩
  avoids_boundary bound hbound := by
    rw [List.mem_cons, not_or]
    refine ⟨fun heq => ?_, hpath.avoids_boundary bound hbound⟩
    exact ha.2 (boundary?_eq_some_iff.2 (heq ▸ hbound))

theorem BodyPath.passable {a v x : Uuid} {path : List Uuid}
    (hpath : workflow.BodyPath loopId a v path) (hx : x ∈ path) :
    workflow.Passable loopId x := by
  refine ⟨?_, ?_⟩
  · exact fun heq => hpath.avoids_head (heq ▸ hx)
  · exact fun hbound =>
      hpath.avoids_boundary x (boundary?_eq_some_iff.1 hbound) hx

theorem BodyPath.passable_last {a v : Uuid} {path : List Uuid}
    (hpath : workflow.BodyPath loopId a v path) : workflow.Passable loopId v :=
  hpath.passable (List.mem_of_getLast? hpath.ends)

/-- A path stops at once or goes on along an edge. -/
theorem BodyPath.cases_cons {a v x : Uuid} {path : List Uuid}
    (hpath : workflow.BodyPath loopId a v (x :: path)) :
    x = a ∧ (path = [] ∧ v = a ∨ ∃ b,
      workflow.Joins a b ∧ workflow.BodyPath loopId b v path) := by
  obtain rfl : x = a := by simpa using hpath.starts
  refine ⟨rfl, ?_⟩
  cases path with
  | nil => exact .inl ⟨rfl, by simpa using hpath.ends.symm⟩
  | cons b rest =>
      obtain ⟨hjoin, hrest⟩ := List.isChain_cons_cons.1 hpath.joined
      refine .inr ⟨b, hjoin, rfl, ?_, hrest, ?_, ?_⟩
      · simpa using hpath.ends
      · exact fun h => hpath.avoids_head (List.mem_cons_of_mem _ h)
      · exact fun bound hbound h =>
          hpath.avoids_boundary bound hbound (List.mem_cons_of_mem _ h)

/-- A path through the body, seen as the walk sees it: arcs that do not leave
the boundary lead to nodes other than the head, and the last node is not the
boundary either. -/
theorem exists_bodyPath_iff {a v : Uuid} :
    (∃ path, workflow.BodyPath loopId a v path) ↔
      a ≠ loopId ∧ (workflow.arcsWithin loopId).Reaches [loopId] a v ∧
        workflow.boundary? loopId ≠ some v := by
  refine ⟨?_, ?_⟩
  · intro h
    obtain ⟨path, hpath⟩ := h
    induction path generalizing a with
    | nil => cases hpath.starts
    | cons x rest ih =>
        obtain ⟨rfl, hend | ⟨b, hjoin, hrest⟩⟩ := hpath.cases_cons
        · obtain ⟨rfl, rfl⟩ := hend
          have hv := hpath.passable (List.mem_cons_self ..)
          exact ⟨hv.1, .refl, hv.2⟩
        · have hx := hpath.passable (List.mem_cons_self ..)
          obtain ⟨hb, hreach, hv⟩ := ih hrest
          have harc := mem_arcsWithin.2 ⟨hjoin, hx.2⟩
          exact ⟨hx.1, hreach.head ⟨harc, by simpa using hb⟩, hv⟩
  · intro h
    obtain ⟨ha, hreach, hv⟩ := h
    induction hreach using Relation.ReflTransGen.head_induction_on with
    | refl => exact ⟨[v], .single ⟨ha, hv⟩⟩
    | head hopen _ ih =>
        obtain ⟨hjoin, hbound⟩ := mem_arcsWithin.1 hopen.1
        obtain ⟨path, hpath⟩ := ih (by simpa using hopen.2)
        exact ⟨_, hpath.cons hjoin ⟨ha, hbound⟩⟩

theorem mem_bodyWalk_iff {v : Uuid} :
    v ∈ workflow.bodyWalk loopId ↔
      ∃ entry, workflow.bodyEntry? loopId = some entry ∧ entry ≠ loopId ∧
        (workflow.arcsWithin loopId).Reaches [loopId] entry v := by
  unfold bodyWalk
  split
  · next hentry => simp [hentry]
  · next entry hentry =>
      split
      · next heq => simp [hentry, heq]
      · next hne => simp [hentry, hne, Arcs.mem_walk_start_iff]

theorem mem_loopBody_iff {v : Uuid} :
    v ∈ (workflow.loopBody loopId).toList ↔
      ∃ entry, workflow.bodyEntry? loopId = some entry ∧
        ∃ path, workflow.BodyPath loopId entry v path := by
  simp only [loopBody, NodeSet.mem_ofList, List.mem_filter, bne_iff_ne,
    mem_bodyWalk_iff, exists_bodyPath_iff]
  refine ⟨?_, ?_⟩
  · intro h
    obtain ⟨⟨entry, hentry, hne, hreach⟩, hv⟩ := h
    exact ⟨entry, hentry, hne, hreach, hv⟩
  · intro h
    obtain ⟨entry, hentry, hne, hreach, hv⟩ := h
    exact ⟨⟨entry, hentry, hne, hreach⟩, hv⟩

theorem passable_of_mem_loopBody {v : Uuid}
    (hv : v ∈ (workflow.loopBody loopId).toList) :
    workflow.Passable loopId v := by
  obtain ⟨entry, _, path, hpath⟩ := mem_loopBody_iff.1 hv
  exact hpath.passable_last

theorem exists_edge_of_mem_loopBody {v : Uuid}
    (hv : v ∈ (workflow.loopBody loopId).toList) :
    ∃ edge ∈ workflow.edges, edge.target = v := by
  obtain ⟨entry, hentry, hpath⟩ := mem_loopBody_iff.1 hv
  obtain ⟨-, hreach, -⟩ := exists_bodyPath_iff.1 hpath
  cases hreach with
  | refl =>
      obtain ⟨before, edge, after, hedges, _, htarget, _⟩ :=
        bodyEntry?_eq_some_iff.1 hentry
      exact ⟨edge, by simp [hedges], htarget⟩
  | tail _ hopen =>
      obtain ⟨⟨edge, hedge, _, htarget⟩, _⟩ := mem_arcsWithin.1 hopen.1
      exact ⟨edge, hedge, htarget⟩

/-- The body is known once a set is known that holds its entry, that edges leave
only to the boundary, and all of which the entry reaches without leaving it. -/
theorem mem_loopBody_of_closed {entry bound v : Uuid} {inside : List Uuid}
    (hentry : workflow.bodyEntry? loopId = some entry)
    (hbound : workflow.boundary? loopId = some bound)
    (hhead : loopId ∉ inside) (htail : bound ∉ inside) (hstart : entry ∈ inside)
    (hclosed : ∀ a b, workflow.Joins a b → a ∈ inside → b ∈ inside ∨ b = bound)
    (hreach : ∀ b ∈ inside, Relation.ReflTransGen
      (fun a b => workflow.Joins a b ∧ a ∈ inside ∧ b ∈ inside) entry b) :
    v ∈ (workflow.loopBody loopId).toList ↔ v ∈ inside := by
  simp only [mem_loopBody_iff, exists_bodyPath_iff, hentry, hbound,
    Option.some.injEq, exists_eq_left', ne_eq]
  refine ⟨fun h => ?_, fun hv => ⟨?_, ?_, ?_⟩⟩
  · obtain ⟨-, hwalk, hv⟩ := h
    have hkept : v ∈ inside ∨ v = bound := by
      clear hv
      induction hwalk with
      | refl => exact .inl hstart
      | tail _ hopen ih =>
          obtain ⟨hjoin, hnot⟩ := mem_arcsWithin.1 hopen.1
          rw [hbound, ne_eq, Option.some.injEq] at hnot
          rcases ih with hb | rfl
          · exact hclosed _ _ hjoin hb
          · exact absurd rfl hnot
    exact hkept.resolve_right (Ne.symm hv)
  · exact fun heq => hhead (heq ▸ hstart)
  · refine Relation.ReflTransGen.mono (fun a b hstep => ?_) _ _ (hreach v hv)
    obtain ⟨hjoin, ha, hb⟩ := hstep
    refine ⟨mem_arcsWithin.2 ⟨hjoin, ?_⟩, ?_⟩
    · rw [hbound, ne_eq, Option.some.injEq]
      exact fun heq => htail (heq ▸ ha)
    · rw [List.mem_singleton]
      exact fun heq => hhead (heq ▸ hb)
  · exact fun heq => htail (heq ▸ hv)

/-! ## The bodies of all loops -/

theorem mem_loopIds_iff :
    loopId ∈ workflow.loopBodies.bodies.map (·.1) ↔
      ∃ node ∈ workflow.nodes,
        (∃ loop, node.step = .loop loop) ∧ node.id = loopId := by
  unfold loopBodies
  simp only [List.map_map, Function.comp_def, List.map_id', NodeSet.mem_ofList,
    List.mem_map, List.mem_filter, Node.isLoop_iff, and_assoc]

theorem nodup_loopIds (workflow : Workflow) :
    (workflow.loopBodies.bodies.map (·.1)).Nodup := by
  unfold loopBodies
  simp only [List.map_map, Function.comp_def, List.map_id']
  exact NodeSet.nodup _

theorem body?_loopBodies (workflow : Workflow) (loopId : Uuid) :
    workflow.loopBodies.body? loopId =
      if loopId ∈ workflow.loopBodies.bodies.map (·.1) then
        some (workflow.loopBody loopId)
      else none := by
  split
  · next h =>
      unfold loopBodies at h ⊢
      simp only [List.map_map, Function.comp_def, List.map_id'] at h
      exact List.lookup_graph workflow.loopBody h
  · next h =>
      refine List.lookup_eq_none_iff.2 fun pair hpair => ?_
      rw [bne_iff_ne]
      intro heq
      exact h (List.mem_map.2 ⟨pair, hpair, heq.symm⟩)

theorem body?_eq_some_iff {body : NodeSet} :
    workflow.loopBodies.body? loopId = some body ↔
      loopId ∈ workflow.loopBodies.bodies.map (·.1) ∧
        body = workflow.loopBody loopId := by
  rw [body?_loopBodies]
  split
  · next h => simp [h, eq_comm]
  · next h => simp [h]

/-- The bodies of all loops, for any lists of nodes and edges: there is one for
each identifier of a loop, and it lists once whatever can be reached from the
loop's entry past neither its head nor its boundary. -/
theorem loopBodies_reachable (workflow : Workflow) :
    (workflow.loopBodies.bodies.map (·.1)).Nodup ∧
    (∀ loopId, (workflow.loopBodies.body? loopId).isSome = true ↔
      ∃ node ∈ workflow.nodes,
        (∃ loop, node.step = .loop loop) ∧ node.id = loopId) ∧
    ∀ loopId body, workflow.loopBodies.body? loopId = some body →
      body.toList.Nodup ∧
      ((¬ ∃ entry, workflow.IsEntry loopId entry) → body.toList = []) ∧
      (∀ entry, workflow.IsEntry loopId entry →
        ∀ v, v ∈ body.toList ↔ ∃ path, workflow.BodyPath loopId entry v path) ∧
      loopId ∉ body.toList ∧
      (∀ bound, workflow.IsBoundary loopId bound → bound ∉ body.toList) ∧
      ((∀ edge ∈ workflow.edges,
          workflow.contains edge.source = true ∧
            workflow.contains edge.target = true) →
        ∀ v ∈ body.toList, workflow.contains v = true) := by
  refine ⟨nodup_loopIds workflow, fun loopId => ?_, fun loopId body hbody => ?_⟩
  · rw [body?_loopBodies, ← mem_loopIds_iff]
    split <;> simp [*]
  · obtain ⟨-, rfl⟩ := body?_eq_some_iff.1 hbody
    refine ⟨NodeSet.nodup _, ?_, ?_, ?_, ?_, ?_⟩
    · intro hnone
      refine List.eq_nil_iff_forall_not_mem.2 fun v hv => ?_
      obtain ⟨entry, hentry, _⟩ := mem_loopBody_iff.1 hv
      exact hnone ⟨entry, bodyEntry?_eq_some_iff.1 hentry⟩
    · intro entry hentry v
      rw [mem_loopBody_iff, bodyEntry?_eq_some_iff.2 hentry]
      simp only [Option.some.injEq, exists_eq_left']
    · intro hhead
      exact (passable_of_mem_loopBody hhead).1 rfl
    · intro bound hbound hmem
      exact (passable_of_mem_loopBody hmem).2 (boundary?_eq_some_iff.2 hbound)
    · intro hends v hv
      obtain ⟨edge, hedge, rfl⟩ := exists_edge_of_mem_loopBody hv
      exact (hends edge hedge).2

end Workflow

end Workbench
