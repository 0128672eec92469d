import Mathlib.Data.Fin.Rev
import Workbench.Patch.Basic
import Workbench.Proofs.Graph.Components
import Workbench.Proofs.Loops.NodeSet
import Workbench.Proofs.Workflow.Lookup
import Workbench.Workflow.Outline
import Workbench.Workflow.Relabel
import Workbench.Workflow.Violation

/-!
# Identifiers are only names

Identifiers are drawn at random, so nothing that is said of a workflow may
depend on which ones were drawn. With other identifiers, different ones for
different nodes, every look-up finds the same node or edge under its other name,
and what is computed by look-ups alone is carried along: loop bodies, the order
of their walks, candidates, and violations with all that they mention. What is
said in names of nodes stays as it is to the letter.

One thing does look at more of an identifier than whether it is the same: loops
with bodies of equal size are sorted by their identifiers. So the list of the
loops around a node may come out in another order, but an outline shows only how
long it is.
-/

namespace Workbench

/-! ## Sets, bodies, patches and violations with other identifiers -/

def NodeSet.mapIds (f : Uuid → Uuid) (hf : Function.Injective f)
    (set : NodeSet) : NodeSet :=
  ⟨set.toList.map f, set.nodup.map hf⟩

/-- Every loop under its other identifier with the members of its body under
theirs, in order. -/
def LoopBodies.mapIds (f : Uuid → Uuid) (hf : Function.Injective f)
    (loops : LoopBodies) : LoopBodies :=
  ⟨loops.bodies.map (Prod.map f (NodeSet.mapIds f hf))⟩

def Patch.mapIds (f : Uuid → Uuid) (patch : Patch) : Patch where
  addedNodes := patch.addedNodes.map (·.mapIds f)
  removedNodes := patch.removedNodes.map f
  updatedNodes := patch.updatedNodes.map (·.mapIds f)
  addedEdges := patch.addedEdges.map (·.mapIds f)
  removedEdges := patch.removedEdges.map (·.mapIds f)
  warnings := patch.warnings

def Violation.mapIds (f : Uuid → Uuid) : Violation → Violation
  | reusedId node => reusedId (node.mapIds f)
  | missingSource edge => missingSource (edge.mapIds f)
  | missingTarget edge => missingTarget (edge.mapIds f)
  | repeatedEdge edge => repeatedEdge (edge.mapIds f)
  | foreignPort edge source => foreignPort (edge.mapIds f) (source.mapIds f)
  | crowdedPort node port => crowdedPort (node.mapIds f) port
  | endWithoutLoop node loopId => endWithoutLoop (node.mapIds f) (f loopId)
  | endOfOther node target => endOfOther (node.mapIds f) (target.mapIds f)
  | unpairedLoop node ends => unpairedLoop (node.mapIds f) ends
  | loopWithoutBody node => loopWithoutBody (node.mapIds f)

variable {f : Uuid → Uuid}

/-! ## Steps, nodes and edges -/

@[simp]
theorem Step.ports_mapIds (step : Step) :
    (step.mapIds f).ports = step.ports := by
  cases step <;> rfl

@[simp]
theorem Step.displayName_mapIds (step : Step) :
    (step.mapIds f).displayName = step.displayName := by
  cases step <;> rfl

@[simp]
theorem Node.isLoop_mapIds (node : Node) :
    (node.mapIds f).isLoop = node.isLoop := by
  unfold Node.isLoop Node.mapIds
  cases node.step <;> rfl

@[simp]
theorem Node.closes?_mapIds (node : Node) :
    (node.mapIds f).closes? = node.closes?.map f := by
  unfold Node.closes? Node.mapIds
  cases node.step <;> rfl

section

variable (hf : Function.Injective f)

include hf

theorem Edge.mapIds_injective : Function.Injective (Edge.mapIds f) := by
  intro a b h
  obtain ⟨source, target, port⟩ := a
  obtain ⟨source', target', port'⟩ := b
  simp only [Edge.mapIds, Edge.mk.injEq] at h ⊢
  exact ⟨hf h.1, hf h.2.1, h.2.2⟩

theorem Edge.leaves_mapIds (edge : Edge) (id : Uuid) (port : Option Port) :
    (edge.mapIds f).leaves (f id) port = edge.leaves id port := by
  have hsource : ((edge.mapIds f).source == f id) = (edge.source == id) :=
    hf.beq_eq
  rw [leaves, leaves, hsource]
  rfl

theorem map_beq_some (found : Option Uuid) (id : Uuid) :
    (found.map f == some (f id)) = (found == some id) :=
  (Option.map_injective hf).beq_eq (a := found) (b := some id)

theorem contains_map_edges (edges : List Edge) (edge : Edge) :
    (edges.map (·.mapIds f)).contains (edge.mapIds f) =
      edges.contains edge := by
  rw [Bool.eq_iff_iff, List.contains_iff_mem, List.contains_iff_mem,
    List.mem_map_of_injective (Edge.mapIds_injective hf)]

end

/-! ## Sets of nodes -/

namespace NodeSet

variable (hf : Function.Injective f)

include hf

theorem contains_mapIds (set : NodeSet) (id : Uuid) :
    (set.mapIds f hf).contains (f id) = set.contains id := by
  rw [Bool.eq_iff_iff, contains_iff, contains_iff]
  exact List.mem_map_of_injective hf

theorem toList_ofList_map (ids : List Uuid) :
    (ofList (ids.map f)).toList = (ofList ids).toList.map f := by
  rw [toList_ofList, toList_ofList, eraseDups_map hf]

theorem ofList_map (ids : List Uuid) :
    ofList (ids.map f) = (ofList ids).mapIds f hf :=
  eq_of_toList_eq (toList_ofList_map hf ids)

end NodeSet

namespace LoopBodies

/-- There are so many loops around a node as bodies contain it. -/
theorem length_enclosing (loops : LoopBodies) (node : Uuid) :
    (loops.enclosing node).length =
      loops.bodies.countP (·.2.contains node) := by
  rw [enclosing, List.length_map, List.length_mergeSort,
    List.countP_eq_length_filter]

variable (hf : Function.Injective f)

include hf

theorem body?_mapIds (loops : LoopBodies) (loopId : Uuid) :
    (loops.mapIds f hf).body? (f loopId) =
      (loops.body? loopId).map (·.mapIds f hf) := by
  obtain ⟨bodies⟩ := loops
  unfold body? LoopBodies.mapIds
  induction bodies with
  | nil => rfl
  | cons entry rest ih =>
      have hid : (f loopId == (Prod.map f (NodeSet.mapIds f hf) entry).1) =
          (loopId == entry.1) :=
        hf.beq_eq
      rw [List.map_cons, List.lookup_cons, List.lookup_cons, hid]
      split
      · rfl
      · exact ih

theorem length_enclosing_mapIds (loops : LoopBodies) (node : Uuid) :
    ((loops.mapIds f hf).enclosing (f node)).length =
      (loops.enclosing node).length := by
  have hcontains : (fun entry : Uuid × NodeSet => entry.2.contains (f node)) ∘
      Prod.map f (NodeSet.mapIds f hf) = fun entry => entry.2.contains node :=
    funext fun entry => NodeSet.contains_mapIds hf entry.2 node
  rw [length_enclosing, length_enclosing, LoopBodies.mapIds,
    List.countP_map, hcontains]

end LoopBodies

namespace Workflow

variable {workflow : Workflow}

theorem nodes_mapIds :
    (workflow.mapIds f).nodes = workflow.nodes.map (·.mapIds f) :=
  rfl

theorem edges_mapIds :
    (workflow.mapIds f).edges = workflow.edges.map (·.mapIds f) :=
  rfl

theorem enabledNodes_mapIds :
    (workflow.mapIds f).enabledNodes =
      workflow.enabledNodes.map (·.mapIds f) := by
  rw [enabledNodes, nodes_mapIds, List.filter_map]
  rfl

section

variable (hf : Function.Injective f)

include hf

/-! ## Look-ups -/

theorem find?_mapIds (id : Uuid) :
    (workflow.mapIds f).find? (f id) =
      (workflow.find? id).map (·.mapIds f) := by
  have hid : (fun node : Node => node.id == f id) ∘ Node.mapIds f =
      fun node => node.id == id :=
    funext fun node => hf.beq_eq
  rw [find?, nodes_mapIds, List.find?_map, hid]
  rfl

theorem contains_mapIds (id : Uuid) :
    (workflow.mapIds f).contains (f id) = workflow.contains id := by
  have hid : (fun node : Node => node.id == f id) ∘ Node.mapIds f =
      fun node => node.id == id :=
    funext fun node => hf.beq_eq
  rw [contains, nodes_mapIds, List.any_map, hid]
  rfl

theorem edgeFrom?_mapIds (id : Uuid) (port : Option Port) :
    (workflow.mapIds f).edgeFrom? (f id) port =
      (workflow.edgeFrom? id port).map (·.mapIds f) := by
  have hleaves : (fun edge : Edge => edge.leaves (f id) port) ∘ Edge.mapIds f =
      fun edge => edge.leaves id port :=
    funext fun edge => edge.leaves_mapIds hf id port
  rw [edgeFrom?, edges_mapIds, List.find?_map, hleaves]
  rfl

/-- The test for the ends of a loop, under the other identifiers. -/
theorem closes_comp_mapIds (loopId : Uuid) :
    (fun node : Node => node.closes? == some (f loopId)) ∘ Node.mapIds f =
      fun node => node.closes? == some loopId := by
  refine funext fun node => ?_
  rw [Function.comp_apply, Node.closes?_mapIds, map_beq_some hf]

theorem endsOf_mapIds (loopId : Uuid) :
    (workflow.mapIds f).endsOf (f loopId) =
      (workflow.endsOf loopId).map (·.mapIds f) := by
  rw [endsOf, nodes_mapIds, List.filter_map, closes_comp_mapIds hf]
  rfl

/-! ## Loop bodies -/

theorem bodyEntry?_mapIds (loopId : Uuid) :
    bodyEntry? (workflow.mapIds f) (f loopId) =
      f <$> workflow.bodyEntry? loopId := by
  unfold bodyEntry?
  rw [edgeFrom?_mapIds hf, Option.map_eq_map, Option.map_map, Option.map_map]
  rfl

theorem boundary?_mapIds (loopId : Uuid) :
    (workflow.mapIds f).boundary? (f loopId) =
      (workflow.boundary? loopId).map f := by
  rw [boundary?, nodes_mapIds, List.find?_map, closes_comp_mapIds hf, boundary?,
    Option.map_map, Option.map_map]
  rfl

theorem arcsWithin_mapIds (loopId : Uuid) :
    (workflow.mapIds f).arcsWithin (f loopId) =
      (workflow.arcsWithin loopId).relabel f := by
  have hwithin :
      (fun edge : Edge =>
        (workflow.boundary? loopId).map f != some edge.source) ∘
          Edge.mapIds f =
      fun edge => workflow.boundary? loopId != some edge.source :=
    funext fun edge => congrArg not (map_beq_some hf _ edge.source)
  rw [arcsWithin, boundary?_mapIds hf, edges_mapIds, List.filter_map, hwithin,
    arcsWithin, Arcs.relabel, List.map_map, List.map_map]
  rfl

theorem bodyWalk_mapIds (loopId : Uuid) :
    (workflow.mapIds f).bodyWalk (f loopId) =
      (workflow.bodyWalk loopId).map f := by
  unfold bodyWalk
  rw [bodyEntry?_mapIds hf]
  cases workflow.bodyEntry? loopId with
  | none => rfl
  | some entry =>
      simp only [Option.map_eq_map, Option.map_some, hf.eq_iff]
      split
      · rfl
      · rw [arcsWithin_mapIds hf]
        exact Arcs.walk_relabel hf [entry, loopId] [entry]

theorem loopBody_mapIds (loopId : Uuid) :
    (workflow.mapIds f).loopBody (f loopId) =
      (workflow.loopBody loopId).mapIds f hf := by
  have hbound : (fun id => (workflow.boundary? loopId).map f != some id) ∘ f =
      fun id => workflow.boundary? loopId != some id :=
    funext fun id => congrArg not (map_beq_some hf _ id)
  rw [loopBody, boundary?_mapIds hf, bodyWalk_mapIds hf, List.filter_map,
    hbound, NodeSet.ofList_map hf]
  rfl

theorem loopBodies_mapIds :
    (workflow.mapIds f).loopBodies = workflow.loopBodies.mapIds f hf := by
  have hloops : (fun node : Node => node.isLoop) ∘ Node.mapIds f =
      fun node => node.isLoop :=
    funext fun node => node.isLoop_mapIds
  have hids : ((workflow.mapIds f).nodes.filter (·.isLoop)).map (·.id) =
      ((workflow.nodes.filter (·.isLoop)).map (·.id)).map f := by
    rw [nodes_mapIds, List.filter_map, hloops, List.map_map, List.map_map]
    rfl
  unfold loopBodies LoopBodies.mapIds
  rw [hids, NodeSet.toList_ofList_map hf, List.map_map, List.map_map]
  congr 1
  refine List.map_congr_left fun loopId _ => ?_
  exact Prod.ext rfl (loopBody_mapIds hf loopId)

/-! ## Groups -/

theorem enabledArcs_mapIds :
    (workflow.mapIds f).enabledArcs = workflow.enabledArcs.relabel f := by
  have hids : (workflow.mapIds f).enabledNodes.map (·.id) =
      (workflow.enabledNodes.map (·.id)).map f := by
    rw [enabledNodes_mapIds, List.map_map, List.map_map]
    rfl
  have hcontains : ∀ id,
      ((workflow.enabledNodes.map (·.id)).map f).contains (f id) =
        (workflow.enabledNodes.map (·.id)).contains id := by
    intro id
    rw [Bool.eq_iff_iff, List.contains_iff_mem, List.contains_iff_mem,
      List.mem_map_of_injective hf]
  have hends : (fun edge : Edge =>
        ((workflow.enabledNodes.map (·.id)).map f).contains edge.source &&
          ((workflow.enabledNodes.map (·.id)).map f).contains edge.target) ∘
            Edge.mapIds f =
      fun edge => (workflow.enabledNodes.map (·.id)).contains edge.source &&
        (workflow.enabledNodes.map (·.id)).contains edge.target :=
    funext fun edge =>
      congrArg₂ and (hcontains edge.source) (hcontains edge.target)
  unfold enabledArcs Arcs.relabel
  simp only [hids, edges_mapIds, List.filter_map, hends, List.flatMap_map,
    List.map_flatMap]
  rfl

theorem components_mapIds :
    (workflow.mapIds f).components = workflow.components.map (·.map f) := by
  have hstarts : (workflow.enabledNodes.map (·.mapIds f)).map (·.id) =
      (workflow.enabledNodes.map (·.id)).map f := by
    rw [List.map_map, List.map_map]
    rfl
  rw [components, enabledArcs_mapIds hf, enabledNodes_mapIds, hstarts]
  exact Arcs.walks_relabel hf [] _

theorem groups_mapIds :
    (workflow.mapIds f).groups = workflow.groups.map (·.map (·.mapIds f)) := by
  have hlarge : (fun ids : List Uuid => decide (2 ≤ ids.length)) ∘ List.map f =
      fun ids => decide (2 ≤ ids.length) := by
    refine funext fun ids => ?_
    rw [Function.comp_apply, List.length_map]
  have hmembers : ∀ ids : List Uuid,
      (fun node : Node => (ids.map f).contains node.id) ∘ Node.mapIds f =
        fun node => ids.contains node.id := by
    refine fun ids => funext fun node => ?_
    rw [Bool.eq_iff_iff, Function.comp_apply, List.contains_iff_mem,
      List.contains_iff_mem]
    exact List.mem_map_of_injective hf
  unfold groups
  rw [components_mapIds hf, enabledNodes_mapIds, List.filter_map, hlarge,
    List.map_map, List.map_map]
  refine List.map_congr_left fun ids _ => ?_
  rw [Function.comp_apply, Function.comp_apply, List.filter_map, hmembers]

theorem splits_mapIds : (workflow.mapIds f).splits = workflow.splits := by
  have hnames : splitMessage (workflow.groups.map (·.map (·.mapIds f))) =
      splitMessage workflow.groups := by
    delta splitMessage
    simp only [List.map_map, List.length_map, Function.comp_def]
    rfl
  unfold splits
  simp only [groups_mapIds hf, List.length_map, hnames]

/-! ## Violations -/

theorem reusedIds_mapIds (seen : List Uuid) (nodes : List Node) :
    reusedIds (seen.map f) (nodes.map (·.mapIds f)) =
      (reusedIds seen nodes).map (·.mapIds f) := by
  induction nodes generalizing seen with
  | nil => rfl
  | cons node rest ih =>
      have hseen : (seen.map f).contains (node.mapIds f).id =
          seen.contains node.id := by
        rw [Bool.eq_iff_iff, List.contains_iff_mem, List.contains_iff_mem]
        exact List.mem_map_of_injective hf
      rw [List.map_cons, reusedIds, reusedIds, hseen]
      split
      · rw [ih, List.map_cons]
        rfl
      · exact ih (node.id :: seen)

theorem edgeViolation?_mapIds (before : List Edge) (edge : Edge) :
    (workflow.mapIds f).edgeViolation? (before.map (·.mapIds f))
        (edge.mapIds f) =
      (workflow.edgeViolation? before edge).map (·.mapIds f) := by
  have hsource : (workflow.mapIds f).find? (edge.mapIds f).source =
      (workflow.find? edge.source).map (·.mapIds f) :=
    find?_mapIds hf edge.source
  have htarget : (workflow.mapIds f).contains (edge.mapIds f).target =
      workflow.contains edge.target :=
    contains_mapIds hf edge.target
  unfold edgeViolation?
  rw [hsource, htarget, contains_map_edges hf]
  cases workflow.find? edge.source with
  | none => rfl
  | some source =>
      have hports : (source.mapIds f).step.ports.contains (edge.mapIds f).port =
          source.step.ports.contains edge.port :=
        congrArg (List.contains · edge.port) source.step.ports_mapIds
      simp only [Option.map_some, hports]
      split
      · rfl
      · split
        · rfl
        · split <;> rfl

theorem edgeViolations_mapIds (workflow : Workflow) (before edges : List Edge) :
    (workflow.mapIds f).edgeViolations (before.map (·.mapIds f))
        (edges.map (·.mapIds f)) =
      (workflow.edgeViolations before edges).map (·.mapIds f) := by
  induction edges generalizing before with
  | nil => rfl
  | cons edge rest ih =>
      rw [List.map_cons, edgeViolations, edgeViolations,
        edgeViolation?_mapIds hf, ← List.map_cons, ih, List.map_append,
        Option.toList_map]

theorem soundEdges_mapIds :
    (workflow.mapIds f).soundEdges = workflow.soundEdges.map (·.mapIds f) := by
  have hends : (fun edge : Edge => (workflow.mapIds f).contains edge.source &&
        (workflow.mapIds f).contains edge.target) ∘ Edge.mapIds f =
      fun edge => workflow.contains edge.source &&
        workflow.contains edge.target :=
    funext fun edge =>
      congrArg₂ and (contains_mapIds hf edge.source)
        (contains_mapIds hf edge.target)
  unfold soundEdges
  rw [edges_mapIds, List.filter_map, hends,
    eraseDups_map (Edge.mapIds_injective hf)]

theorem crowdedPorts_mapIds :
    (workflow.mapIds f).crowdedPorts =
      workflow.crowdedPorts.map (·.mapIds f) := by
  unfold crowdedPorts
  rw [nodes_mapIds, List.flatMap_map, List.map_flatMap]
  refine List.flatMap_congr fun node _ => ?_
  have hleaves : ∀ port,
      (fun edge : Edge => edge.leaves (node.mapIds f).id port) ∘ Edge.mapIds f =
        fun edge => edge.leaves node.id port :=
    fun port => funext fun edge => edge.leaves_mapIds hf node.id port
  have hports : (node.mapIds f).step.ports = node.step.ports :=
    node.step.ports_mapIds
  simp only [soundEdges_mapIds hf, hports, List.countP_map, hleaves,
    List.map_map]
  rfl

theorem pairingViolations_mapIds (node : Node) :
    (workflow.mapIds f).pairingViolations (node.mapIds f) =
      (workflow.pairingViolations node).map (·.mapIds f) := by
  have hstep : (node.mapIds f).step = node.step.mapIds f := rfl
  unfold pairingViolations
  rw [hstep]
  cases node.step with
  | endLoop params =>
      simp only [Step.mapIds, find?_mapIds hf]
      cases workflow.find? params.loopId with
      | none => rfl
      | some target =>
          simp only [Option.map_some, Node.isLoop_mapIds]
          split <;> rfl
  | loop params =>
      have hends : ((workflow.mapIds f).endsOf (node.mapIds f).id).length =
          (workflow.endsOf node.id).length :=
        (congrArg List.length (endsOf_mapIds hf node.id)).trans
          (List.length_map _)
      have hbody :
          ((workflow.mapIds f).edgeFrom? (node.mapIds f).id
              (some .loopBody)).isSome =
            (workflow.edgeFrom? node.id (some .loopBody)).isSome :=
        (congrArg Option.isSome (edgeFrom?_mapIds hf node.id _)).trans
          Option.isSome_map
      simp only [Step.mapIds, hends, hbody, List.map_append]
      congr 1
      · split <;> rfl
      · split <;> rfl
  | _ => rfl

theorem violations_mapIds :
    (workflow.mapIds f).violations = workflow.violations.map (·.mapIds f) := by
  have hreused := reusedIds_mapIds hf [] workflow.nodes
  have hfaults := edgeViolations_mapIds hf workflow [] workflow.edges
  rw [List.map_nil] at hreused hfaults
  unfold violations
  rw [nodes_mapIds, edges_mapIds, hreused, hfaults, crowdedPorts_mapIds hf,
    List.flatMap_map, List.map_append, List.map_append, List.map_append,
    List.map_flatMap]
  congr 1
  exact List.flatMap_congr fun node _ => pairingViolations_mapIds hf node

/-! ## Candidates -/

theorem revise_mapIds (patch : Patch) (node : Node) :
    (patch.mapIds f).revise (node.mapIds f) = (patch.revise node).mapIds f := by
  have hid :
      (fun update : Node => update.id == (node.mapIds f).id) ∘ Node.mapIds f =
        fun update => update.id == node.id :=
    funext fun update => hf.beq_eq
  unfold Patch.revise Patch.update? Patch.mapIds
  rw [← List.map_reverse, List.find?_map, hid]
  cases patch.updatedNodes.reverse.find? (·.id == node.id) <;> rfl

theorem candidate_mapIds (patch : Patch) :
    (workflow.mapIds f).candidate (patch.mapIds f) =
      (workflow.candidate patch).mapIds f := by
  have hkept :
      (fun node : Node => (patch.mapIds f).keepsNode node.id) ∘ Node.mapIds f =
        fun node => patch.keepsNode node.id := by
    refine funext fun node => congrArg not ?_
    rw [Bool.eq_iff_iff, List.contains_iff_mem, List.contains_iff_mem]
    exact List.mem_map_of_injective hf
  have hedges : (patch.mapIds f).keepsEdge ∘ Edge.mapIds f = patch.keepsEdge :=
    funext fun edge =>
      congrArg not (contains_map_edges hf patch.removedEdges edge)
  have hrevised : (patch.mapIds f).revise ∘ Node.mapIds f =
      Node.mapIds f ∘ patch.revise :=
    funext fun node => revise_mapIds hf patch node
  unfold candidate mapIds
  simp only [List.filter_map, hkept, hedges, List.map_map, hrevised,
    List.map_append]
  rfl

/-! ## Outlines -/

theorem nodeLine_mapIds (loops : LoopBodies) (node : Node) :
    nodeLine (loops.mapIds f hf) (node.mapIds f) = nodeLine loops node := by
  have hdepth : ((loops.mapIds f hf).enclosing (node.mapIds f).id).length =
      (loops.enclosing node.id).length :=
    LoopBodies.length_enclosing_mapIds hf loops node.id
  have hsize : ((loops.mapIds f hf).body? (node.mapIds f).id).map (·.size) =
      (loops.body? node.id).map (·.size) := by
    have hbody : (loops.mapIds f hf).body? (node.mapIds f).id =
        (loops.body? node.id).map (·.mapIds f hf) :=
      LoopBodies.body?_mapIds hf loops node.id
    rw [hbody, Option.map_map]
    exact congrArg (Option.map · _) (funext fun body => List.length_map f)
  have hstep : (node.mapIds f).step.displayName = node.step.displayName :=
    node.step.displayName_mapIds
  delta nodeLine
  simp only [hdepth, hsize, hstep, Node.isLoop_mapIds]
  rfl

/-- A node that exists is called by its name, which stays. -/
theorem nodeName_mapIds {id : Uuid} (h : workflow.contains id = true) :
    (workflow.mapIds f).nodeName (f id) = workflow.nodeName id := by
  obtain ⟨node, hfind⟩ := exists_find?_iff.2 (contains_iff.1 h)
  rw [nodeName, find?_mapIds hf, nodeName, hfind]
  rfl

theorem outline_mapIds
    (hends : ∀ edge ∈ workflow.edges, workflow.contains edge.source = true ∧
      workflow.contains edge.target = true) :
    (workflow.mapIds f).outline = workflow.outline := by
  have hnodes :
      (workflow.mapIds f).nodes.map (nodeLine (workflow.mapIds f).loopBodies) =
        workflow.nodes.map (nodeLine workflow.loopBodies) := by
    rw [loopBodies_mapIds hf, nodes_mapIds, List.map_map]
    exact List.map_congr_left fun node _ =>
      nodeLine_mapIds hf workflow.loopBodies node
  have hedges : ((workflow.mapIds f).edges.map fun edge =>
        "  " ++ (workflow.mapIds f).describeEdge edge fun name => name) =
      workflow.edges.map fun edge =>
        "  " ++ workflow.describeEdge edge fun name => name := by
    rw [edges_mapIds, List.map_map]
    refine List.map_congr_left fun edge hedge => ?_
    have hsource : (workflow.mapIds f).nodeName (edge.mapIds f).source =
        workflow.nodeName edge.source := nodeName_mapIds hf (hends edge hedge).1
    have htarget : (workflow.mapIds f).nodeName (edge.mapIds f).target =
        workflow.nodeName edge.target := nodeName_mapIds hf (hends edge hedge).2
    simp only [Function.comp_apply, describeEdge, hsource, htarget]
    rfl
  have hlength : (workflow.mapIds f).nodes.length = workflow.nodes.length :=
    List.length_map _
  have hempty : (workflow.mapIds f).edges.isEmpty = workflow.edges.isEmpty :=
    List.isEmpty_map
  unfold outline outlineLines
  simp only [hnodes, hedges, hlength, hempty]
  rfl

end

/-- With other identifiers, different ones for different nodes, a workflow has
the same loop bodies in the same order, falls apart in the same words, violates
the same rules in the same places, and is patched in the same way by a patch
with the same other identifiers. Its outline stays as it is to the letter if no
edge hangs in the air. -/
theorem mapIds_alike (hf : Function.Injective f) (workflow : Workflow)
    (patch : Patch) :
    (workflow.mapIds f).loopBodies = workflow.loopBodies.mapIds f hf ∧
    (workflow.mapIds f).splits = workflow.splits ∧
    (workflow.mapIds f).violations = workflow.violations.map (·.mapIds f) ∧
    ((workflow.mapIds f).check = [] ↔ workflow.check = []) ∧
    (workflow.mapIds f).candidate (patch.mapIds f) =
      (workflow.candidate patch).mapIds f ∧
    ((∀ edge ∈ workflow.edges,
        workflow.contains edge.source = true ∧
          workflow.contains edge.target = true) →
      (workflow.mapIds f).outline = workflow.outline) := by
  refine ⟨loopBodies_mapIds hf, splits_mapIds hf, violations_mapIds hf, ?_,
    candidate_mapIds hf patch, outline_mapIds hf⟩
  unfold check
  rw [List.map_eq_nil_iff, List.map_eq_nil_iff, violations_mapIds hf,
    List.map_eq_nil_iff]

/-! ## Loops that change places -/

/-- The identifier with every digit turned into its opposite, so that the order
turns around. -/
def opposite (id : Uuid) : Uuid :=
  ⟨id.digits.map Fin.rev, by rw [List.length_map, id.length_digits]⟩

theorem opposite_injective : Function.Injective opposite := by
  intro a b h
  obtain ⟨digits, _⟩ := a
  obtain ⟨others, _⟩ := b
  simp only [opposite, Uuid.mk.injEq] at h ⊢
  exact List.map_injective_iff.2 Fin.rev_injective h

/-- Two loops that share their body, and an action on its own. -/
def sharedBody : Workflow where
  id := .ofNat 0
  name := "shared body"
  nodes :=
    [{ id := .ofNat 1, name := "one"
       step := .loop { exitCondition := ⟨"x", .isEmpty, .null⟩ } },
      { id := .ofNat 2, name := "two"
        step := .loop { exitCondition := ⟨"x", .isEmpty, .null⟩ } },
      { id := .ofNat 3, name := "both", step := .typeText {} },
      { id := .ofNat 4, name := "none", step := .typeText {}, enabled := false }]
  edges :=
    [⟨.ofNat 1, .ofNat 3, some .loopBody⟩, ⟨.ofNat 2, .ofNat 3, some .loopBody⟩]

/-- The action is taken out, and the shared one is renamed. -/
def sharedBodyPatch : Patch where
  removedNodes := [.ofNat 4]
  updatedNodes := [{ id := .ofNat 3, name := "shared", step := .typeText {} }]

/-- The identifiers of the two loops around the shared action change their
order. -/
theorem sharedBody_alike :
    (.ofNat 1 < Uuid.ofNat 2 ∧ opposite (.ofNat 2) < opposite (.ofNat 1)) ∧
      (sharedBody.loopBodies.enclosing (.ofNat 3)).length = 2 ∧
      (sharedBody.mapIds opposite).loopBodies =
        sharedBody.loopBodies.mapIds opposite opposite_injective ∧
      (sharedBody.mapIds opposite).check ≠ [] ∧
      (sharedBody.mapIds opposite).candidate (sharedBodyPatch.mapIds opposite) =
        (sharedBody.candidate sharedBodyPatch).mapIds opposite ∧
      (sharedBody.mapIds opposite).outline = sharedBody.outline := by
  obtain ⟨hbodies, -, -, hcheck, hcandidate, houtline⟩ :=
    mapIds_alike opposite_injective sharedBody sharedBodyPatch
  have hrejected : sharedBody.check ≠ [] := by decide +kernel
  have hlength : (sharedBody.loopBodies.enclosing (.ofNat 3)).length = 2 := by
    rw [LoopBodies.length_enclosing]
    decide +kernel
  exact ⟨by decide +kernel, hlength, hbodies, mt hcheck.1 hrejected, hcandidate,
    houtline (by decide +kernel)⟩

end Workflow

end Workbench
