import Workbench.Graph.Walk
import Workbench.Loops.NodeSet
import Workbench.Workflow.Basic

/-!
# Loop bodies

The body of a loop is what a pass through the loop can visit: all that is
reached from the target of the loop's body edge along edges from any port,
without passing through the head of the loop or through the node that ends it.
The two themselves do not belong to the body; loops inside, with their ends, do.

Bodies are defined for every list of nodes and edges. A loop without a body edge
has an empty body, and a loop that nothing ends has all that is reached.
-/

namespace Workbench

namespace Workflow

/-- The first node of a loop's body: where the loop's first body edge leads. -/
def bodyEntry? (workflow : Workflow) (loopId : Uuid) : Option Uuid :=
  (workflow.edgeFrom? loopId (some .loopBody)).map (·.target)

/-- The node that bounds a loop: the first one that ends it. -/
def boundary? (workflow : Workflow) (loopId : Uuid) : Option Uuid :=
  (workflow.nodes.find? (·.closes? == some loopId)).map (·.id)

/-- The edges as arcs, without those that leave the boundary of the loop. -/
def arcsWithin (workflow : Workflow) (loopId : Uuid) : Arcs Uuid :=
  let boundary := workflow.boundary? loopId
  (workflow.edges.filter fun e => boundary != some e.source).map fun e =>
    (e.source, e.target)

/-- The order in which a walk from a loop's head visits the body and the
boundary. -/
def bodyWalk (workflow : Workflow) (loopId : Uuid) : List Uuid :=
  match workflow.bodyEntry? loopId with
  | none => []
  | some entry =>
      if entry = loopId then []
      else (workflow.arcsWithin loopId).walk [entry, loopId] [entry]

/-- The body of a loop, in the order of the walk. -/
def loopBody (workflow : Workflow) (loopId : Uuid) : NodeSet :=
  let boundary := workflow.boundary? loopId
  .ofList ((workflow.bodyWalk loopId).filter fun id => boundary != some id)

end Workflow

/-- The bodies of the loops of a workflow by the identifiers of the loops. -/
structure LoopBodies where
  bodies : List (Uuid × NodeSet)
deriving DecidableEq

namespace LoopBodies

def size (loops : LoopBodies) : Nat := loops.bodies.length

def isEmpty (loops : LoopBodies) : Bool := loops.bodies.isEmpty

/-- The body of a loop, if the identifier is that of a loop. -/
def body? (loops : LoopBodies) (loopId : Uuid) : Option NodeSet :=
  loops.bodies.lookup loopId

/-- Larger bodies come first, and of equally large ones the loop with the lesser
identifier. -/
def precedes (a b : Uuid × NodeSet) : Bool :=
  decide (b.2.size < a.2.size) || (a.2.size == b.2.size && !decide (b.1 < a.1))

/-- The loops whose bodies contain the node, the outermost first. A loop inside
another has the smaller body, so the size of the bodies orders them. -/
def enclosing (loops : LoopBodies) (node : Uuid) : List Uuid :=
  ((loops.bodies.filter (·.2.contains node)).mergeSort precedes).map (·.1)

/-- The loop with the smallest body that contains the node. -/
def innermost? (loops : LoopBodies) (node : Uuid) : Option Uuid :=
  (loops.enclosing node).getLast?

end LoopBodies

/-- The bodies of all loops of the workflow, in the order of the loops. -/
def Workflow.loopBodies (workflow : Workflow) : LoopBodies :=
  ⟨(NodeSet.ofList ((workflow.nodes.filter (·.isLoop)).map (·.id))).toList.map
    fun loopId => (loopId, workflow.loopBody loopId)⟩

end Workbench
