import Workbench.Workflow.Edge
import Workbench.Workflow.Node

/-!
# Workflows

A workflow is a list of nodes and a list of edges. The order of nodes is the
order of their insertion and means nothing to the run. Nothing here keeps
identifiers apart or edges attached to nodes: a look-up takes the first node
with the identifier.
-/

namespace Workbench

structure Workflow where
  id : Uuid
  name : String
  nodes : List Node := []
  edges : List Edge := []
deriving DecidableEq

namespace Workflow

/-- The name that a workflow has until it is given one. -/
def usualName : String := "New Workflow"

def find? (workflow : Workflow) (id : Uuid) : Option Node :=
  workflow.nodes.find? (·.id == id)

def contains (workflow : Workflow) (id : Uuid) : Bool :=
  workflow.nodes.any (·.id == id)

/-- The name of the node, or its identifier if there is no such node. -/
def nodeName (workflow : Workflow) (id : Uuid) : String :=
  match workflow.find? id with
  | some node => node.name
  | none => id.text

/-- The edges that leave the node. -/
def outgoing (workflow : Workflow) (id : Uuid) : List Edge :=
  workflow.edges.filter (·.source == id)

/-- The first edge that leaves from the port of the node. -/
def edgeFrom? (workflow : Workflow) (id : Uuid) (port : Option Port) :
    Option Edge :=
  workflow.edges.find? (·.leaves id port)

/-- The nodes that end the loop with the given head. -/
def endsOf (workflow : Workflow) (loopId : Uuid) : List Node :=
  workflow.nodes.filter (·.closes? == some loopId)

/-- The edge in words, by the names of its nodes: the arrow carries the label of
the port. -/
def describeEdge (workflow : Workflow) (edge : Edge)
    (showName : String → String) : String :=
  let arrow :=
    match edge.port with
    | some port => "-[" ++ port.label ++ "]->"
    | none => "->"
  showName (workflow.nodeName edge.source) ++ " " ++ arrow ++ " " ++
    showName (workflow.nodeName edge.target)

end Workflow

end Workbench
