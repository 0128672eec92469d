import Workbench.Workflow.Basic

/-!
# Editing operations

The operations by which a workflow is built and changed. Each says in its result
what it found. An edge is only accepted between nodes that exist, a port carries
one edge at most, and a node that is removed takes its edges along; so none of
these operations leaves an edge hanging in the air.
-/

namespace Workbench.Workflow

/-- Appends a node, whatever its identifier. -/
def addNode (workflow : Workflow) (node : Node) : Workflow :=
  { workflow with nodes := workflow.nodes ++ [node] }

/-- Whether both ends of an edge are nodes of the workflow. -/
def admits (workflow : Workflow) (edge : Edge) : Bool :=
  workflow.contains edge.source && workflow.contains edge.target

/-- Adds an edge in place of the one that left from the same port. An edge to or
from an unknown node is refused. -/
def addEdge (workflow : Workflow) (edge : Edge) : Bool × Workflow :=
  if workflow.admits edge then
    (true,
      { workflow with
        edges :=
          workflow.edges.filter (!·.leaves edge.source edge.port) ++ [edge] })
  else (false, workflow)

/-- Appends an edge without looking at the nodes or at the other edges. -/
def pushEdge (workflow : Workflow) (edge : Edge) : Workflow :=
  { workflow with edges := workflow.edges ++ [edge] }

/-- Removes an edge; says whether it was there. -/
def removeEdge (workflow : Workflow) (edge : Edge) : Bool × Workflow :=
  (workflow.edges.contains edge,
    { workflow with edges := workflow.edges.filter (· != edge) })

/-- Removes the first node with the identifier and every edge that touches
it. -/
def removeNode (workflow : Workflow) (id : Uuid) : Option Node × Workflow :=
  match workflow.find? id with
  | none => (none, workflow)
  | some node =>
      (some node,
        { workflow with
          nodes := workflow.nodes.eraseP (·.id == id)
          edges := workflow.edges.filter (!·.touches id) })

/-- Changes the first node with the identifier. -/
def modifyFirst (id : Uuid) (change : Node → Node) : List Node → List Node
  | [] => []
  | node :: rest =>
      if node.id == id then change node :: rest
      else node :: modifyFirst id change rest

/-- Changes the first node with the identifier; says whether there was one. -/
def modifyNode (workflow : Workflow) (id : Uuid) (change : Node → Node) :
    Bool × Workflow :=
  (workflow.contains id,
    { workflow with nodes := modifyFirst id change workflow.nodes })

/-- Puts a node in the place of the first one with its identifier; says whether
there was one. -/
def updateNode (workflow : Workflow) (node : Node) : Bool × Workflow :=
  workflow.modifyNode node.id fun _ => node

def rename (workflow : Workflow) (name : String) : Workflow :=
  { workflow with name }

/-- Adds the head and the end of a loop, of the given identifiers, and the edge
back from the end to the head. The body is left for later. -/
def addLoop (workflow : Workflow) (name : String) (loop : Loop)
    (loopId endId : Uuid) : Workflow :=
  let workflow := workflow.addNode { id := loopId, name, step := .loop loop }
  let workflow :=
    workflow.addNode
      { id := endId, name := "End " ++ name, step := .endLoop { loopId } }
  (workflow.addEdge { source := endId, target := loopId }).2

end Workbench.Workflow
