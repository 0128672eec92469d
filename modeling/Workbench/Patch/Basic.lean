import Workbench.Workflow.Format

/-!
# Patches

A patch is a change of a workflow written down as data: nodes to add, to remove
and to replace, edges to add and to remove, and warnings for whoever applies it.
Applying a patch gives a candidate, which is not yet known to be a sound
workflow.

The nodes that stay keep their places, each replaced by its update if there is
one; of several updates of a node the last counts. The added nodes follow. An
update of a node that is not there, or not there any more, does nothing. Edges
are taken away and added as the patch says and never on their own: an edge that
loses its node is left in the candidate.
-/

namespace Workbench

structure Patch where
  addedNodes : List Node := []
  removedNodes : List Uuid := []
  updatedNodes : List Node := []
  addedEdges : List Edge := []
  removedEdges : List Edge := []
  warnings : List String := []
deriving DecidableEq

namespace Patch

/-- Whether the patch changes nothing; warnings do not count. -/
def isEmpty (patch : Patch) : Bool :=
  patch.addedNodes.isEmpty && patch.removedNodes.isEmpty &&
    patch.updatedNodes.isEmpty &&
    patch.addedEdges.isEmpty && patch.removedEdges.isEmpty

/-- The record that the patch has for a node: the last update with its
identifier. -/
def update? (patch : Patch) (id : Uuid) : Option Node :=
  patch.updatedNodes.reverse.find? (·.id == id)

/-- The node, or what the patch puts in its place. -/
def revise (patch : Patch) (node : Node) : Node :=
  (patch.update? node.id).getD node

/-- Whether the patch leaves a node of the identifier where it is. -/
def keepsNode (patch : Patch) (id : Uuid) : Bool :=
  !patch.removedNodes.contains id

def keepsEdge (patch : Patch) (edge : Edge) : Bool :=
  !patch.removedEdges.contains edge

def record : Record Patch where
  title := "struct Patch"
  types := [List Node, List Uuid, List Node, List Edge, List Edge, List String]
  fields :=
    .cons (.default "added_nodes" Node.codec.list []) <|
    .cons (.default "removed_node_ids" Uuid.codec.list []) <|
    .cons (.default "updated_nodes" Node.codec.list []) <|
    .cons (.default "added_edges" Edge.codec.list []) <|
    .cons (.default "removed_edges" Edge.codec.list []) <|
    .cons (.default "warnings" Codec.string.list []) .nil
  ofRow := fun (addedNodes, removedNodes, updatedNodes, addedEdges,
    removedEdges, warnings, ()) =>
    { addedNodes, removedNodes, updatedNodes, addedEdges, removedEdges, warnings }
  toRow p :=
    (p.addedNodes, p.removedNodes, p.updatedNodes, p.addedEdges, p.removedEdges,
      p.warnings, ())

def codec : Codec Patch := record.codec

/-- The patch that a text stands for. -/
def ofText (text : String) : Except Fault Patch := codec.ofText text

end Patch

/-- The workflow with a patch applied. -/
def Workflow.candidate (workflow : Workflow) (patch : Patch) : Workflow where
  id := workflow.id
  name := workflow.name
  nodes :=
    (workflow.nodes.filter (patch.keepsNode ·.id)).map patch.revise ++
      patch.addedNodes
  edges := workflow.edges.filter patch.keepsEdge ++ patch.addedEdges

end Workbench
