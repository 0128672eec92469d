import Workbench.Loops.Body

/-!
# Outlines

A workflow as lines of text: its name, then its nodes, each indented by the
number of loops that it is in, then its edges.
-/

namespace Workbench.Workflow

/-- The line of a node. -/
def nodeLine (loops : LoopBodies) (node : Node) : String :=
  let depth := (loops.enclosing node.id).length + 1
  let size := ((loops.body? node.id).map (·.size)).getD 0
  let body := if node.isLoop then s!" body: {size} node(s)" else ""
  String.ofList (List.replicate (2 * depth) ' ') ++ node.name ++
    " [" ++ node.step.displayName ++ "]" ++ body ++
    (if node.enabled then "" else " (disabled)")

/-- The lines of the outline. -/
def outlineLines (workflow : Workflow) : List String :=
  let loops := workflow.loopBodies
  let title := s!"{workflow.name} ({workflow.nodes.length} nodes)"
  let heading := if workflow.edges.isEmpty then [] else ["Edges:"]
  title :: workflow.nodes.map (nodeLine loops) ++ heading ++
    workflow.edges.map fun e => "  " ++ workflow.describeEdge e fun name => name

/-- The outline of a workflow. -/
def outline (workflow : Workflow) : String :=
  String.intercalate "\n" workflow.outlineLines

end Workbench.Workflow
