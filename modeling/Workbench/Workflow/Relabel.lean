import Workbench.Workflow.Basic

/-!
# Other identifiers for the same nodes

An identifier says nothing about its node; it only tells it from others and lets
edges and loop ends refer to it. So a workflow may be given other identifiers
throughout, as long as different ones stay different.
-/

namespace Workbench

/-- The step with the loop it ends, if it ends one, under another identifier. -/
def Step.mapIds (f : Uuid → Uuid) : Step → Step
  | .endLoop params => .endLoop { params with loopId := f params.loopId }
  | step => step

def Node.mapIds (f : Uuid → Uuid) (node : Node) : Node :=
  { node with id := f node.id, step := node.step.mapIds f }

def Edge.mapIds (f : Uuid → Uuid) (edge : Edge) : Edge :=
  { edge with source := f edge.source, target := f edge.target }

namespace Workflow

/-- The workflow with every node under another identifier, wherever it is
mentioned. -/
def mapIds (f : Uuid → Uuid) (workflow : Workflow) : Workflow :=
  { workflow with
    nodes := workflow.nodes.map (·.mapIds f)
    edges := workflow.edges.map (·.mapIds f) }

/-- The identifiers that the nodes and edges of a workflow mention. -/
def mentionedIds (workflow : Workflow) : List Uuid :=
  workflow.nodes.flatMap (fun node => node.id :: node.closes?.toList) ++
    workflow.edges.flatMap fun edge => [edge.source, edge.target]

end Workflow

end Workbench
