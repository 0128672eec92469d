import Workbench.Graph.Walk
import Workbench.Workflow.Basic

/-!
# Connectivity

A workflow runs as one unit, so its enabled nodes are to hang together. Edges
count in both directions and only between enabled nodes. A *group* is a set of
at least two nodes that hang together and with no others; single nodes are let
be. A workflow with more than one group is refused a run, with a message that
names the groups.
-/

namespace Workbench

namespace Arcs

/-- The walks that visit all of the given vertices, each from the first of them
that no earlier walk has seen. -/
def walks (arcs : Arcs Uuid) (seen : List Uuid) : List Uuid → List (List Uuid)
  | [] => []
  | start :: rest =>
      if seen.contains start then arcs.walks seen rest
      else
        let visited := arcs.walk (start :: seen) [start]
        visited :: arcs.walks (visited ++ seen) rest

end Arcs

namespace Workflow

def enabledNodes (workflow : Workflow) : List Node :=
  workflow.nodes.filter (·.enabled)

/-- The edges between enabled nodes, each as an arc in both directions. -/
def enabledArcs (workflow : Workflow) : Arcs Uuid :=
  let ids := workflow.enabledNodes.map (·.id)
  (workflow.edges.filter fun e => ids.contains e.source &&
    ids.contains e.target).flatMap
    fun e => [(e.source, e.target), (e.target, e.source)]

/-- The sets of enabled nodes that hang together, in the order of their first
nodes. -/
def components (workflow : Workflow) : List (List Uuid) :=
  workflow.enabledArcs.walks [] (workflow.enabledNodes.map (·.id))

/-- The components of at least two nodes, with the nodes in the order of the
workflow. -/
def groups (workflow : Workflow) : List (List Node) :=
  (workflow.components.filter (2 ≤ ·.length)).map fun ids =>
    workflow.enabledNodes.filter (ids.contains ·.id)

/-- What is said of a workflow that falls apart into the given groups. -/
def splitMessage (groups : List (List Node)) : String :=
  let names := groups.map fun group =>
    "[" ++ String.intercalate ", " (group.map (·.name)) ++ "]"
  s!"Workflow has {groups.length} disconnected subgraphs: " ++
    String.intercalate ", " names ++
    ". Connect them into a single graph or disable the unused nodes."

/-- What keeps the workflow from being one unit: nothing, or one message about
its groups. -/
def splits (workflow : Workflow) : List String :=
  let groups := workflow.groups
  if groups.length ≤ 1 then [] else [splitMessage groups]

end Workflow

/-- Why a run is refused. -/
structure RunRefused where
  messages : List String
deriving DecidableEq

def RunRefused.message (refused : RunRefused) : String :=
  "Run refused: " ++ String.intercalate "; " refused.messages

/-- Lets a workflow run if it is one unit. -/
def Workflow.runGate (workflow : Workflow) : Except RunRefused Unit :=
  match workflow.splits with
  | [] => .ok ()
  | messages => .error ⟨messages⟩

end Workbench
