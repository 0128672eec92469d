import Workbench.Workflow.Basic

/-!
# Violations of structure

What a workflow must obey to be run: identifiers name one node each, edges
connect nodes that exist, leave from ports that their source has and share no
port, and loops and their ends come in pairs with a body between them.

The check reports every violation, in the order of nodes and edges. An edge that
is at fault by itself is reported once and takes no part in what is counted
afterwards: one that hangs in the air, and one that repeats an earlier edge.
-/

namespace Workbench

inductive Violation
  /-- A node with the identifier of an earlier one. -/
  | reusedId (node : Node)
  | missingSource (edge : Edge)
  | missingTarget (edge : Edge)
  | repeatedEdge (edge : Edge)
  /-- An edge from a port that its source does not have. -/
  | foreignPort (edge : Edge) (source : Node)
  /-- A port with more than one edge. -/
  | crowdedPort (node : Node) (port : Option Port)
  | endWithoutLoop (node : Node) (loopId : Uuid)
  /-- An end whose head is some other step. -/
  | endOfOther (node target : Node)
  /-- A loop that is not ended exactly once. -/
  | unpairedLoop (node : Node) (ends : Nat)
  | loopWithoutBody (node : Node)
deriving DecidableEq

namespace Violation

def quote (name : String) : String := "'" ++ name ++ "'"

/-- The name of a port, where one is needed for the port without a name too. -/
def portName : Option Port → String
  | some port => port.label
  | none => "unlabeled"

/-- The violation in words, with nodes called by the names they have in the
workflow. -/
def message (workflow : Workflow) : Violation → String
  | reusedId node =>
      s!"Node {quote node.name} reuses identifier {node.id} of another node"
  | missingSource edge =>
      s!"Edge {workflow.describeEdge edge quote} starts at missing node {edge.source}"
  | missingTarget edge =>
      s!"Edge {workflow.describeEdge edge quote} ends at missing node {edge.target}"
  | repeatedEdge edge => s!"Duplicate edge {workflow.describeEdge edge quote}"
  | foreignPort edge source =>
      s!"{source.step.displayName} node {quote source.name} has no " ++
        s!"{quote (portName edge.port)} output"
  | crowdedPort node port =>
      s!"Node {quote node.name} has more than one edge leaving its " ++
        s!"{quote (portName port)} output"
  | endWithoutLoop node loopId =>
      s!"EndLoop {quote node.name} references missing loop {loopId}"
  | endOfOther node target =>
      s!"EndLoop {quote node.name} references {quote target.name}, " ++
        "which is not a Loop"
  | unpairedLoop node ends =>
      s!"Loop {quote node.name} must have exactly one EndLoop, found {ends}"
  | loopWithoutBody node => s!"Loop {quote node.name} has no body edge"

end Violation

namespace Workflow

/-- The nodes whose identifier is among those already seen. -/
def reusedIds (seen : List Uuid) : List Node → List Violation
  | [] => []
  | node :: rest =>
      if seen.contains node.id then .reusedId node :: reusedIds seen rest
      else reusedIds (node.id :: seen) rest

/-- What is wrong with an edge by itself or because it repeats one before it. -/
def edgeViolation? (workflow : Workflow) (before : List Edge) (edge : Edge) :
    Option Violation :=
  match workflow.find? edge.source with
  | none => some (.missingSource edge)
  | some source =>
      if !workflow.contains edge.target then some (.missingTarget edge)
      else if before.contains edge then some (.repeatedEdge edge)
      else if !source.step.ports.contains edge.port
        then some (.foreignPort edge source)
      else none

/-- What is wrong with the edges one by one. -/
def edgeViolations (workflow : Workflow) (before : List Edge) :
    List Edge → List Violation
  | [] => []
  | edge :: rest =>
      (workflow.edgeViolation? before edge).toList ++
        workflow.edgeViolations (edge :: before) rest

/-- The edges between existing nodes, each once. -/
def soundEdges (workflow : Workflow) : List Edge :=
  (workflow.edges.filter fun e => workflow.contains e.source &&
    workflow.contains e.target).eraseDups

/-- The ports of nodes from which more than one edge leaves. -/
def crowdedPorts (workflow : Workflow) : List Violation :=
  let sound := workflow.soundEdges
  workflow.nodes.flatMap fun node =>
    (node.step.ports.filter fun port => 1 <
      sound.countP (·.leaves node.id port)).map
      (.crowdedPort node)

/-- What is wrong with a node as the head or the end of a loop. -/
def pairingViolations (workflow : Workflow) (node : Node) : List Violation :=
  match node.step with
  | .endLoop params =>
      match workflow.find? params.loopId with
      | none => [.endWithoutLoop node params.loopId]
      | some target => if target.isLoop then [] else [.endOfOther node target]
  | .loop _ =>
      let ends := (workflow.endsOf node.id).length
      (if ends = 1 then [] else [.unpairedLoop node ends]) ++
        (if (workflow.edgeFrom? node.id (some .loopBody)).isSome then []
        else [.loopWithoutBody node])
  | _ => []

/-- Every violation of structure. -/
def violations (workflow : Workflow) : List Violation :=
  reusedIds [] workflow.nodes ++ workflow.edgeViolations [] workflow.edges ++
    workflow.crowdedPorts ++ workflow.nodes.flatMap workflow.pairingViolations

/-- Every violation of structure in words. -/
def check (workflow : Workflow) : List String :=
  workflow.violations.map (·.message workflow)

end Workflow

end Workbench
