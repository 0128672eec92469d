import Workbench.Command.Arguments
import Workbench.Command.Generate
import Workbench.Command.Workflow
import Workbench.Duration
import Workbench.Files
import Workbench.Generate
import Workbench.Graph.Connectivity
import Workbench.Graph.Walk
import Workbench.Json.Codec
import Workbench.Json.Document
import Workbench.Json.Fault
import Workbench.Json.Lexeme
import Workbench.Json.Number
import Workbench.Json.Record
import Workbench.Json.Render
import Workbench.Json.Scan
import Workbench.Json.Tree
import Workbench.Json.Variant
import Workbench.Loops.Body
import Workbench.Loops.NodeSet
import Workbench.Main
import Workbench.Number.Binary64
import Workbench.Number.Shortest
import Workbench.Patch.Basic
import Workbench.Patch.Merge
import Workbench.Proofs.Command.Merge
import Workbench.Proofs.Files
import Workbench.Proofs.Generate.Guarded
import Workbench.Proofs.Generate.Nested
import Workbench.Proofs.Generate.Part
import Workbench.Proofs.Generate.Sound
import Workbench.Proofs.Generate.Traced
import Workbench.Proofs.Graph.Components
import Workbench.Proofs.Graph.Discovery
import Workbench.Proofs.Graph.Groups
import Workbench.Proofs.Graph.Reach
import Workbench.Proofs.Graph.Worklist
import Workbench.Proofs.Json.Bounded
import Workbench.Proofs.Json.Faithful
import Workbench.Proofs.Json.Loose
import Workbench.Proofs.Json.Nesting
import Workbench.Proofs.Json.Numerals
import Workbench.Proofs.Json.Regular
import Workbench.Proofs.Json.Strings
import Workbench.Proofs.Json.Written
import Workbench.Proofs.Loops.Body
import Workbench.Proofs.Loops.Enclosing
import Workbench.Proofs.Loops.Indexed
import Workbench.Proofs.Loops.Nesting
import Workbench.Proofs.Loops.NodeSet
import Workbench.Proofs.Loops.Order
import Workbench.Proofs.Loops.Ranking
import Workbench.Proofs.Occurrences
import Workbench.Proofs.Patch.Candidate
import Workbench.Proofs.Patch.Independent
import Workbench.Proofs.Session.Capacity
import Workbench.Proofs.Session.Effect
import Workbench.Proofs.Session.Merge
import Workbench.Proofs.Session.Outcome
import Workbench.Proofs.Session.Run
import Workbench.Proofs.Session.Safety
import Workbench.Proofs.Session.Selection
import Workbench.Proofs.Session.Serial
import Workbench.Proofs.Session.Timeline
import Workbench.Proofs.Session.Undo
import Workbench.Proofs.Workflow.Acceptance
import Workbench.Proofs.Workflow.Breaches
import Workbench.Proofs.Workflow.Edit
import Workbench.Proofs.Workflow.Format
import Workbench.Proofs.Workflow.Log
import Workbench.Proofs.Workflow.Lookup
import Workbench.Proofs.Workflow.Loose
import Workbench.Proofs.Workflow.Relabelled
import Workbench.Proofs.Workflow.Reordered
import Workbench.Proofs.Workflow.Searches
import Workbench.Proofs.Workflow.Sound
import Workbench.Proofs.Workflow.Tally
import Workbench.Proofs.Workflow.Wired
import Workbench.Session.Basic
import Workbench.Session.History
import Workbench.Session.Shared
import Workbench.Store
import Workbench.Text.Hex
import Workbench.Text.Quoted
import Workbench.Text.Unseen
import Workbench.Uuid
import Workbench.Workflow.Basic
import Workbench.Workflow.Condition
import Workbench.Workflow.Edge
import Workbench.Workflow.Edit
import Workbench.Workflow.Format
import Workbench.Workflow.Node
import Workbench.Workflow.Outline
import Workbench.Workflow.Port
import Workbench.Workflow.Relabel
import Workbench.Workflow.Step
import Workbench.Workflow.Violation
