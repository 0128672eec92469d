import Workbench.Command.Arguments
import Workbench.Loops.Body
import Workbench.Session.Basic
import Workbench.Store
import Workbench.Workflow.Outline

/-!
# The workflow command

A command looks at a workflow file or merges a patch file into it. It is planned
from what its files hold: what to print, what to write, and with which code to
exit. Nothing is written until everything that can be refused has been accepted.
-/

namespace Workbench

/-- What is asked of the program. -/
inductive Command
  | outline (workflow : String)
  | loops (workflow : String)
  | check (workflow : String)
  /-- Without an output the merged workflow is printed; zero seconds wait
  without limit. -/
  | merge (workflow patch : String) (output : Option String) (seconds : Nat)
deriving DecidableEq, Repr

/-- What a program leaves behind. -/
structure Report where
  exit : Nat := 0
  stdout : String := ""
  stderr : String := ""
deriving DecidableEq, Repr

/-- A report, and perhaps a text to be written to a file before it holds. -/
structure Plan where
  report : Report
  write : Option (String × String) := none
deriving DecidableEq, Repr

namespace Report

/-- Lines of text, each with its end. -/
def lines (ls : List String) : String := String.join (ls.map (· ++ "\n"))

/-- The report of a failure after what has been said before. -/
def failure (message : String) (said : String := "") : Report where
  exit := 1
  stderr := said ++ lines ["", "Error: " ++ message]

/-- The report of a command line that is not understood. -/
def misuse (usage : List String) : Report where
  exit := 2
  stderr := lines usage

end Report

namespace Command

/-- What is said to a command line that is not understood. -/
def usage : List String :=
  ["Usage: outline|loops|check <WORKFLOW>",
    "       merge <WORKFLOW> <PATCH> [-o|--output <FILE>] [--timeout <SECONDS>]"]

/-- The options of a merge. -/
def mergeOptions : List OptionName := [⟨"output", some 'o'⟩, ⟨"timeout", none⟩]

/-- The number of seconds waited for a validator unless another is given. -/
def usualSeconds : Nat := 30

/-- A command on a single workflow. -/
def single? (make : String → Command) (arguments : List String) :
    Option Command := do
  let sorted ← Arguments.sort? [] {} arguments
  match sorted.positional with
  | [workflow] => if workflow.isEmpty then none else some (make workflow)
  | _ => none

def merge? (arguments : List String) : Option Command := do
  let sorted ← Arguments.sort? mergeOptions {} arguments
  let seconds ← sorted.numberOr? "timeout" UInt64.size usualSeconds
  let output := sorted.values.lookup "output"
  match sorted.positional with
  | [workflow, patch] =>
      if workflow.isEmpty ∨ patch.isEmpty ∨ output = some "" then none
      else some (merge workflow patch output seconds)
  | _ => none

/-- The command that the arguments ask for, if they are understood. -/
def parse? : List String → Option Command
  | "outline" :: rest => single? outline rest
  | "loops" :: rest => single? loops rest
  | "check" :: rest => single? check rest
  | "merge" :: rest => merge? rest
  | _ => none

/-- The files that a command reads. -/
def inputs : Command → List String
  | outline workflow | loops workflow | check workflow => [workflow]
  | merge workflow patch _ _ => [workflow, patch]

/-- The lines for a loop: its name and size, then the members of its body. -/
def loopLines (workflow : Workflow) (bodies : LoopBodies) (node : Node) :
    List String :=
  match bodies.body? node.id with
  | none => []
  | some body =>
      s!"{node.name} ({body.size} node(s))" ::
        body.toList.map fun id => "  - " ++ workflow.nodeName id

def loopsReport (workflow : Workflow) : Report :=
  let bodies := workflow.loopBodies
  let lines :=
    if bodies.isEmpty then [s!"No loops in '{workflow.name}'"]
    else (workflow.nodes.filter (·.isLoop)).flatMap (loopLines workflow bodies)
  { stdout := Report.lines lines }

def checkReport (workflow : Workflow) : Report :=
  match workflow.check ++ workflow.splits with
  | [] =>
      let nodes := workflow.nodes.length
      let edges := workflow.edges.length
      { stdout := Report.lines
          [s!"'{workflow.name}' is valid ({nodes} nodes, {edges} edges)"] }
  | problems =>
      { exit := 1
        stdout := Report.lines
          (s!"'{workflow.name}' has {problems.length} problem(s):" ::
            problems.map ("  - " ++ ·)) }

/-- The report of a merge that was refused. -/
def refusal (error : MergeError) : Report where
  exit := 1
  stderr :=
    Report.lines ("" :: "Patch rejected:" :: error.reasons.map ("  - " ++ ·))

/-- The lines about a merge that was made. -/
def mergeLines (outcome : MergeOutcome) : List String :=
  let added := s!"{outcome.added} added"
  let removed := s!"{outcome.removed} removed"
  let updated := s!"{outcome.updated} updated"
  s!"Merged: {added}, {removed}, {updated}" ::
    outcome.warnings.map ("  warning: " ++ ·)

/-- The limit for a validator by the seconds given. -/
def limit (seconds : Nat) : MergeOptions :=
  ⟨if seconds = 0 then none else some (.ofSeconds seconds)⟩

/-- Plans the merge of a patch that has been loaded. -/
def planMerge (workflow : Workflow) (patch : Patch) (output : Option String)
    (seconds : Nat) : Plan :=
  let session := Session.start workflow History.usualCapacity (limit seconds)
  match session.merge? patch .structural with
  | none => ⟨.failure "The validator never answers", none⟩
  | some (.error error, _) => ⟨refusal error, none⟩
  | some (.ok outcome, session) =>
      let report : Report := { stderr := Report.lines (mergeLines outcome) }
      let text := session.workflow.toText
      match output with
      | some path => ⟨report, some (path, text)⟩
      | none => ⟨{ report with stdout := Report.lines [text] }, none⟩

/-- The report of a file that could not be loaded. -/
def loadFailure (what path : String) (error : StoreError) : Report :=
  .failure s!"Failed to load {what} '{path}': {error.message}"

/-- Plans a command on a workflow that is yet to be loaded. -/
def withWorkflow (read : String → Except FileError String) (path : String)
    (plan : Workflow → Plan) : Plan :=
  match decodeFile Workflow.codec path (read path) with
  | .ok workflow => plan workflow
  | .error error => ⟨loadFailure "workflow" path error, none⟩

/-- Plans a command from what the files hold. -/
def plan (read : String → Except FileError String) : Command → Plan
  | outline path =>
      withWorkflow read path fun workflow =>
        ⟨{ stdout := Report.lines [workflow.outline] }, none⟩
  | loops path =>
      withWorkflow read path fun workflow => ⟨loopsReport workflow, none⟩
  | check path =>
      withWorkflow read path fun workflow => ⟨checkReport workflow, none⟩
  | merge path patchPath output seconds =>
      withWorkflow read path fun workflow =>
        match decodeFile Patch.codec patchPath (read patchPath) with
        | .error error => ⟨loadFailure "patch" patchPath error, none⟩
        | .ok patch => planMerge workflow patch output seconds

end Command

/-- The report of a plan whose text could not be written. -/
def Plan.writeFailure (plan : Plan) (path : String) (error : FileError) :
    Report :=
  .failure s!"Failed to write '{path}': {(StoreError.file path error).message}"
    plan.report.stderr

namespace Storage

variable {σ : Type}

/-- Carries out a plan. -/
def carryOut (storage : Storage σ) (files : σ) (plan : Plan) : Report × σ :=
  match plan.write with
  | none => (plan.report, files)
  | some (path, text) =>
      match storage.write files path text with
      | (.ok (), after) => (plan.report, after)
      | (.error error, after) => (plan.writeFailure path error, after)

/-- Runs the program with the given arguments. -/
def run (storage : Storage σ) (files : σ) (arguments : List String) :
    Report × σ :=
  match Command.parse? arguments with
  | none => (.misuse Command.usage, files)
  | some command => storage.carryOut files (command.plan (storage.read files))

end Storage

/-- Runs the program with the given arguments in a directory of files. -/
def Files.run (files : Files) (arguments : List String) : Report × Files :=
  storage.run files arguments

end Workbench
