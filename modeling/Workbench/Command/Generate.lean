import Workbench.Command.Workflow
import Workbench.Generate

/-!
# The generating command

Writes a random workflow to a file. The workflow is checked before it is
written, as any other would be.
-/

namespace Workbench

/-- What is asked of the generator. -/
structure GenerateCommand where
  output : String := "generated_workflow.json"
  segments : Nat := 8
  depth : Nat := 3
deriving DecidableEq, Repr

namespace GenerateCommand

/-- What is said to a command line that is not understood. -/
def usage : List String :=
  ["Usage: [-o|--output <FILE>] [--segments <COUNT>] [--max-depth <DEPTH>]"]

def options : List OptionName :=
  [⟨"output", some 'o'⟩, ⟨"segments", none⟩, ⟨"max-depth", none⟩]

/-- What the arguments ask for, if they are understood. -/
def parse? (arguments : List String) : Option GenerateCommand := do
  let usual : GenerateCommand := {}
  let sorted ← Arguments.sort? options {} arguments
  let segments ← sorted.numberOr? "segments" UInt64.size usual.segments
  let depth ← sorted.numberOr? "max-depth" UInt64.size usual.depth
  if sorted.positional.isEmpty then
    some ⟨(sorted.values.lookup "output").getD usual.output, segments, depth⟩
  else none

/-- What is said of a workflow that has been written. -/
def summary (workflow : Workflow) (output : String) : String :=
  let nodes := workflow.nodes.length
  let edges := workflow.edges.length
  let loops := workflow.loopBodies.size
  s!"Generated {nodes} nodes, {edges} edges, {loops} loops -> '{output}'"

/-- Plans the command for a workflow that has been generated for it. -/
def planFor (command : GenerateCommand) (workflow : Workflow) : Plan :=
  match workflow.check with
  | [] =>
      ⟨{ stdout := Report.lines [summary workflow command.output] },
        some (command.output, workflow.toText)⟩
  | problems =>
      ⟨{ exit := 1
         stderr := Report.lines
          ("Error: generated workflow failed validation:" ::
            problems.map ("  - " ++ ·)) }, none⟩

/-- Plans the command. A workflow has at least one segment. -/
def plan (command : GenerateCommand) (chance : Chance) : Plan :=
  if command.segments = 0 then
    ⟨{ exit := 1, stderr := Report.lines ["Error: --segments must be at least 1"] },
      none⟩
  else command.planFor (.generate chance command.segments command.depth)

end GenerateCommand

/-- Runs the generator with the given arguments. -/
def Storage.generate {σ : Type} (storage : Storage σ) (files : σ)
    (chance : Chance) (arguments : List String) : Report × σ :=
  match GenerateCommand.parse? arguments with
  | none => (.misuse GenerateCommand.usage, files)
  | some command => storage.carryOut files (command.plan chance)

/-- Runs the generator with the given arguments in a directory of files. -/
def Files.generate (files : Files) (chance : Chance) (arguments : List String) :
    Report × Files :=
  storage.generate files chance arguments

end Workbench
