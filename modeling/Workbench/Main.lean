import Workbench.Command.Generate

/-!
# The program

Reads the files that a command names, prints what the command's plan says and
writes what it wants written. With `generate` as its first argument the program
is the generator.
-/

namespace Workbench

/-- The text of a file on disk. -/
def readDisk (path : String) : IO (Except FileError String) := do
  try
    let content ← IO.FS.readBinFile path
    return (String.fromUTF8? content).elim (.error .notUtf8) .ok
  catch error => return .error (diskError error)
where
  /-- The reason for a failure on disk. -/
  diskError : IO.Error → FileError
    | .noFileOrDirectory .. => .notFound
    | .inappropriateType _ 20 _ => .notDirectory
    | .inappropriateType _ 21 _ => .isDirectory
    | error => .other (toString error)

/-- Writes a text to a file on disk. -/
def writeDisk (path text : String) : IO (Except FileError Unit) := do
  try
    IO.FS.writeFile path text
    return .ok ()
  catch error => return .error (readDisk.diskError error)

/-- Carries out a plan on disk and prints its report. -/
def carryOut (plan : Plan) : IO UInt32 := do
  let mut report := plan.report
  if let some (path, text) := plan.write then
    if let .error error := ← writeDisk path text then
      report := plan.writeFailure path error
  IO.print report.stdout
  IO.eprint report.stderr
  return .ofNat report.exit

end Workbench

open Workbench in
/-- Runs the program. -/
def main (arguments : List String) : IO UInt32 := do
  match arguments with
  | "generate" :: rest =>
      match GenerateCommand.parse? rest with
      | none => carryOut ⟨.misuse GenerateCommand.usage, none⟩
      | some command =>
          let seed ← IO.rand 0 UInt64.size
          carryOut (command.plan (.ofSeed seed))
  | _ =>
      match Command.parse? arguments with
      | none => carryOut ⟨.misuse Command.usage, none⟩
      | some command =>
          let contents ← command.inputs.mapM fun path =>
            return (path, ← readDisk path)
          carryOut (command.plan fun path =>
            (contents.lookup path).getD (.error .notFound))
