import Workbench.Files
import Workbench.Patch.Basic

/-!
# Workflows and patches in files

Files hold workflows and patches as JSON texts. Loading can fail because of the
file or because of what it holds; saving only because of the file.

A program asks no more of its files than to read one and to write one. What they
lie in is left open (`Storage`): a directory is one possibility.
-/

namespace Workbench

/-- Why something could not be loaded or saved. -/
inductive StoreError
  | file (path : String) (error : FileError)
  | json (fault : Fault)
deriving DecidableEq

def StoreError.message : StoreError → String
  | file path error => s!"Could not access file '{path}': {error.message}"
  | json fault => s!"Invalid JSON: {fault.message}"

/-- What was read from a file, decoded. -/
def decodeFile {α : Type} (codec : Codec α) (path : String)
    (content : Except FileError String) : Except StoreError α :=
  match content with
  | .error error => .error (.file path error)
  | .ok text =>
      match codec.ofText text with
      | .ok a => .ok a
      | .error fault => .error (.json fault)

/-- How files are read and written. All that they are in between is a state in
`σ`, and a write tells what is left also if it fails. -/
structure Storage (σ : Type) where
  read : σ → String → Except FileError String
  write : σ → String → String → Except FileError Unit × σ

def Storage.load {σ α : Type} (storage : Storage σ) (files : σ)
    (codec : Codec α) (path : String) : Except StoreError α :=
  decodeFile codec path (storage.read files path)

namespace Files

/-- The files of a directory. -/
def storage : Storage Files where
  read := read
  write files path text :=
    match files.write path text with
    | .ok after => (.ok (), after)
    | .error error => (.error error, files)

def load {α : Type} (files : Files) (codec : Codec α) (path : String) :
    Except StoreError α :=
  storage.load files codec path

/-- The files with a workflow saved in one of them. -/
def save (files : Files) (workflow : Workflow) (path : String) :
    Except StoreError Files :=
  match files.write path workflow.toText with
  | .ok files => .ok files
  | .error error => .error (.file path error)

end Files

end Workbench
