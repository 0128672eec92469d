/-!
# A directory of files

What a program sees of the files it works with: paths that lead to contents or
to directories. A path is a list of names, and each name but the last has to be
that of a directory. Nothing lies outside: a path that starts at a root finds
nothing, and the directory is its own parent. Every file may be read and
written.
-/

namespace Workbench

/-- What a path can lead to. -/
inductive FileEntry
  | file (content : ByteArray)
  | directory

/-- Why a file cannot be read or written. -/
inductive FileError
  | notFound
  | notDirectory
  | isDirectory
  | notUtf8
  /-- Any other reason, in the words of the system. -/
  | other (reason : String)
deriving DecidableEq, Repr

def FileError.message : FileError → String
  | notFound => "No such file or directory (os error 2)"
  | notDirectory => "Not a directory (os error 20)"
  | isDirectory => "Is a directory (os error 21)"
  | notUtf8 => "stream did not contain valid UTF-8"
  | other reason => reason

/-- The entries of a directory by their paths. -/
structure Files where
  entries : List (List String × FileEntry) := []

namespace Files

/-- The names on a path. -/
def names (path : String) : List String := (path.splitOn "/").filter (· ≠ "")

/-- What a list of names leads to. Whatever an entry lies below is a
directory. -/
def find? (files : Files) (names : List String) : Option FileEntry :=
  match files.entries.lookup names with
  | some entry => some entry
  | none =>
      if names = [] ∨
        files.entries.any (fun entry => names.isPrefixOf entry.1) then
        some .directory
      else none

/-- Whether a list of names leads to a directory. -/
def isDirectory (files : Files) (names : List String) : Bool :=
  match files.find? names with
  | some .directory => true
  | _ => false

/-- Follows the names of a path from the place that the names before it lead to.
A dot stays in place and two dots go back up. -/
def follow (files : Files) (before : List String) :
    List String → Except FileError (List String)
  | [] => .ok before
  | name :: rest =>
      match files.find? before with
      | some .directory =>
          if name = "." then files.follow before rest
          else if name = ".." then files.follow before.dropLast rest
          else files.follow (before ++ [name]) rest
      | some (.file _) => .error .notDirectory
      | none => .error .notFound

/-- The names that a path comes down to. Only the last of them may lead
nowhere. -/
def resolve (files : Files) (path : String) : Except FileError (List String) :=
  if path = "" ∨ path.startsWith "/" then .error .notFound
  else files.follow [] (names path)

/-- The text of a file. -/
def read (files : Files) (path : String) : Except FileError String := do
  match files.find? (← files.resolve path) with
  | none => .error .notFound
  | some .directory => .error .isDirectory
  | some (.file content) =>
      if path.endsWith "/" then .error .notDirectory
      else
        match String.fromUTF8? content with
        | some text => .ok text
        | none => .error .notUtf8

/-- The files with a text in the file of the given path. A failure changes
nothing. -/
def write (files : Files) (path text : String) : Except FileError Files := do
  let names ← files.resolve path
  if files.isDirectory names ∨ path.endsWith "/" then .error .isDirectory
  else
    let others := files.entries.filter (·.1 ≠ names)
    return ⟨(names, .file text.toUTF8) :: others⟩

end Files

end Workbench
