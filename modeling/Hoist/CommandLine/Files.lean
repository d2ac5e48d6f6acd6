/-!
Paths, and a directory of files without subdirectories.
-/

namespace Hoist.CommandLine

/-- The parts of a path between its slashes, without empty ones and dots. -/
def pathParts (path : String) : List String :=
  (path.splitOn "/").filter fun part => part != "" && part != "."

/-- The slashes that an absolute path starts with: one, or two when there are exactly two. -/
def pathRoot (path : String) : String :=
  match path.toList with
  | '/' :: '/' :: '/' :: _ => "/"
  | '/' :: '/' :: _ => "//"
  | '/' :: _ => "/"
  | _ => ""

def normalizePath (path : String) : String :=
  let plain := pathRoot path ++ String.intercalate "/" (pathParts path)
  if plain.isEmpty then "." else plain

/-- Why a file cannot be read or written. -/
inductive FileError where
  | noSuchFile
  | notADirectory
  | isADirectory
  | nameTooLong
  | other (message : String)
deriving DecidableEq, Repr

def FileError.message : FileError → String
  | .noSuchFile => "No such file or directory"
  | .notADirectory => "Not a directory"
  | .isADirectory => "Is a directory"
  | .nameTooLong => "File name too long"
  | .other message => message

abbrev Directory := List (String × ByteArray)

namespace Directory

/-- The name of the file that a path means, if it lies in the directory. -/
def locate (directory : Directory) (path : String) : Except FileError String :=
  match pathParts path with
  | [] => .error .isADirectory
  | name :: rest =>
    if 255 < name.utf8ByteSize then .error .nameTooLong
    else if pathRoot path != "" then .error .noSuchFile
    else if name == ".." then .error (if rest.all (· == "..") then .isADirectory else .noSuchFile)
    else if rest.isEmpty then .ok name
    else if (directory.lookup name).isSome then .error .notADirectory
    else .error .noSuchFile

def read (directory : Directory) (path : String) : Except FileError ByteArray := do
  match directory.lookup (← directory.locate path) with
  | some bytes => return bytes
  | none => throw .noSuchFile

def write (directory : Directory) (path : String) (bytes : ByteArray) :
    Except FileError Directory := do
  let name ← directory.locate path
  return (name, bytes) :: directory.filter fun entry => entry.1 != name

end Directory

end Hoist.CommandLine
