import Hoist.CommandLine.Report

/-!
The command line.
-/

namespace Hoist.CommandLine

def usage : String :=
  "usage: hoist [-h] [-o OUTPUT] [--json] [--prefix PREFIX] [--no-helpers] [-v] source\n"

def fileError : IO.Error → FileError
  | .noFileOrDirectory .. => .noSuchFile
  | .inappropriateType .. => .isADirectory
  | error => .other (toString error)

def readSource (path : String) : IO (Except FileError ByteArray) := do
  try
    return .ok (← IO.FS.readBinFile path)
  catch error =>
    return .error (fileError error)

def execute (arguments : List String) : IO UInt32 := do
  match readArguments arguments with
  | .error .help =>
    IO.print usage
    return 0
  | .error .usage =>
    IO.eprint usage
    return 2
  | .ok options =>
    match report options (← readSource (normalizePath options.source)) with
    | .error _ => throw (IO.userError "the source cannot be transformed")
    | .ok report =>
      if let some (path, text) := report.written then IO.FS.writeFile path text
      IO.print report.stdout
      IO.eprint report.stderr
      return report.exitCode.toUInt32

end Hoist.CommandLine

def main (arguments : List String) : IO UInt32 := Hoist.CommandLine.execute arguments
