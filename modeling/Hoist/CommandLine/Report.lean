import Hoist.CommandLine.Arguments
import Hoist.CommandLine.Files
import Hoist.Diagnostic

/-!
What the command line does with a source file: the program it writes, and what it tells.
-/

namespace Hoist.CommandLine

def plainLineEnds : List Char → List Char
  | [] => []
  | '\r' :: '\n' :: rest => '\n' :: plainLineEnds rest
  | '\r' :: rest => '\n' :: plainLineEnds rest
  | c :: rest => c :: plainLineEnds rest

/-- Why a run stops without a report. -/
inductive Failure where
  /-- The source is no text. -/
  | notText
  | transform (error : TransformError)
  /-- The output file cannot be written. -/
  | write (error : FileError)
deriving DecidableEq, Repr

/-- What a run leaves behind. -/
structure Report where
  exitCode : Nat
  stdout : String := ""
  stderr : String := ""
  /-- The file that was written, with its text. -/
  written : Option (String × String) := none
deriving DecidableEq, Repr

def summary (exitCode : Nat) (output : Option String) (diagnostics : List Diagnostic) : String :=
  let json : Text.Json := .object [
    ("exit_code", .int exitCode),
    ("output", .ofText? output),
    ("diagnostics", .array (diagnostics.map Diagnostic.toJson))]
  json.render ++ "\n"

def unlines (lines : List String) : String := String.join (lines.map (· ++ "\n"))

def failed (options : Options) (log : List String) (diagnostic : Diagnostic) : Report :=
  if options.json then
    { exitCode := 1, stdout := summary 1 none [diagnostic], stderr := unlines log }
  else { exitCode := 1, stderr := unlines (log ++ [diagnostic.format]) }

def logLines (options : Options) (events : List LogEvent) : List String :=
  (events.filter fun event => options.verbose || event.isWarning).map LogEvent.line

def succeeded (options : Options) (events : List LogEvent) (result : TransformResult) : Report :=
  let file := normalizePath options.source
  let text := result.text.toString
  let diagnostics := result.warnings.map fun warning => warning.diagnostic (some file)
  let written := options.output.map fun path => (normalizePath path, text)
  let events := match written with
    | some (path, _) => events ++ [.wrote path]
    | none => events
  let log := logLines options events
  if options.json then
    { exitCode := 0, stdout := summary 0 (some text) diagnostics, stderr := unlines log,
      written }
  else
    { exitCode := 0
      stdout := if written.isNone then text else ""
      stderr := unlines (log ++ diagnostics.map Diagnostic.format)
      written }

def reportOn (options : Options) (text : String) : Except Failure Report :=
  let config : TransformConfig :=
    { nameStart := options.nameStart, emitHelpers := options.emitHelpers }
  let (result, transformer) :=
    (Transforming.transformText config text).run.run (Transformer.new config)
  match result with
  | .ok result => .ok (succeeded options transformer.log result)
  | .error error =>
    match error.diagnostic? (some (normalizePath options.source)) with
    | some diagnostic => .ok (failed options (logLines options transformer.log) diagnostic)
    | none => .error (.transform error)

def report (options : Options) (source : Except FileError ByteArray) : Except Failure Report :=
  match source with
  | .error error =>
    let diagnostic : Diagnostic :=
      { message := "cannot read source: " ++ error.message
        code := some "io-error"
        phase := some "driver" }
    .ok (failed options [] (diagnostic.withFile (some (normalizePath options.source))))
  | .ok bytes =>
    match String.fromUTF8? bytes with
    | none => .error .notText
    | some text => reportOn options (String.ofList (plainLineEnds text.toList))

def runIn (directory : Directory) (options : Options) :
    Except Failure (Report × Directory) := do
  let report ← report options (directory.read options.source)
  match report.written with
  | none => return (report, directory)
  | some (path, text) =>
    match directory.write path text.toUTF8 with
    | .ok directory => return (report, directory)
    | .error error => throw (.write error)

end Hoist.CommandLine
