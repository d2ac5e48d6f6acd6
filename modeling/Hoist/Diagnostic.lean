import Hoist.Plan
import Hoist.Text.Json
import Hoist.TransformError

/-!
Diagnostics: what a user is told about a program, with the file and place it is about.
-/

namespace Hoist

/-- The file and place of a diagnostic, as far as they are known. -/
structure Span where
  file : Option String := none
  loc : Option Loc := none
deriving DecidableEq, Repr

/-- The span of a place.  Next to a place an empty file name counts as unknown. -/
def Span.ofLoc (loc : Option Loc) (file : Option String) : Span :=
  match loc with
  | none => { file }
  | some loc => { file := file.filter (· ≠ ""), loc := some loc }

structure Diagnostic where
  message : String
  code : Option String := none
  /-- The part of the program that found it. -/
  phase : Option String := none
  severity : String := "error"
  span : Span := {}
  notes : List String := []
deriving DecidableEq, Repr

namespace Diagnostic

def withFile (diagnostic : Diagnostic) : Option String → Diagnostic
  | none => diagnostic
  | some file => { diagnostic with span := { diagnostic.span with file := some file } }

def format (diagnostic : Diagnostic) : String :=
  let file := match diagnostic.span.file with
    | none | some "" => "<source>"
    | some file => file
  let place := match diagnostic.span.loc with
    | none => file
    | some loc => file ++ ":" ++ loc.text
  place ++ ": " ++ diagnostic.severity ++ ": " ++ diagnostic.message

def toJson (diagnostic : Diagnostic) : Text.Json :=
  let number (value : Loc → Nat) : Text.Json := match diagnostic.span.loc with
    | none => .null
    | some loc => .int (value loc)
  .object [
    ("phase", .ofText? diagnostic.phase),
    ("code", .ofText? diagnostic.code),
    ("message", .str diagnostic.message),
    ("severity", .str diagnostic.severity),
    ("file", .ofText? diagnostic.span.file),
    ("line", number Loc.line),
    ("column", number Loc.column),
    ("notes", .array (diagnostic.notes.map Text.Json.str))]

def error (code : String) (phase : Option String) (message : String) (loc : Option Loc)
    (file : Option String) : Diagnostic :=
  { message, code := some code, phase, span := Span.ofLoc loc file }

def leftAsIs (message : String) (loc : Option Loc) (file : Option String) : Diagnostic :=
  { message, code := some "unsupported-construct", phase := some "rewrite",
    severity := "warning", span := Span.ofLoc loc file }

end Diagnostic

def locatedText (message : String) : Option Loc → String
  | none => message
  | some loc => loc.text ++ ": " ++ message

def Warning.diagnostic (warning : Warning) (file : Option String) : Diagnostic :=
  .leftAsIs warning.message (some warning.loc) file

def ParseError.diagnostic? (error : ParseError) (file : Option String) : Option Diagnostic :=
  match error with
  | .integerTooLong => none
  | _ => some (.error "parse-error" (some "parser") error.message error.loc? file)

def NameCollision.diagnostic (collision : NameCollision) (file : Option String) : Diagnostic :=
  .error "name-collision" (some "lift") collision.message none file

/-- The diagnostic for a failure that the program's author can mend; the other failures come from
trees or helpers built by hand. -/
def TransformError.diagnostic? (error : TransformError) (file : Option String) :
    Option Diagnostic :=
  match error with
  | .parse error | .helper (.parse error) => error.diagnostic? file
  | .scope (.statementKind _) | .scope (.expressionKind _) => none
  | .scope error => some (.error "scope-error" (some "scope") error.message error.loc? file)
  | .unresolved name =>
    some (.error "unresolved-variable" (some "captures") name.message (some name.loc) file)
  | .collision clash => some (clash.diagnostic file)
  | .helper _ | .expressionKind _ | .statementKind _ | .print _ => none

end Hoist
