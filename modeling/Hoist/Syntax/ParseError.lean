import Hoist.Syntax.Loc
import Hoist.Text.Quoted

/-!
Why a text is no program.
-/

namespace Hoist

inductive ParseError where
  /-- A character that starts no token. -/
  | strayCharacter (char : CodePoint) (loc : Loc)
  | endOfInput (loc : Loc)
  | endOfLine (loc : Loc)
  | unexpected (text : Text) (loc : Loc)
  | interpolation (loc : Loc)
  | assignmentTarget (loc : Loc)
  /-- An integer literal with more digits than can be read. -/
  | integerTooLong
deriving DecidableEq, Repr

namespace ParseError

def message : ParseError → String
  | .strayCharacter char _ => "unexpected character " ++ (Text.quoted (.single char)).toString
  | .endOfInput _ => "unexpected end of input"
  | .endOfLine _ => "unexpected end of line"
  | .unexpected text _ => "unexpected " ++ (Text.quoted text).toString
  | .interpolation _ => "string interpolation is not supported"
  | .assignmentTarget _ => "unsupported assignment target"
  | .integerTooLong => "integer literal too long"

def loc? : ParseError → Option Loc
  | .strayCharacter _ loc | .endOfInput loc | .endOfLine loc | .unexpected _ loc
  | .interpolation loc | .assignmentTarget loc => some loc
  | .integerTooLong => none

end ParseError

end Hoist
