import Hoist.Syntax.Loc

/-!
Tokens of program text.
-/

namespace Hoist

/-- The classes of tokens.  `command` and `terminator` come from the layout of the text: the name at
the head of a call written without parentheses, and the end of a statement. -/
inductive TokenKind where
  | name | command | constant | global | symbol | int | float | string
  | kwDef | kwEnd | kwIf | kwUnless | kwElsif | kwElse | kwThen | kwWhile | kwDo | kwReturn
  | kwBreak | kwNext | kwNil | kwTrue | kwFalse | kwAnd | kwOr | kwNot
  | arrow | dot3 | dot2 | dot | pow | orOr | andAnd | eqEq | notEq | lessEq | greaterEq | less
  | greater | opAssign | assign | plus | minus | star | slash | percent | bang | question | colon
  | comma | pipe | leftParen | rightParen | leftBracket | rightBracket | leftBrace | rightBrace
  | semicolon | newline | terminator
deriving DecidableEq, Repr

/-- A token, where it stands, and the offsets of its first character and of the one after it. -/
structure Token where
  kind : TokenKind
  text : Text
  loc : Loc
  start : Nat
  stop : Nat
deriving DecidableEq, Repr

/-- The characters of a token, which are all of it when it is no string. -/
def Token.word (token : Token) : String := token.text.toString

def Token.gapBefore (left right : Token) : Bool := left.stop < right.start

end Hoist
