import Hoist.Syntax.Token

/-!
Layout: what blanks and line ends mean.  A name that is followed, after a gap, by something that can
only start an argument is the head of a command call.  A line end that follows a complete phrase
becomes a terminator, unless it stands inside brackets or parentheses or the next line goes on with
a dot; a semicolon always becomes one.
-/

namespace Hoist

namespace TokenKind

def startsArgument : TokenKind → Bool
  | .name | .constant | .global | .string | .int | .float | .symbol | .kwNil | .kwTrue | .kwFalse
  | .bang | .arrow | .leftBracket => true
  | _ => false

/-- Operators that start an argument when nothing separates them from their operand. -/
def hugsArgument : TokenKind → Bool
  | .minus | .star => true
  | _ => false

def endsPhrase : TokenKind → Bool
  | .name | .constant | .global | .int | .float | .string | .symbol | .kwNil | .kwTrue | .kwFalse
  | .rightParen | .rightBracket | .rightBrace | .kwEnd | .kwReturn | .kwBreak | .kwNext => true
  | _ => false

def opens : TokenKind → Bool
  | .leftParen | .leftBracket | .leftBrace => true
  | _ => false

def closes : TokenKind → Bool
  | .rightParen | .rightBracket | .rightBrace => true
  | _ => false

def endsLine : TokenKind → Bool
  | .newline | .semicolon => true
  | _ => false

end TokenKind

/-- Whether a name heads a command call, given the kind of the token before it and the tokens after
it.  A parenthesis after a gap opens the first argument, except after a dot. -/
def headsCommand (before : Option TokenKind) (token : Token) : List Token → Bool
  | [] => false
  | next :: rest =>
    before != some .kwDef && token.gapBefore next &&
      (next.kind.startsArgument ||
        (next.kind == .leftParen && before != some .dot) ||
        (next.kind.hugsArgument &&
          match rest with
          | [] => false
          | operand :: _ => !operand.kind.endsLine && !next.gapBefore operand))

def markCommands (before : Option TokenKind) : List Token → List Token
  | [] => []
  | token :: rest =>
    let marked :=
      if token.kind == .name && headsCommand before token rest then
        { token with kind := .command }
      else token
    marked :: markCommands (some token.kind) rest

def continuesChain : List Token → Bool
  | [] => false
  | token :: rest =>
    if token.kind == .newline then continuesChain rest else token.kind == .dot

/-- What decides whether a line end matters: the open delimiters, innermost first, and whether a
phrase is complete. -/
structure LayoutState where
  openDelimiters : List TokenKind
  complete : Bool
deriving DecidableEq, Repr

namespace LayoutState

def initial : LayoutState := ⟨[], false⟩

def linesCount (state : LayoutState) : Bool :=
  match state.openDelimiters with
  | [] => true
  | innermost :: _ => innermost == .leftBrace

def after (state : LayoutState) (kind : TokenKind) : LayoutState :=
  { openDelimiters :=
      if kind.opens then kind :: state.openDelimiters
      else if kind.closes then state.openDelimiters.tail
      else state.openDelimiters
    complete := kind.endsPhrase }

def afterTerminator (state : LayoutState) : LayoutState := { state with complete := false }

end LayoutState

/-- Turns the line ends that matter, and all semicolons, into terminators and drops the others. -/
def insertTerminators (state : LayoutState) : List Token → List Token
  | [] => []
  | token :: rest =>
    if token.kind == .newline then
      if state.linesCount && state.complete && !continuesChain rest then
        { token with kind := .terminator } :: insertTerminators state.afterTerminator rest
      else insertTerminators state rest
    else if token.kind == .semicolon then
      { token with kind := .terminator } :: insertTerminators state.afterTerminator rest
    else token :: insertTerminators (state.after token.kind) rest

def layOut (tokens : List Token) : List Token :=
  insertTerminators LayoutState.initial (markCommands none tokens)

end Hoist
