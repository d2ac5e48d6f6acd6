import Hoist.Text.Basic

/-!
String literals.  In double quotes a backslash escapes the character after it; a hash in front of a
brace, a dollar or an at sign would interpolate and is escaped when written and refused when read.
In single quotes only a backslash and a single quote can be escaped.
-/

namespace Hoist.StringLiteral

def unescape : Char → Char
  | 'n' => '\n'
  | 't' => '\t'
  | 'r' => '\r'
  | '0' => '\x00'
  | 's' => ' '
  | 'e' => '\x1b'
  | 'a' => '\x07'
  | 'b' => '\x08'
  | 'f' => '\x0c'
  | 'v' => '\x0b'
  | c => c

/-- The letter that stands for a character after a backslash, when it has to be escaped. -/
def escape? : Char → Option Char
  | '\\' => some '\\'
  | '"' => some '"'
  | '\n' => some 'n'
  | '\t' => some 't'
  | '\r' => some 'r'
  | '\x00' => some '0'
  | '\x1b' => some 'e'
  | '\x07' => some 'a'
  | '\x08' => some 'b'
  | '\x0c' => some 'f'
  | '\x0b' => some 'v'
  | _ => none

def interpolates (code : CodePoint) : Bool := code == '\x7b' || code == '$' || code == '@'

/-- Whether a text goes on with something that a hash before it would interpolate. -/
def interpolatesNext : List CodePoint → Bool
  | [] => false
  | code :: _ => interpolates code

def encode : List CodePoint → List CodePoint
  | [] => []
  | code :: rest =>
    match escape? code.toChar with
    | some letter => '\\' :: letter :: encode rest
    | none =>
      if code == '#' && interpolatesNext rest then '\\' :: code :: encode rest
      else code :: encode rest

def render (text : Text) : Text := "\"" ++ Text.ofList (encode text.toList) ++ "\""

def unescapeCode (code : CodePoint) : CodePoint :=
  if code.isSurrogate then code else unescape code.toChar

/-- Reads the inside of a literal in double quotes.  An interpolation is refused with its offset. -/
def decodeDouble (offset : Nat) : List CodePoint → Except Nat (List CodePoint)
  | [] => .ok []
  | [code] => .ok [code]
  | code :: next :: rest =>
    if code == '\\' then (decodeDouble (offset + 2) rest).map (unescapeCode next :: ·)
    else if code == '#' && interpolates next then .error offset
    else (decodeDouble (offset + 1) (next :: rest)).map (code :: ·)

def decodeSingle : List CodePoint → List CodePoint
  | [] => []
  | [code] => [code]
  | code :: next :: rest =>
    if code == '\\' && (next == '\\' || next == '\'') then next :: decodeSingle rest
    else code :: decodeSingle (next :: rest)

def read (literal : Text) : Except Nat Text :=
  let inside := (literal.part 1 (literal.length - 1)).toList
  if literal.startsWith "'" then .ok (.ofList (decodeSingle inside))
  else (decodeDouble 0 inside).map .ofList

end Hoist.StringLiteral
