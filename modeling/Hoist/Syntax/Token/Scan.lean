import Hoist.Syntax.Token
import Hoist.Text.Digit

/-!
Program text to tokens.  At each place the longest operator, name, number or string is taken;
blanks, comments and escaped line ends separate tokens and leave no trace.  Scanning stops at the
first character that starts no token.
-/

namespace Hoist

/-- What a stretch of text is. -/
inductive Lexeme where
  /-- Blanks, a comment or an escaped line end. -/
  | blank
  | token (kind : TokenKind)
deriving DecidableEq, Repr

namespace Lexeme

def isLower (c : Char) : Bool := 'a' ≤ c && c ≤ 'z'

def isUpper (c : Char) : Bool := 'A' ≤ c && c ≤ 'Z'

def startsName (c : Char) : Bool := isLower c || c == '_'

def startsWord (c : Char) : Bool := startsName c || isUpper c

def isWordChar (c : Char) : Bool := startsWord c || ('0' ≤ c && c ≤ '9')

def keyword? : String → Option TokenKind
  | "def" => some .kwDef
  | "end" => some .kwEnd
  | "if" => some .kwIf
  | "unless" => some .kwUnless
  | "elsif" => some .kwElsif
  | "else" => some .kwElse
  | "then" => some .kwThen
  | "while" => some .kwWhile
  | "do" => some .kwDo
  | "return" => some .kwReturn
  | "break" => some .kwBreak
  | "next" => some .kwNext
  | "nil" => some .kwNil
  | "true" => some .kwTrue
  | "false" => some .kwFalse
  | "and" => some .kwAnd
  | "or" => some .kwOr
  | "not" => some .kwNot
  | _ => none

def wordLength (text : List Char) : Nat := (text.takeWhile isWordChar).length

/-- One more when a word may end in `?` or `!`, which it does unless `=` follows. -/
def markLength : List Char → Nat
  | '?' :: '=' :: _ | '!' :: '=' :: _ => 0
  | '?' :: _ | '!' :: _ => 1
  | _ => 0

/-- One more when a symbol ends in `?` or `!`. -/
def symbolMarkLength : List Char → Nat
  | '?' :: _ | '!' :: _ => 1
  | _ => 0

def stringLength? (quote : Char) : List Char → Option Nat
  | [] => none
  | '\\' :: _ :: rest => (stringLength? quote rest).map (· + 2)
  | c :: rest =>
    if c == quote then some 1
    else if c == '\\' then none
    else (stringLength? quote rest).map (· + 1)

def digitsLength (text : List Char) : Nat := (text.takeWhile Text.isDigit).length

def exponentLength : List Char → Nat
  | mark :: sign :: rest =>
    if mark == 'e' || mark == 'E' then
      if sign == '+' || sign == '-' then
        match digitsLength rest with
        | 0 => 0
        | n => n + 2
      else
        match digitsLength (sign :: rest) with
        | 0 => 0
        | n => n + 1
    else 0
  | _ => 0

def fractionLength : List Char → Nat
  | '.' :: rest =>
    match digitsLength rest with
    | 0 => 0
    | n => 1 + n + exponentLength (rest.drop n)
  | _ => 0

/-- The length of digits at the front that may be grouped by single underscores. -/
def groupedLength : List Char → Nat
  | '_' :: c :: rest => if Text.isDigit c then 2 + groupedLength rest else 0
  | c :: rest => if Text.isDigit c then 1 + groupedLength rest else 0
  | [] => 0

def number (rest : List Char) : Lexeme × Nat :=
  let whole := digitsLength rest
  match fractionLength (rest.drop whole) with
  | 0 => (.token .int, groupedLength rest)
  | n => (.token .float, whole + n)

def word (first : Char) (rest : List Char) : Lexeme × Nat :=
  let size := wordLength rest
  let size := size + markLength (rest.drop size)
  (.token ((keyword? (String.ofList (first :: rest.take size))).getD .name), size)

/-- The operator or delimiter that starts with a character, and how many further characters it
takes. -/
def operator? : Char → List Char → Option (TokenKind × Nat)
  | '|', '|' :: '=' :: _ | '&', '&' :: '=' :: _ => some (.opAssign, 2)
  | '.', '.' :: '.' :: _ => some (.dot3, 2)
  | '+', '=' :: _ | '-', '=' :: _ | '*', '=' :: _ | '/', '=' :: _ => some (.opAssign, 1)
  | '-', '>' :: _ => some (.arrow, 1)
  | '.', '.' :: _ => some (.dot2, 1)
  | '*', '*' :: _ => some (.pow, 1)
  | '|', '|' :: _ => some (.orOr, 1)
  | '&', '&' :: _ => some (.andAnd, 1)
  | '=', '=' :: _ => some (.eqEq, 1)
  | '!', '=' :: _ => some (.notEq, 1)
  | '<', '=' :: _ => some (.lessEq, 1)
  | '>', '=' :: _ => some (.greaterEq, 1)
  | '<', _ => some (.less, 0)
  | '>', _ => some (.greater, 0)
  | '=', _ => some (.assign, 0)
  | '+', _ => some (.plus, 0)
  | '-', _ => some (.minus, 0)
  | '*', _ => some (.star, 0)
  | '/', _ => some (.slash, 0)
  | '%', _ => some (.percent, 0)
  | '!', _ => some (.bang, 0)
  | '?', _ => some (.question, 0)
  | ',', _ => some (.comma, 0)
  | '.', _ => some (.dot, 0)
  | '|', _ => some (.pipe, 0)
  | '(', _ => some (.leftParen, 0)
  | ')', _ => some (.rightParen, 0)
  | '[', _ => some (.leftBracket, 0)
  | ']', _ => some (.rightBracket, 0)
  | '\x7b', _ => some (.leftBrace, 0)
  | '\x7d', _ => some (.rightBrace, 0)
  | ';', _ => some (.semicolon, 0)
  | _, _ => none

/-- The lexeme that starts with a character, and how many further characters it takes. -/
def at? (first : Char) (rest : List Char) : Option (Lexeme × Nat) :=
  let token (kind : TokenKind) (size : Nat) : Option (Lexeme × Nat) := some (.token kind, size)
  if Text.isDigit first then some (number rest)
  else if startsName first then some (word first rest)
  else if isUpper first then token .constant (wordLength rest)
  else match first, rest with
    | ' ', _ | '\t', _ | '\x0c', _ =>
      some (.blank, (rest.takeWhile fun c => c == ' ' || c == '\t' || c == '\x0c').length)
    | '#', _ => some (.blank, (rest.takeWhile (· != '\n')).length)
    | '\\', '\n' :: _ => some (.blank, 1)
    | '\\', '\r' :: '\n' :: _ => some (.blank, 2)
    | '\n', _ => token .newline 0
    | '\r', '\n' :: _ => token .newline 1
    | '"', _ => (stringLength? '"' rest).map (.token .string, ·)
    | '\'', _ => (stringLength? '\'' rest).map (.token .string, ·)
    | '$', c :: after =>
      if startsWord c then token .global (1 + wordLength after) else none
    | ':', c :: after =>
      if startsWord c then
        let size := wordLength after
        token .symbol (1 + size + symbolMarkLength (after.drop size))
      else token .colon 0
    | ':', [] => token .colon 0
    | _, _ => (operator? first rest).map fun (kind, size) => (.token kind, size)

end Lexeme

/-- A character that starts no token. -/
structure StrayCharacter where
  char : CodePoint
  loc : Loc
deriving DecidableEq, Repr

/-- Tokens of a text, given with its characters, whose first `skip` code points belong to the token
before; `offset` and `loc` are the place after them. -/
def scanFrom (offset : Nat) (loc : Loc) : (skip : Nat) → List CodePoint → List Char →
    Except StrayCharacter (List Token)
  | _, [], _ => .ok []
  | _, _, [] => .ok []
  | skip + 1, _ :: codes, _ :: chars => scanFrom offset loc skip codes chars
  | 0, code :: codes, char :: chars =>
    match Lexeme.at? char chars with
    | none => .error ⟨code, loc⟩
    | some (lexeme, more) =>
      let text := code :: codes.take more
      let stop := offset + more + 1
      let after := scanFrom stop (loc.advanceBy text) more codes chars
      match lexeme with
      | .blank => after
      | .token kind => after.map (⟨kind, .ofList text, loc, offset, stop⟩ :: ·)

def scan (text : Text) : Except StrayCharacter (List Token) :=
  scanFrom 0 Loc.start 0 text.toList text.chars

end Hoist
