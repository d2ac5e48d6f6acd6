import Hoist.Proofs.Syntax.Piece
import Hoist.Proofs.Syntax.WellFormed

/-!
Trees as rows of pieces.  The rows follow the canonical text of a tree, but keep apart the words,
the gaps and the line ends that the text runs together; whether a statement is written on one line
is decided on the tree.
-/

namespace Hoist

/-- A row of pieces. -/
abbrev Row := List Piece

def BinaryOp.kind : BinaryOp → TokenKind
  | .keywordAnd => .kwAnd
  | .keywordOr => .kwOr
  | .logicalOr => .orOr
  | .logicalAnd => .andAnd
  | .equal => .eqEq
  | .notEqual => .notEq
  | .less => .less
  | .greater => .greater
  | .lessEqual => .lessEq
  | .greaterEqual => .greaterEq
  | .add => .plus
  | .subtract => .minus
  | .multiply => .star
  | .divide => .slash
  | .modulo => .percent
  | .power => .pow
  | .other _ => .name

def UnaryOp.kind : UnaryOp → TokenKind
  | .negate => .minus
  | .bang => .bang
  | .keywordNot => .kwNot
  | .other _ => .name

def JumpKind.tokenKind : JumpKind → TokenKind
  | .returnJump => .kwReturn
  | .breakJump => .kwBreak
  | .nextJump => .kwNext

/-- The level that an expression binds at when it is written. -/
def Expr.level {ν σ : Type} : Expr ν σ → Nat
  | .range .. => Level.range
  | .binary _ op _ _ => op.level?.getD 0
  | .unary _ op _ => if op = .keywordNot then Level.negation else Level.unary
  | .ternary .. => Level.ternary
  | .assign .. | .opAssign .. | .multiAssign .. => 0
  | _ => Level.postfixForm

theorem Expr.level_binary {ν σ : Type} (loc : Loc) (op : BinaryOp) (left right : Expr ν σ) :
    (Expr.binary loc op left right).level = op.level?.getD 0 := rfl

theorem Expr.level_unary {ν σ : Type} (loc : Loc) (op : UnaryOp) (operand : Expr ν σ) :
    (Expr.unary loc op operand).level =
      if op = .keywordNot then Level.negation else Level.unary := rfl

mutual

/-- Whether an expression is written without a line end. -/
def Expr.oneLine : PlainExpr → Bool
  | .literal .. | .symbol .. | .name .. | .global .. | .constant .. => true
  | .array _ elements => exprsOneLine elements
  | .splat _ value => value.oneLine
  | .range _ start stop _ => start.oneLine && stop.oneLine
  | .binary _ _ left right => left.oneLine && right.oneLine
  | .unary _ _ operand => operand.oneLine
  | .ternary _ condition thenValue elseValue =>
    condition.oneLine && thenValue.oneLine && elseValue.oneLine
  | .lambda _ _ params body => paramsOneLine params && bodyOneLine body
  | .call _ receiver _ args block _ =>
    (match receiver with
      | none => true
      | some receiver => receiver.oneLine) &&
    exprsOneLine args &&
    (match block with
      | none => true
      | some (.mk _ _ params body) => paramsOneLine params && bodyOneLine body)
  | .index _ value args => value.oneLine && exprsOneLine args
  | .assign _ target value => target.oneLine && value.oneLine
  | .opAssign _ target _ value => target.oneLine && value.oneLine
  | .multiAssign _ targets values => exprsOneLine targets && exprsOneLine values
  | .block _ | .param _ | .stmt _ => true

def exprsOneLine : List PlainExpr → Bool
  | [] => true
  | first :: rest => first.oneLine && exprsOneLine rest

def paramsOneLine : List PlainParam → Bool
  | [] => true
  | .mk _ _ none :: rest => paramsOneLine rest
  | .mk _ _ (some value) :: rest => value.oneLine && paramsOneLine rest

/-- Whether the body of a block or lambda is written on one line with its braces. -/
def bodyOneLine : List PlainStmt → Bool
  | [] => true
  | [only] => only.oneLine
  | _ :: _ => false

/-- Whether a statement is written without a line end. -/
def Stmt.oneLine : PlainStmt → Bool
  | .expression _ value => value.oneLine
  | .jump _ _ none => true
  | .jump _ _ (some value) => value.oneLine
  | .conditional _ condition thenBody elseBody _ modifier _ =>
    modifier && elseBody.isEmpty &&
      (match thenBody with
        | [only] => only.oneLine
        | _ => false) &&
      condition.oneLine
  | .define .. | .whileLoop .. | .bare _ => false

end

def Stmt.isConditional : PlainStmt → Bool
  | .conditional .. => true
  | _ => false

/-- Whether a conditional is written after the statement it governs. -/
def writtenAfter (modifier : Bool) (thenBody elseBody : List PlainStmt) : Bool :=
  modifier && elseBody.isEmpty &&
    match thenBody with
    | [only] => only.oneLine
    | _ => false

theorem Stmt.oneLine_conditional (loc : Loc) (condition : PlainExpr)
    (thenBody elseBody : List PlainStmt) (negated modifier elsif : Bool) :
    (Stmt.conditional loc condition thenBody elseBody negated modifier elsif).oneLine =
      (writtenAfter modifier thenBody elseBody && condition.oneLine) := by
  rcases thenBody with _ | ⟨only, _ | _⟩ <;> rfl

namespace Row

open Piece

def leftParen : Piece := spelled .leftParen "("
def rightParen : Piece := spelled .rightParen ")"
def comma : Piece := spelled .comma ","
def pipe : Piece := spelled .pipe "|"
def leftBrace : Piece := spelled .leftBrace "\x7b"
def rightBrace : Piece := spelled .rightBrace "\x7d"
def endWord : Piece := spelled .kwEnd "end"

/-- The indentation of a line. -/
def indent : (depth : Nat) → Row
  | 0 => []
  | depth + 1 => [.gap (2 * depth + 1)]

/-- Rows with commas between them. -/
def separated : List Row → Row
  | [] => []
  | [only] => only
  | first :: rest => first ++ comma :: .gap 0 :: separated rest

/-- A row in parentheses. -/
def inParens (row : Row) : Row := leftParen :: (row ++ [rightParen])

/-- A row that binds at a level, put in parentheses where a tighter one is called for. -/
def atLevel (level own : Nat) (row : Row) : Row := if own < level then inParens row else row

/-- The token kind of a written float; an infinite one is written as a bare word. -/
def floatKind (x : Float) : TokenKind :=
  if Decimal.floatText Decimal.literalStyle x = "inf" then .name else .float

def literal : Literal → Piece
  | .nil => spelled .kwNil "nil"
  | .bool true => spelled .kwTrue "true"
  | .bool false => spelled .kwFalse "false"
  | .int value => spelled .int (toString value.natAbs)
  | .float value => spelled (floatKind value) (Decimal.floatText Decimal.literalStyle value)
  | .str value => .word .string (StringLiteral.render value).toList

theorem literal_float (x : Float) :
    literal (.float x) = spelled (floatKind x) (Decimal.floatText Decimal.literalStyle x) := rfl

/-- The opening brace of a block with its parameters. -/
def blockHead : List Row → Row
  | [] => [leftBrace]
  | params => leftBrace :: .gap 0 :: pipe :: (separated params ++ [pipe])

/-- The parameters of a method, block or lambda in parentheses, if there are any. -/
def paramList : List Row → Row
  | [] => []
  | params => inParens (separated params)

/-- The arguments of a call; `parens` calls for an empty list. -/
def argList (parens : Bool) : List Row → Row
  | [] => if parens then [leftParen, rightParen] else []
  | args => inParens (separated args)

/-- A keyword that opens a condition. -/
def conditionHead (kind : TokenKind) (keyword : String) (condition : Row) : Row :=
  spelled kind keyword :: .gap 0 :: condition

/-- A head line, the lines below it, and the closing word. -/
def inBlock (depth : Nat) (head lines : Row) : Row :=
  indent depth ++ head ++ .lineEnd true :: (lines ++ indent depth ++ [endWord])

/-- Braces around some lines. -/
def bracedLines (depth : Nat) (opening lines : Row) : Row :=
  opening ++ .lineEnd false :: (lines ++ indent depth ++ [rightBrace])

mutual

def expr (depth : Nat) : PlainExpr → Row
  | .literal _ value => [literal value]
  | .symbol _ name => [spelled .symbol (":" ++ name)]
  | .name _ name => [spelled .name name]
  | .global _ name => [spelled .global ("$" ++ name)]
  | .constant _ name => [spelled .constant name]
  | .array _ elements =>
    spelled .leftBracket "[" ::
      (separated (exprsAt depth Level.ternary elements) ++ [spelled .rightBracket "]"])
  | .splat _ value => spelled .star "*" :: atLevel Level.ternary value.level (expr depth value)
  | .range _ start stop exclusive =>
    atLevel Level.disjunction start.level (expr depth start) ++
      (if exclusive then spelled .dot3 "..." else spelled .dot2 "..") ::
        atLevel Level.disjunction stop.level (expr depth stop)
  | .binary _ op left right =>
    let levels := Printer.operandLevels op (op.level?.getD 0)
    atLevel levels.1 left.level (expr depth left) ++
      .gap 0 :: spelled op.kind op.spelling :: .gap 0 ::
        atLevel levels.2 right.level (expr depth right)
  | .unary _ op operand =>
    if op = .keywordNot then
      conditionHead .kwNot "not" (atLevel Level.negation operand.level (expr depth operand))
    else
      spelled op.kind op.spelling :: atLevel Level.unary operand.level (expr depth operand)
  | .ternary _ condition thenValue elseValue =>
    atLevel Level.range condition.level (expr depth condition) ++
      .gap 0 :: spelled .question "?" :: .gap 0 ::
        (atLevel Level.ternary thenValue.level (expr depth thenValue) ++
          .gap 0 :: spelled .colon ":" :: .gap 0 ::
            atLevel Level.ternary elseValue.level (expr depth elseValue))
  | .call _ receiver method args block parens =>
    (match receiver with
      | none => []
      | some receiver =>
        atLevel Level.postfixForm receiver.level (expr depth receiver) ++ [spelled .dot "."]) ++
    spelled .name method :: (argList parens (exprsAt depth Level.ternary args) ++
      match block with
      | none => []
      | some (.mk _ _ parameters body) => .gap 0 :: braces depth (params depth parameters) body)
  | .index _ value args =>
    atLevel Level.postfixForm value.level (expr depth value) ++
      spelled .leftBracket "[" ::
        (separated (exprsAt depth Level.ternary args) ++ [spelled .rightBracket "]"])
  | .lambda _ _ parameters body =>
    spelled .arrow "->" :: (paramList (params depth parameters) ++ .gap 0 :: braces depth [] body)
  | .assign _ target value =>
    atLevel Level.postfixForm target.level (expr depth target) ++
      .gap 0 :: spelled .assign "=" :: .gap 0 ::
        atLevel (Printer.assignedLevel value) value.level (expr depth value)
  | .opAssign _ target op value =>
    atLevel Level.postfixForm target.level (expr depth target) ++
      .gap 0 :: spelled .opAssign (op.spelling ++ "=") :: .gap 0 ::
        atLevel (Printer.assignedLevel value) value.level (expr depth value)
  | .multiAssign _ targets values =>
    separated (exprsAt depth Level.postfixForm targets) ++
      .gap 0 :: spelled .assign "=" :: .gap 0 ::
        separated (exprsAt depth Level.ternary values)
  | .block _ | .param _ | .stmt _ => []

/-- The rows of expressions, each at least at a level. -/
def exprsAt (depth level : Nat) : List PlainExpr → List Row
  | [] => []
  | first :: rest => atLevel level first.level (expr depth first) :: exprsAt depth level rest

def params (depth : Nat) : List PlainParam → List Row
  | [] => []
  | .mk name _ none :: rest => [spelled .name name] :: params depth rest
  | .mk name _ (some value) :: rest =>
    (spelled .name name :: .gap 0 :: spelled .assign "=" :: .gap 0 ::
      atLevel Level.ternary value.level (expr depth value)) :: params depth rest

/-- The body of a block or lambda in braces. -/
def braces (depth : Nat) (params : List Row) : List PlainStmt → Row
  | [] => if params.isEmpty then [leftBrace, rightBrace]
    else blockHead params ++ [.gap 0, rightBrace]
  | [only] =>
    if only.oneLine then
      blockHead params ++ .gap 0 :: (stmt 0 only ++ [.gap 0, rightBrace])
    else bracedLines depth (blockHead params) (stmt (depth + 1) only ++ [.lineEnd true])
  | first :: rest =>
    bracedLines depth (blockHead params)
      (stmt (depth + 1) first ++ .lineEnd true :: stmts (depth + 1) rest)

/-- The lines of a statement, without the end of the last one. -/
def stmt (depth : Nat) : PlainStmt → Row
  | .define _ _ name parameters body =>
    inBlock depth
      (spelled .kwDef "def" :: .gap 0 :: spelled .name name :: paramList (params depth parameters))
      (stmts (depth + 1) body)
  | .expression _ value => indent depth ++ expr depth value
  | .conditional _ condition thenBody elseBody negated modifier _ =>
    let head := conditionHead (if negated then .kwUnless else .kwIf)
      (if negated then "unless" else "if")
      (atLevel Level.keyword condition.level (expr depth condition))
    if writtenAfter modifier thenBody elseBody then
      (match thenBody with
        | [only] => stmt depth only
        | _ => []) ++ .gap 0 :: head
    else
      inBlock depth head (stmts (depth + 1) thenBody ++ elseLines depth (!negated) elseBody)
  | .whileLoop _ condition body =>
    inBlock depth (conditionHead .kwWhile "while"
      (atLevel Level.keyword condition.level (expr depth condition))) (stmts (depth + 1) body)
  | .jump _ kind none => indent depth ++ [spelled kind.tokenKind kind.keyword]
  | .jump _ kind (some value) =>
    indent depth ++ conditionHead kind.tokenKind kind.keyword
      (atLevel Level.ternary value.level (expr depth value))
  | .bare _ => []

def elseLines (depth : Nat) (chain : Bool) : List PlainStmt → Row
  | [] => []
  | [.conditional loc condition thenBody elseBody negated modifier elsif] =>
    if chain && elsif && !negated then
      indent depth ++ conditionHead .kwElsif "elsif"
        (atLevel Level.keyword condition.level (expr depth condition)) ++
        .lineEnd true :: (stmts (depth + 1) thenBody ++ elseLines depth chain elseBody)
    else
      indent depth ++ spelled .kwElse "else" :: .lineEnd false ::
        (stmt (depth + 1)
          (.conditional loc condition thenBody elseBody negated modifier elsif) ++
          [.lineEnd true])
  | first :: rest =>
    indent depth ++ spelled .kwElse "else" :: .lineEnd false ::
      (stmt (depth + 1) first ++ .lineEnd true :: stmts (depth + 1) rest)

/-- The lines of statements, each with its end. -/
def stmts (depth : Nat) : List PlainStmt → Row
  | [] => []
  | first :: rest => stmt depth first ++ .lineEnd true :: stmts depth rest

end

theorem expr_call_some (depth : Nat) (loc : Loc) (receiver : PlainExpr) (method : String)
    (args : List PlainExpr) (block : Option PlainBlock) (parens : Bool) :
    expr depth (.call loc (some receiver) method args block parens) =
      atLevel Level.postfixForm receiver.level (expr depth receiver) ++
        spelled .dot "." :: expr depth (.call loc none method args block parens) := by
  rcases block with _ | ⟨blockLoc, scope, parameters, body⟩ <;> simp [expr]

/-- An else branch that is no lone conditional is written below its keyword. -/
theorem elseLines_of_plain {depth : Nat} {chain : Bool} {first : PlainStmt}
    {rest : List PlainStmt} (plain : rest ≠ [] ∨ first.isConditional = false) :
    elseLines depth chain (first :: rest) =
      indent depth ++ spelled .kwElse "else" :: .lineEnd false ::
        (stmt (depth + 1) first ++ .lineEnd true :: stmts (depth + 1) rest) := by
  rw [elseLines]
  rintro loc condition thenBody elseBody negated modifier elsif rfl rfl
  simp [Stmt.isConditional] at plain

/-- The lines of a program; a blank line follows each method definition but the last statement. -/
def program : PlainProgram → Row
  | [] => []
  | [only] => stmt 0 only ++ [.lineEnd true]
  | first :: rest =>
    stmt 0 first ++ .lineEnd true ::
      ((if Printer.isDefinition first then [.lineEnd false] else []) ++ program rest)

end Row

end Hoist
