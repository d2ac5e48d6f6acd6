import Hoist.Syntax.Tree
import Hoist.Syntax.StringLiteral
import Hoist.Decimal.FloatText
import Hoist.Decimal.Reading

/-!
Trees to canonical program text: two blanks of indentation, parentheses around the arguments of
every call that has some, and around a part of an expression only where its operator binds too
loosely.
-/

namespace Hoist

/-- Why a tree has no text. -/
inductive PrintError where
  /-- A part that stands where a statement belongs. -/
  | statementKind (label : String)
  /-- A part that stands where an expression belongs. -/
  | expressionKind (label : String)
  | unknownOperator (spelling : String)
  /-- An integer with more digits than can be written. -/
  | integerTooLong
deriving DecidableEq, Repr

abbrev Printing := Except PrintError

namespace Printer

def indent (depth : Nat) : Text := Text.replicate (2 * depth) ' '

def commaSeparated (items : List Text) : Text := Text.intercalate ", " items

def literal : Literal → Printing Text
  | .nil => .ok "nil"
  | .bool true => .ok "true"
  | .bool false => .ok "false"
  | .int value =>
    match Decimal.intText? value with
    | some text => .ok text
    | none => .error .integerTooLong
  | .float value => .ok (Decimal.floatText Decimal.literalStyle value)
  | .str value => .ok (StringLiteral.render value)

/-- A text and the level it binds at, put in parentheses where a tighter level is called for. -/
def atLevel (level : Nat) : Text × Nat → Text
  | (text, own) => if own < level then "(" ++ text ++ ")" else text

def operandLevels (op : BinaryOp) (level : Nat) : Nat × Nat :=
  if op = .power then (Level.postfixForm, Level.unary)
  else if level = Level.equality then (level + 1, level + 1)
  else (level, level + 1)

/-- The level that the right side of an assignment has to reach; another assignment to one target
stands there as it is. -/
def assignedLevel : PlainExpr → Nat
  | .assign .. | .opAssign .. => 0
  | _ => Level.ternary

def mayBeOneLine : PlainStmt → Bool
  | .expression .. | .jump .. => true
  | .conditional _ _ _ _ _ modifier _ => modifier
  | _ => false

/-- The only line of a statement, if it has only one. -/
def onlyLine? : List Text → Option Text
  | [line] => if line.contains '\n' then none else some line
  | _ => none

def blockHead (params : List Text) : Text :=
  if params.isEmpty then "\x7b" else "\x7b |" ++ commaSeparated params ++ "|"

def emptyBraces (opening : Text) : Text :=
  if opening == blockHead [] then opening ++ "\x7d" else opening ++ " \x7d"

def bracedLines (depth : Nat) (opening : Text) (lines : List Text) : Text :=
  Text.intercalate "\n" (opening :: lines ++ [indent depth ++ "\x7d"])

mutual

def expr (depth : Nat) : PlainExpr → Printing (Text × Nat)
  | .literal _ value => do return (← literal value, Level.postfixForm)
  | .symbol _ name => .ok (":" ++ name, Level.postfixForm)
  | .name _ name => .ok (name, Level.postfixForm)
  | .global _ name => .ok ("$" ++ name, Level.postfixForm)
  | .constant _ name => .ok (name, Level.postfixForm)
  | .array _ elements => do
    let elements ← exprsAt depth Level.ternary elements
    return ("[" ++ commaSeparated elements ++ "]", Level.postfixForm)
  | .splat _ value => do
    return ("*" ++ atLevel Level.ternary (← expr depth value), Level.postfixForm)
  | .range _ start stop exclusive => do
    let start := atLevel Level.disjunction (← expr depth start)
    let stop := atLevel Level.disjunction (← expr depth stop)
    return (start ++ (if exclusive then "..." else "..") ++ stop, Level.range)
  | .binary _ op left right => do
    match op.level? with
    | none => throw (.unknownOperator op.spelling)
    | some level =>
      let (leftLevel, rightLevel) := operandLevels op level
      let left := atLevel leftLevel (← expr depth left)
      let right := atLevel rightLevel (← expr depth right)
      return (left ++ " " ++ op.spelling ++ " " ++ right, level)
  | .unary _ op operand => do
    let operand ← expr depth operand
    if op = .keywordNot then return ("not " ++ atLevel Level.negation operand, Level.negation)
    else return (op.spelling ++ atLevel Level.unary operand, Level.unary)
  | .ternary _ condition thenValue elseValue => do
    let condition := atLevel Level.range (← expr depth condition)
    let thenValue := atLevel Level.ternary (← expr depth thenValue)
    let elseValue := atLevel Level.ternary (← expr depth elseValue)
    return (condition ++ " ? " ++ thenValue ++ " : " ++ elseValue, Level.ternary)
  | .call _ receiver method arguments block parens => do
    let head : Text ← match receiver with
      | none => pure method
      | some receiver => pure (atLevel Level.postfixForm (← expr depth receiver) ++ "." ++ method)
    let arguments ← exprsAt depth Level.ternary arguments
    let head :=
      if !arguments.isEmpty then head ++ "(" ++ commaSeparated arguments ++ ")"
      else if parens then head ++ "()" else head
    match block with
    | none => return (head, Level.postfixForm)
    | some (.mk _ _ parameters body) =>
      let opening := blockHead (← params depth parameters)
      return (head ++ " " ++ (← braces depth opening body), Level.postfixForm)
  | .index _ value arguments => do
    let value := atLevel Level.postfixForm (← expr depth value)
    let arguments ← exprsAt depth Level.ternary arguments
    return (value ++ "[" ++ commaSeparated arguments ++ "]", Level.postfixForm)
  | .lambda _ _ parameters body => do
    let parameters ← params depth parameters
    let head : Text :=
      if parameters.isEmpty then "->" else "->(" ++ commaSeparated parameters ++ ")"
    return (head ++ " " ++ (← braces depth (blockHead []) body), Level.postfixForm)
  | .assign _ target value => do
    let target := atLevel Level.postfixForm (← expr depth target)
    return (target ++ " = " ++ atLevel (assignedLevel value) (← expr depth value), 0)
  | .opAssign _ target op value => do
    let target := atLevel Level.postfixForm (← expr depth target)
    return (target ++ " " ++ op.spelling ++ "= " ++
      atLevel (assignedLevel value) (← expr depth value), 0)
  | .multiAssign _ targets values => do
    let targets ← exprsAt depth Level.postfixForm targets
    let values ← exprsAt depth Level.ternary values
    return (commaSeparated targets ++ " = " ++ commaSeparated values, 0)
  | .block _ => .error (.expressionKind "BlockLiteral")
  | .param _ => .error (.expressionKind "Param")
  | .stmt stmt => .error (.expressionKind stmt.label)

/-- The texts of expressions, each at least at a level. -/
def exprsAt (depth level : Nat) : List PlainExpr → Printing (List Text)
  | [] => .ok []
  | first :: rest => do
    let first := atLevel level (← expr depth first)
    return first :: (← exprsAt depth level rest)

def params (depth : Nat) : List PlainParam → Printing (List Text)
  | [] => .ok []
  | .mk name _ none :: rest => do return name :: (← params depth rest)
  | .mk name _ (some value) :: rest => do
    let value := atLevel Level.ternary (← expr depth value)
    return (name ++ " = " ++ value) :: (← params depth rest)

/-- A block or lambda body in braces, on one line if it is a single statement of one line. -/
def braces (depth : Nat) (opening : Text) : List PlainStmt → Printing Text
  | [] => .ok (emptyBraces opening)
  | [only] => do
    let line? ← if mayBeOneLine only then pure (onlyLine? (← stmt 0 only)) else pure none
    match line? with
    | some line => return opening ++ " " ++ line ++ " \x7d"
    | none => return bracedLines depth opening (← stmt (depth + 1) only)
  | first :: rest => do
    let lines := (← stmt (depth + 1) first) ++ (← stmts (depth + 1) rest)
    return bracedLines depth opening lines

def stmt (depth : Nat) : PlainStmt → Printing (List Text)
  | .define _ _ name parameters body => do
    let parameters ← params depth parameters
    let list : Text := if parameters.isEmpty then "" else "(" ++ commaSeparated parameters ++ ")"
    let head := "def " ++ name ++ list
    return (indent depth ++ head) :: (← stmts (depth + 1) body) ++ [indent depth ++ "end"]
  | .expression _ value => do return [indent depth ++ (← expr depth value).1]
  | .conditional _ condition thenBody elseBody negated modifier _ => do
    let head := (if negated then "unless " else "if ") ++
      atLevel Level.keyword (← expr depth condition)
    let line? ← match thenBody with
      | [only] =>
        if modifier && elseBody.isEmpty && mayBeOneLine only then
          pure (onlyLine? (← stmt depth only))
        else pure none
      | _ => pure none
    match line? with
    | some line => return [line ++ " " ++ head]
    | none =>
      let thenLines ← stmts (depth + 1) thenBody
      let elseLines ← elseLines depth (!negated) elseBody
      return (indent depth ++ head) :: thenLines ++ elseLines ++ [indent depth ++ "end"]
  | .whileLoop _ condition body => do
    let head := "while " ++ atLevel Level.keyword (← expr depth condition)
    return (indent depth ++ head) :: (← stmts (depth + 1) body) ++ [indent depth ++ "end"]
  | .jump _ kind none => .ok [indent depth ++ kind.keyword]
  | .jump _ kind (some value) => do
    return [indent depth ++ kind.keyword ++ " " ++ atLevel Level.ternary (← expr depth value)]
  | .bare value => .error (.statementKind value.label)

/-- The lines of an else branch.  With `chain`, a conditional that was written as `elsif` is
written so again. -/
def elseLines (depth : Nat) (chain : Bool) : List PlainStmt → Printing (List Text)
  | [] => .ok []
  | [.conditional loc condition thenBody elseBody negated modifier elsif] => do
    if chain && elsif && !negated then
      let head := "elsif " ++ atLevel Level.keyword (← expr depth condition)
      let thenLines ← stmts (depth + 1) thenBody
      return (indent depth ++ head) :: thenLines ++ (← elseLines depth chain elseBody)
    else
      return (indent depth ++ "else") ::
        (← stmt (depth + 1) (.conditional loc condition thenBody elseBody negated modifier elsif))
  | first :: rest => do
    let lines := (← stmt (depth + 1) first) ++ (← stmts (depth + 1) rest)
    return (indent depth ++ "else") :: lines

def stmts (depth : Nat) : List PlainStmt → Printing (List Text)
  | [] => .ok []
  | first :: rest => do return (← stmt depth first) ++ (← stmts depth rest)

end

def isDefinition : PlainStmt → Bool
  | .define .. => true
  | _ => false

/-- The lines of a program; a blank line follows each method definition but the last statement. -/
def programLines : PlainProgram → Printing (List Text)
  | [] => .ok []
  | [only] => stmt 0 only
  | first :: rest => do
    let lines ← stmt 0 first
    return lines ++ (if isDefinition first then [("" : Text)] else []) ++ (← programLines rest)

end Printer

def print (program : PlainProgram) : Printing Text := do
  let lines ← Printer.programLines program
  return if lines.isEmpty then "" else Text.intercalate "\n" lines ++ "\n"

end Hoist
