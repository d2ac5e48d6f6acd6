/-!
Operators and how tightly they bind.  Levels are numbered from the loosest, the keyword operators,
to the tightest, the postfix forms; the parser and the printer share the numbering.
-/

namespace Hoist

/-- Binary operators.  `other` stands for a spelling that no program text contains. -/
inductive BinaryOp where
  | keywordAnd
  | keywordOr
  | logicalOr
  | logicalAnd
  | equal
  | notEqual
  | less
  | greater
  | lessEqual
  | greaterEqual
  | add
  | subtract
  | multiply
  | divide
  | modulo
  | power
  | other (spelling : String)
deriving DecidableEq, Repr

/-- Unary operators.  `other` stands for a spelling that no program text contains. -/
inductive UnaryOp where
  | negate
  | bang
  | keywordNot
  | other (spelling : String)
deriving DecidableEq, Repr

def BinaryOp.spelling : BinaryOp → String
  | .keywordAnd => "and"
  | .keywordOr => "or"
  | .logicalOr => "||"
  | .logicalAnd => "&&"
  | .equal => "=="
  | .notEqual => "!="
  | .less => "<"
  | .greater => ">"
  | .lessEqual => "<="
  | .greaterEqual => ">="
  | .add => "+"
  | .subtract => "-"
  | .multiply => "*"
  | .divide => "/"
  | .modulo => "%"
  | .power => "**"
  | .other spelling => spelling

def BinaryOp.ofSpelling : String → BinaryOp
  | "and" => .keywordAnd
  | "or" => .keywordOr
  | "||" => .logicalOr
  | "&&" => .logicalAnd
  | "==" => .equal
  | "!=" => .notEqual
  | "<" => .less
  | ">" => .greater
  | "<=" => .lessEqual
  | ">=" => .greaterEqual
  | "+" => .add
  | "-" => .subtract
  | "*" => .multiply
  | "/" => .divide
  | "%" => .modulo
  | "**" => .power
  | spelling => .other spelling

def UnaryOp.spelling : UnaryOp → String
  | .negate => "-"
  | .bang => "!"
  | .keywordNot => "not"
  | .other spelling => spelling

def UnaryOp.ofSpelling : String → UnaryOp
  | "-" => .negate
  | "!" => .bang
  | "not" => .keywordNot
  | spelling => .other spelling

namespace Level

/-- `and`, `or`. -/
def keyword : Nat := 1
/-- `not`. -/
def negation : Nat := 2
/-- `a ? b : c`. -/
def ternary : Nat := 3
/-- `a..b`. -/
def range : Nat := 4
/-- `||`. -/
def disjunction : Nat := 5
/-- `&&`. -/
def conjunction : Nat := 6
/-- `==`, `!=`; these do not chain. -/
def equality : Nat := 7
/-- `<`, `>`, `<=`, `>=`. -/
def comparison : Nat := 8
/-- `+`, `-`. -/
def sum : Nat := 9
/-- `*`, `/`, `%`. -/
def term : Nat := 10
/-- `-a`, `!a`. -/
def unary : Nat := 11
/-- `a ** b`. -/
def power : Nat := 12
def postfixForm : Nat := 13

end Level

/-- The level of a binary operator; an unknown one has none. -/
def BinaryOp.level? : BinaryOp → Option Nat
  | .keywordAnd | .keywordOr => some Level.keyword
  | .logicalOr => some Level.disjunction
  | .logicalAnd => some Level.conjunction
  | .equal | .notEqual => some Level.equality
  | .less | .greater | .lessEqual | .greaterEqual => some Level.comparison
  | .add | .subtract => some Level.sum
  | .multiply | .divide | .modulo => some Level.term
  | .power => some Level.power
  | .other _ => none

end Hoist
