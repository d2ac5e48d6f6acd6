import Hoist.Syntax.Loc
import Hoist.Syntax.Operator

/-!
Programs in a subset of Ruby, as trees.  The trees are parametrised by what a variable occurrence
carries and by what a method, block or lambda records of the scope it opens: program text gives
plain names and nothing else, scope resolution adds where each name leads.

A tree may be built by hand and hold a statement where an expression belongs, or the other way
round.  The constructors `Expr.stmt`, `Expr.param`, `Expr.block` and `Stmt.bare` stand for such
misplaced parts; no program text produces them.
-/

namespace Hoist

/-- Constants written in a program. -/
inductive Literal where
  | nil
  | bool (value : Bool)
  | int (value : Int)
  | float (value : Float)
  | str (value : Text)

/-- The statements that leave a method, a loop or one round of a loop. -/
inductive JumpKind where
  | returnJump
  | breakJump
  | nextJump
deriving DecidableEq, Repr

mutual

/-- Expressions over occurrences `ν` and scope marks `σ`. -/
inductive Expr (ν σ : Type) where
  | literal (loc : Loc) (value : Literal)
  | symbol (loc : Loc) (name : String)
  | name (loc : Loc) (occurrence : ν)
  | global (loc : Loc) (name : String)
  | constant (loc : Loc) (name : String)
  | array (loc : Loc) (elements : List (Expr ν σ))
  | splat (loc : Loc) (value : Expr ν σ)
  | range (loc : Loc) (start stop : Expr ν σ) (exclusive : Bool)
  | binary (loc : Loc) (op : BinaryOp) (left right : Expr ν σ)
  | unary (loc : Loc) (op : UnaryOp) (operand : Expr ν σ)
  | ternary (loc : Loc) (condition thenValue elseValue : Expr ν σ)
  | lambda (loc : Loc) (scope : σ) (params : List (Param ν σ)) (body : List (Stmt ν σ))
  /-- A method call; without a receiver it goes to the program itself.  `parens` tells whether an
  argument list was written. -/
  | call (loc : Loc) (receiver : Option (Expr ν σ)) (method : String) (args : List (Expr ν σ))
      (block : Option (Block ν σ)) (parens : Bool)
  | index (loc : Loc) (value : Expr ν σ) (args : List (Expr ν σ))
  | assign (loc : Loc) (target value : Expr ν σ)
  | opAssign (loc : Loc) (target : Expr ν σ) (op : BinaryOp) (value : Expr ν σ)
  | multiAssign (loc : Loc) (targets values : List (Expr ν σ))
  /-- A block without a call. -/
  | block (block : Block ν σ)
  /-- A parameter in the place of an expression. -/
  | param (param : Param ν σ)
  /-- A statement in the place of an expression. -/
  | stmt (stmt : Stmt ν σ)

/-- A parameter of a method, block or lambda, perhaps with a default. -/
inductive Param (ν σ : Type) where
  | mk (name : String) (loc : Loc) (default : Option (Expr ν σ))

/-- A block attached to a call. -/
inductive Block (ν σ : Type) where
  | mk (loc : Loc) (scope : σ) (params : List (Param ν σ)) (body : List (Stmt ν σ))

/-- Statements. -/
inductive Stmt (ν σ : Type) where
  | define (loc : Loc) (scope : σ) (name : String) (params : List (Param ν σ))
      (body : List (Stmt ν σ))
  | expression (loc : Loc) (value : Expr ν σ)
  /-- `if`, and `unless` when `negated`.  `modifier` marks the form `statement if condition`, and
  `elsif` a conditional that stands alone in the else branch it was written as. -/
  | conditional (loc : Loc) (condition : Expr ν σ) (thenBody elseBody : List (Stmt ν σ))
      (negated modifier elsif : Bool)
  | whileLoop (loc : Loc) (condition : Expr ν σ) (body : List (Stmt ν σ))
  | jump (loc : Loc) (kind : JumpKind) (value : Option (Expr ν σ))
  /-- An expression in the place of a statement. -/
  | bare (expr : Expr ν σ)

end

abbrev Program (ν σ : Type) := List (Stmt ν σ)

abbrev PlainExpr := Expr String Unit
abbrev PlainParam := Param String Unit
abbrev PlainBlock := Block String Unit
abbrev PlainStmt := Stmt String Unit
abbrev PlainProgram := Program String Unit

variable {ν σ : Type}

instance : Inhabited (Expr ν σ) := ⟨.literal default .nil⟩

instance : Inhabited (Stmt ν σ) := ⟨.expression default default⟩

instance : Inhabited (Param ν σ) := ⟨.mk "" default none⟩

instance [Inhabited σ] : Inhabited (Block ν σ) := ⟨.mk default default [] []⟩

namespace Param

def name : Param ν σ → String
  | .mk name _ _ => name

def loc : Param ν σ → Loc
  | .mk _ loc _ => loc

def default : Param ν σ → Option (Expr ν σ)
  | .mk _ _ default => default

end Param

namespace Block

def loc : Block ν σ → Loc
  | .mk loc _ _ _ => loc

def scope : Block ν σ → σ
  | .mk _ scope _ _ => scope

def params : Block ν σ → List (Param ν σ)
  | .mk _ _ params _ => params

def body : Block ν σ → List (Stmt ν σ)
  | .mk _ _ _ body => body

end Block

namespace JumpKind

def keyword : JumpKind → String
  | .returnJump => "return"
  | .breakJump => "break"
  | .nextJump => "next"

def label : JumpKind → String
  | .returnJump => "ReturnStmt"
  | .breakJump => "BreakStmt"
  | .nextJump => "NextStmt"

end JumpKind

mutual

def Expr.label : Expr ν σ → String
  | .literal .. => "Literal"
  | .symbol .. => "SymbolLit"
  | .name .. => "Name"
  | .global .. => "GlobalRef"
  | .constant .. => "Const"
  | .array .. => "ArrayLiteral"
  | .splat .. => "Splat"
  | .range .. => "RangeLit"
  | .binary .. => "Binary"
  | .unary .. => "Unary"
  | .ternary .. => "Ternary"
  | .lambda .. => "Lambda"
  | .call .. => "Call"
  | .index .. => "Index"
  | .assign .. => "Assign"
  | .opAssign .. => "OpAssign"
  | .multiAssign .. => "MultiAssign"
  | .block _ => "BlockLiteral"
  | .param _ => "Param"
  | .stmt stmt => stmt.label

def Stmt.label : Stmt ν σ → String
  | .define .. => "FunctionDef"
  | .expression .. => "ExprStmt"
  | .conditional .. => "IfStmt"
  | .whileLoop .. => "WhileStmt"
  | .jump _ kind _ => kind.label
  | .bare expr => expr.label

end

mutual

def Expr.loc : Expr ν σ → Loc
  | .literal loc _ | .symbol loc _ | .name loc _ | .global loc _ | .constant loc _ | .array loc _
  | .splat loc _ | .range loc _ _ _ | .binary loc _ _ _ | .unary loc _ _ | .ternary loc _ _ _
  | .lambda loc _ _ _ | .call loc _ _ _ _ _ | .index loc _ _ | .assign loc _ _
  | .opAssign loc _ _ _ | .multiAssign loc _ _ => loc
  | .block block => block.loc
  | .param param => param.loc
  | .stmt stmt => stmt.loc

def Stmt.loc : Stmt ν σ → Loc
  | .define loc _ _ _ _ | .expression loc _ | .conditional loc _ _ _ _ _ _ | .whileLoop loc _ _
  | .jump loc _ _ => loc
  | .bare expr => expr.loc

end

/-- The parts of a tree that a traversal meets. -/
inductive Node (ν σ : Type) where
  | expr (expr : Expr ν σ)
  | param (param : Param ν σ)
  | block (block : Block ν σ)
  | stmt (stmt : Stmt ν σ)

abbrev PlainNode := Node String Unit

mutual

/-- An expression and all that it contains, each before its parts, in reading order. -/
def Expr.walk : Expr ν σ → List (Node ν σ)
  | expr@(.literal ..) | expr@(.symbol ..) | expr@(.name ..) | expr@(.global ..)
  | expr@(.constant ..) => [.expr expr]
  | expr@(.array _ elements) => .expr expr :: walkExprs elements
  | expr@(.splat _ value) => .expr expr :: value.walk
  | expr@(.range _ start stop _) => .expr expr :: (start.walk ++ stop.walk)
  | expr@(.binary _ _ left right) => .expr expr :: (left.walk ++ right.walk)
  | expr@(.unary _ _ operand) => .expr expr :: operand.walk
  | expr@(.ternary _ condition thenValue elseValue) =>
    .expr expr :: (condition.walk ++ thenValue.walk ++ elseValue.walk)
  | expr@(.lambda _ _ params body) => .expr expr :: (walkParams params ++ walkStmts body)
  | expr@(.call _ receiver _ args block _) =>
    .expr expr ::
      ((match receiver with | none => [] | some receiver => receiver.walk) ++ walkExprs args ++
        (match block with
          | none => []
          | some block@(.mk _ _ params body) =>
            .block block :: (walkParams params ++ walkStmts body)))
  | expr@(.index _ value args) => .expr expr :: (value.walk ++ walkExprs args)
  | expr@(.assign _ target value) => .expr expr :: (target.walk ++ value.walk)
  | expr@(.opAssign _ target _ value) => .expr expr :: (target.walk ++ value.walk)
  | expr@(.multiAssign _ targets values) => .expr expr :: (walkExprs targets ++ walkExprs values)
  | .block block@(.mk _ _ params body) => .block block :: (walkParams params ++ walkStmts body)
  | .param param@(.mk _ _ none) => [.param param]
  | .param param@(.mk _ _ (some value)) => .param param :: value.walk
  | .stmt stmt => stmt.walk

def walkExprs : List (Expr ν σ) → List (Node ν σ)
  | [] => []
  | expr :: rest => expr.walk ++ walkExprs rest

def walkParams : List (Param ν σ) → List (Node ν σ)
  | [] => []
  | param@(.mk _ _ none) :: rest => .param param :: walkParams rest
  | param@(.mk _ _ (some value)) :: rest => .param param :: (value.walk ++ walkParams rest)

/-- A statement and all that it contains; the body of `statement if condition` is met before the
condition, as it is read. -/
def Stmt.walk : Stmt ν σ → List (Node ν σ)
  | stmt@(.define _ _ _ params body) => .stmt stmt :: (walkParams params ++ walkStmts body)
  | stmt@(.expression _ value) => .stmt stmt :: value.walk
  | stmt@(.conditional _ condition thenBody elseBody _ modifier _) =>
    .stmt stmt ::
      ((if modifier then walkStmts thenBody ++ condition.walk
        else condition.walk ++ walkStmts thenBody) ++ walkStmts elseBody)
  | stmt@(.whileLoop _ condition body) => .stmt stmt :: (condition.walk ++ walkStmts body)
  | stmt@(.jump _ _ none) => [.stmt stmt]
  | stmt@(.jump _ _ (some value)) => .stmt stmt :: value.walk
  | .bare expr => expr.walk

def walkStmts : List (Stmt ν σ) → List (Node ν σ)
  | [] => []
  | stmt :: rest => stmt.walk ++ walkStmts rest

end

end Hoist
