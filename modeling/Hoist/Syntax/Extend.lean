import Hoist.Syntax.Tree

/-!
Adding statements to the blocks of a tree.
-/

namespace Hoist

variable {ν σ : Type}

mutual

/-- Adds statements at the end of the blocks, by their marks. -/
def Expr.extend (tail : σ → List (Stmt ν σ)) : Expr ν σ → Expr ν σ
  | .literal loc value => .literal loc value
  | .symbol loc name => .symbol loc name
  | .name loc occurrence => .name loc occurrence
  | .global loc name => .global loc name
  | .constant loc name => .constant loc name
  | .array loc elements => .array loc (extendExprs tail elements)
  | .splat loc value => .splat loc (value.extend tail)
  | .range loc start stop exclusive => .range loc (start.extend tail) (stop.extend tail) exclusive
  | .binary loc op left right => .binary loc op (left.extend tail) (right.extend tail)
  | .unary loc op operand => .unary loc op (operand.extend tail)
  | .ternary loc condition thenValue elseValue =>
    .ternary loc (condition.extend tail) (thenValue.extend tail) (elseValue.extend tail)
  | .lambda loc scope params body =>
    .lambda loc scope (extendParams tail params) (extendStmts tail body)
  | .call loc receiver method args block parens =>
    .call loc
      (match receiver with | none => none | some receiver => some (receiver.extend tail))
      method (extendExprs tail args)
      (match block with
        | none => none
        | some (.mk loc scope params body) =>
          some (.mk loc scope (extendParams tail params) (extendStmts tail body ++ tail scope)))
      parens
  | .index loc value args => .index loc (value.extend tail) (extendExprs tail args)
  | .assign loc target value => .assign loc (target.extend tail) (value.extend tail)
  | .opAssign loc target op value => .opAssign loc (target.extend tail) op (value.extend tail)
  | .multiAssign loc targets values =>
    .multiAssign loc (extendExprs tail targets) (extendExprs tail values)
  | .block (.mk loc scope params body) =>
    .block (.mk loc scope (extendParams tail params) (extendStmts tail body ++ tail scope))
  | .param (.mk name loc none) => .param (.mk name loc none)
  | .param (.mk name loc (some value)) => .param (.mk name loc (some (value.extend tail)))
  | .stmt stmt => .stmt (stmt.extend tail)

def extendExprs (tail : σ → List (Stmt ν σ)) : List (Expr ν σ) → List (Expr ν σ)
  | [] => []
  | first :: rest => first.extend tail :: extendExprs tail rest

def extendParams (tail : σ → List (Stmt ν σ)) : List (Param ν σ) → List (Param ν σ)
  | [] => []
  | .mk name loc none :: rest => .mk name loc none :: extendParams tail rest
  | .mk name loc (some value) :: rest =>
    .mk name loc (some (value.extend tail)) :: extendParams tail rest

def Stmt.extend (tail : σ → List (Stmt ν σ)) : Stmt ν σ → Stmt ν σ
  | .define loc scope name params body =>
    .define loc scope name (extendParams tail params) (extendStmts tail body)
  | .expression loc value => .expression loc (value.extend tail)
  | .conditional loc condition thenBody elseBody negated modifier elsif =>
    .conditional loc (condition.extend tail) (extendStmts tail thenBody)
      (extendStmts tail elseBody) negated modifier elsif
  | .whileLoop loc condition body =>
    .whileLoop loc (condition.extend tail) (extendStmts tail body)
  | .jump loc kind none => .jump loc kind none
  | .jump loc kind (some value) => .jump loc kind (some (value.extend tail))
  | .bare expr => .bare (expr.extend tail)

def extendStmts (tail : σ → List (Stmt ν σ)) : List (Stmt ν σ) → List (Stmt ν σ)
  | [] => []
  | first :: rest => first.extend tail :: extendStmts tail rest

end

end Hoist
