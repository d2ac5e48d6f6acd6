import Hoist.Syntax.Tree

/-!
Changing what a tree carries: its variable occurrences and its scope marks.  Erasing a resolved tree
gives back the plain one.
-/

namespace Hoist

/-- What becomes of the parts of a tree. -/
structure Relabel (ν σ ν' σ' : Type) where
  occurrence : ν → ν'
  scope : σ → σ'

variable {ν σ ν' σ' : Type}

mutual

def Expr.relabel (change : Relabel ν σ ν' σ') : Expr ν σ → Expr ν' σ'
  | .literal loc value => .literal loc value
  | .symbol loc name => .symbol loc name
  | .name loc occurrence => .name loc (change.occurrence occurrence)
  | .global loc name => .global loc name
  | .constant loc name => .constant loc name
  | .array loc elements => .array loc (relabelExprs change elements)
  | .splat loc value => .splat loc (value.relabel change)
  | .range loc start stop exclusive =>
    .range loc (start.relabel change) (stop.relabel change) exclusive
  | .binary loc op left right => .binary loc op (left.relabel change) (right.relabel change)
  | .unary loc op operand => .unary loc op (operand.relabel change)
  | .ternary loc condition thenValue elseValue =>
    .ternary loc (condition.relabel change) (thenValue.relabel change) (elseValue.relabel change)
  | .lambda loc scope params body =>
    .lambda loc (change.scope scope) (relabelParams change params) (relabelStmts change body)
  | .call loc receiver method args block parens =>
    .call loc
      (match receiver with | none => none | some receiver => some (receiver.relabel change))
      method (relabelExprs change args)
      (match block with
        | none => none
        | some (.mk loc scope params body) =>
          some (.mk loc (change.scope scope) (relabelParams change params)
            (relabelStmts change body)))
      parens
  | .index loc value args => .index loc (value.relabel change) (relabelExprs change args)
  | .assign loc target value => .assign loc (target.relabel change) (value.relabel change)
  | .opAssign loc target op value => .opAssign loc (target.relabel change) op (value.relabel change)
  | .multiAssign loc targets values =>
    .multiAssign loc (relabelExprs change targets) (relabelExprs change values)
  | .block (.mk loc scope params body) =>
    .block (.mk loc (change.scope scope) (relabelParams change params) (relabelStmts change body))
  | .param (.mk name loc none) => .param (.mk name loc none)
  | .param (.mk name loc (some value)) => .param (.mk name loc (some (value.relabel change)))
  | .stmt stmt => .stmt (stmt.relabel change)

def relabelExprs (change : Relabel ν σ ν' σ') : List (Expr ν σ) → List (Expr ν' σ')
  | [] => []
  | first :: rest => first.relabel change :: relabelExprs change rest

def relabelParams (change : Relabel ν σ ν' σ') : List (Param ν σ) → List (Param ν' σ')
  | [] => []
  | .mk name loc none :: rest => .mk name loc none :: relabelParams change rest
  | .mk name loc (some value) :: rest =>
    .mk name loc (some (value.relabel change)) :: relabelParams change rest

def Stmt.relabel (change : Relabel ν σ ν' σ') : Stmt ν σ → Stmt ν' σ'
  | .define loc scope name params body =>
    .define loc (change.scope scope) name (relabelParams change params) (relabelStmts change body)
  | .expression loc value => .expression loc (value.relabel change)
  | .conditional loc condition thenBody elseBody negated modifier elsif =>
    .conditional loc (condition.relabel change) (relabelStmts change thenBody)
      (relabelStmts change elseBody) negated modifier elsif
  | .whileLoop loc condition body =>
    .whileLoop loc (condition.relabel change) (relabelStmts change body)
  | .jump loc kind none => .jump loc kind none
  | .jump loc kind (some value) => .jump loc kind (some (value.relabel change))
  | .bare expr => .bare (expr.relabel change)

def relabelStmts (change : Relabel ν σ ν' σ') : List (Stmt ν σ) → List (Stmt ν' σ')
  | [] => []
  | first :: rest => first.relabel change :: relabelStmts change rest

end

end Hoist
