import Hoist.Eval.Evaluate
import Hoist.Proofs.Helper.Instantiate

/-!
Trees that differ in their writing alone.  A tree like a pattern has the parts of the pattern.
-/

namespace Hoist

/-- A tree that differs from another one in its writing alone. -/
def Expr.Like (tree pattern : PlainExpr) : Prop :=
  tree.reform .canonical = pattern.reform .canonical

def Stmt.Like (tree pattern : PlainStmt) : Prop :=
  tree.reform .canonical = pattern.reform .canonical

def StmtsLike (trees patterns : List PlainStmt) : Prop :=
  reformStmts .canonical trees = reformStmts .canonical patterns

def ExprsLike (trees patterns : List PlainExpr) : Prop :=
  reformExprs .canonical trees = reformExprs .canonical patterns

theorem ExprsLike.nil {trees : List PlainExpr} (like : ExprsLike trees []) : trees = [] := by
  cases trees with
  | nil => rfl
  | cons => cases like

theorem StmtsLike.nil {trees : List PlainStmt} (like : StmtsLike trees []) : trees = [] := by
  cases trees with
  | nil => rfl
  | cons => cases like

theorem StmtsLike.cons {trees patterns : List PlainStmt} {pattern : PlainStmt}
    (like : StmtsLike trees (pattern :: patterns)) :
    ∃ first rest, trees = first :: rest ∧ first.Like pattern ∧ StmtsLike rest patterns := by
  cases trees with
  | nil => cases like
  | cons first rest => exact ⟨first, rest, rfl, List.cons.inj like⟩

theorem Expr.isSplat_reform (tree : PlainExpr) :
    Evaluate.isSplat (tree.reform .canonical) = Evaluate.isSplat tree := by
  cases tree with
  | call => rw [Expr.reform_call]; rfl
  | _ => rfl

variable {value pattern : PlainExpr} {patterns : List PlainExpr}

namespace Expr.Like

variable {tree : PlainExpr}

theorem isSplat (like : tree.Like pattern) :
    Evaluate.isSplat tree = Evaluate.isSplat pattern := by
  rw [← Expr.isSplat_reform tree, like, Expr.isSplat_reform]

theorem symbol {name : String} (like : tree.Like (.symbol default name)) :
    ∃ loc, tree = .symbol loc name := by
  cases tree with
  | symbol loc => cases like; exact ⟨loc, rfl⟩
  | call => rw [Expr.Like, Expr.reform_call] at like; cases like
  | _ => cases like

theorem array (like : tree.Like (.array default patterns)) :
    ∃ loc elements, tree = .array loc elements ∧ ExprsLike elements patterns := by
  cases tree with
  | array loc elements => exact ⟨loc, elements, rfl, (Expr.array.inj like).2⟩
  | call => rw [Expr.Like, Expr.reform_call] at like; cases like
  | _ => cases like

theorem unary {op : UnaryOp} {operand : PlainExpr} (like : tree.Like (.unary default op operand)) :
    ∃ loc inner, tree = .unary loc op inner ∧ inner.Like operand := by
  cases tree with
  | unary loc _ inner =>
    obtain ⟨-, rfl, innerLike⟩ := Expr.unary.inj like
    exact ⟨loc, inner, rfl, innerLike⟩
  | call => rw [Expr.Like, Expr.reform_call] at like; cases like
  | _ => cases like

end Expr.Like

theorem Stmt.Like.evaluate {tree : PlainStmt} (like : tree.Like (Helper.evaluate value)) :
    ∃ loc expr, tree = .expression loc expr ∧ expr.Like value := by
  rcases tree with _ | ⟨loc, expr⟩ | _ | _ | ⟨_, _, _ | _⟩ | _
  case expression => exact ⟨loc, expr, rfl, (Stmt.expression.inj like).2⟩
  all_goals cases like

end Hoist
