import Hoist.Proofs.Syntax.RoundTrip
import Hoist.Proofs.Syntax.Walk

/-!
A reform of a tree contains the reforms of what the tree contains.  The order may differ, since a
conditional that follows its statement is met after it.
-/

namespace Hoist

open Lexeme

/-- A reform that makes a literal a leaf. -/
def Reform.KeepsLeaves (change : Reform) : Prop :=
  ∀ value, (change.literal value).walk = [.expr (change.literal value)]

theorem Reform.keepsLeaves_canonical : canonical.KeepsLeaves := fun _ => rfl

section Walk

variable {change : Reform} {wording : Wording String} {node : PlainNode}

namespace Node

attribute [local simp] here children exprs stmts opened Node.reform Expr.reform_call Block.reform
  Param.reform reformExprs_eq_map reformStmts_eq_map reformParams_eq_map Param.default Block.params
  Block.body Function.comp_def

/-- Whether a node is a literal, which a reform makes anew. -/
def isLiteral : Node String Unit → Bool
  | .expr (.literal ..) => true
  | _ => false

/-- The condition and the body of a conditional may change places. -/
theorem children_reform (valid : node.WellFormed wording) (other : node.isLiteral = false) :
    (node.reform change).here = [node.reform change] ∧ (node.reform change).children.Perm
      (node.children.map fun child => (child.1, child.2.reform change)) := by
  match node with
  | .expr tree =>
    obtain ⟨position, valid⟩ := valid
    cases tree with
    | literal => cases other
    | block | param | stmt => exact False.elim valid
    | call _ receiver _ _ block _ => cases receiver <;> cases block <;> simp
    | _ => simp [Expr.reform]
  | .param (.mk _ _ default) => cases default <;> simp
  | .block (.mk ..) => simp
  | .stmt tree =>
    obtain ⟨chain, valid⟩ := valid
    cases tree with
    | conditional _ _ thenBody elseBody _ marked _ =>
      cases changed : change.modifier marked thenBody elseBody <;> cases marked <;>
        simp [Stmt.reform, changed, List.perm_middle, List.perm_middle.symm]
    | jump _ _ value => cases value <;> simp [Stmt.reform]
    | bare => exact False.elim valid
    | _ => simp [Stmt.reform]

theorem walk_reform (leaves : change.KeepsLeaves) (valid : node.WellFormed wording) :
    (node.reform change).walk.Perm (node.walk.map (Node.reform change)) := by
  induction node using induct with
  | step node ih =>
    by_cases literal : node.isLiteral = true
    · unfold isLiteral at literal
      split at literal
      · exact .of_eq (leaves _)
      · cases literal
    · obtain ⟨isHere, perm⟩ :=
        @children_reform change wording node valid (Bool.eq_false_iff.2 literal)
      rw [walk_eq, isHere, node.walk_eq, valid.here, List.map_append, List.map_flatMap]
      refine List.Perm.cons _ ((perm.flatMap_right _).trans ?_)
      rw [List.flatMap_map]
      exact List.Perm.flatMap_left _ fun child member =>
        ih child member (valid.children child member)

end Node

theorem walkStmts_reform (leaves : change.KeepsLeaves) (trees : List PlainStmt) (chain : Bool)
    (valid : stmtsWellFormed wording chain trees) :
    (walkStmts (reformStmts change trees)).Perm ((walkStmts trees).map (Node.reform change)) := by
  rw [Node.walkStmts_eq, Node.walkStmts_eq, reformStmts_eq_map, List.flatMap_map, List.map_flatMap]
  exact List.Perm.flatMap_left _ fun tree member =>
    Node.walk_reform leaves (Node.wellFormed_stmts valid tree member)

end Walk

theorem SameProgram.walk {program other : PlainProgram} (same : SameProgram program other)
    {wording wording' : Wording String} (valid : stmtsWellFormed wording false program)
    (otherValid : stmtsWellFormed wording' false other) :
    ((walkStmts program).map (Node.reform .canonical)).Perm
      ((walkStmts other).map (Node.reform .canonical)) := by
  have walk := walkStmts_reform Reform.keepsLeaves_canonical program _ valid
  have otherWalk := walkStmts_reform Reform.keepsLeaves_canonical other _ otherValid
  rw [show reformStmts .canonical program = reformStmts .canonical other from same] at walk
  exact walk.symm.trans otherWalk

end Hoist
