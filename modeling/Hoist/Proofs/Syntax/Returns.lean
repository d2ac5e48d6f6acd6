import Hoist.Plan
import Hoist.Proofs.Syntax.SameWalk

/-!
Whether a tree holds a `return` depends on its shape alone: not on what its names mean, and not on
how it is written.
-/

namespace Hoist

variable {ν σ ν' σ' : Type}

theorem stmtsReturn_append (left right : List (Stmt ν σ)) :
    stmtsReturn (left ++ right) = (stmtsReturn left || stmtsReturn right) := by
  induction left with
  | nil => rfl
  | cons first rest ih => rw [List.cons_append, stmtsReturn, stmtsReturn, ih, Bool.or_assoc]

/-- Parameters without defaults hold no `return`. -/
theorem paramsReturn_plain {params : List (Param ν σ)}
    (plain : ∀ param ∈ params, param.default = none) : paramsReturn params = false := by
  induction params with
  | nil => rfl
  | cons first rest ih =>
    obtain ⟨name, loc, value⟩ := first
    rw [List.forall_mem_cons] at plain
    obtain rfl : value = none := plain.1
    exact ih plain.2

theorem exprsReturn_eq (trees : List (Expr ν σ)) : exprsReturn trees = trees.any Expr.returns := by
  induction trees with
  | nil => rfl
  | cons first rest ih => rw [exprsReturn, ih, List.any_cons]

theorem stmtsReturn_eq (trees : List (Stmt ν σ)) : stmtsReturn trees = trees.any Stmt.returns := by
  induction trees with
  | nil => rfl
  | cons first rest ih => rw [stmtsReturn, ih, List.any_cons]

theorem paramsReturn_eq (trees : List (Param ν σ)) :
    paramsReturn trees = trees.any fun tree => paramsReturn [tree] := by
  induction trees with
  | nil => rfl
  | cons first rest ih =>
    rw [List.any_cons, ← ih]
    rcases first with ⟨_, _, _ | _⟩ <;> simp [paramsReturn]

theorem any_congr {α : Type} {items : List α} {first second : α → Bool}
    (same : ∀ item ∈ items, first item = second item) : items.any first = items.any second := by
  induction items with
  | nil => rfl
  | cons item rest ih => simp_all

/-- Whether a `return` beyond a step leaves the code before it. -/
def Step.returns : Step σ → Bool
  | .defaults kind _ | .body kind _ => kind == .block
  | _ => true

namespace Node

def returns : Node ν σ → Bool
  | .expr tree => tree.returns
  | .param tree => paramsReturn [tree]
  | .block tree => paramsReturn tree.params || stmtsReturn tree.body
  | .stmt tree => tree.returns

def isReturn : Node ν σ → Bool
  | .stmt (.jump _ .returnJump _) => true
  | _ => false

attribute [local simp] returns isReturn children exprs opened stmts Expr.returns Stmt.returns
  exprsReturn_eq stmtsReturn_eq Step.returns Block.params Block.body Function.comp_def

theorem returns_eq (node : Node ν σ) : node.returns = (node.isReturn ||
    node.children.any fun child => child.1.returns && child.2.returns) := by
  match node with
  | .expr tree =>
    cases tree with
    | call _ receiver _ _ block _ =>
      rcases receiver with _ | receiver <;> rcases block with _ | ⟨_, _, _, _⟩ <;>
        simp [Bool.or_assoc]
    | block block =>
      cases block
      simp
    | param param => rcases param with ⟨_, _, _ | _⟩ <;> simp [paramsReturn]
    | _ => simp [Bool.or_assoc]
  | .param (.mk _ _ default) => cases default <;> simp [paramsReturn]
  | .block (.mk _ _ params _) => simp [paramsReturn_eq params]
  | .stmt tree =>
    cases tree with
    | conditional _ _ _ _ _ modifier _ => 
      cases modifier <;> simp [Bool.or_comm, Bool.or_left_comm, ← Bool.or_assoc]
    | jump _ kind value => cases kind <;> cases value <;> simp
    | _ => simp

end Node

section Relabel

variable {change : Relabel ν σ ν' σ'}

theorem Node.returns_relabel (node : Node ν σ) :
    (node.relabel change).returns = node.returns := by
  induction node using induct with
  | step node ih =>
    have own : (node.relabel change).isReturn = node.isReturn := by
      rcases node with _ | _ | _ | tree
      case stmt => rcases tree with _ | _ | _ | _ | ⟨_, _ | _, _ | _⟩ | _ <;> rfl
      all_goals rfl
    have sameStep (step : Step σ) : (step.map change.scope).returns = step.returns := by
      cases step <;> rfl
    rw [returns_eq, own, children_relabel, List.any_map, node.returns_eq]
    refine congrArg _ (any_congr fun child member => ?_)
    simp [sameStep, ih child member]

theorem stmtsReturn_relabel (trees : List (Stmt ν σ)) :
    stmtsReturn (relabelStmts change trees) = stmtsReturn trees := by
  rw [stmtsReturn_eq, stmtsReturn_eq, relabelStmts_eq_map, List.any_map]
  exact congrArg trees.any (funext fun tree => (Node.stmt tree).returns_relabel)

end Relabel

section Reform

variable {change : Reform} {wording : Wording String}

def Reform.Quiet (change : Reform) : Prop := ∀ value, (change.literal value).returns = false

theorem Reform.quiet_unplaced : unplaced.Quiet := fun _ => rfl

theorem Reform.quiet_reread : reread.Quiet := by
  intro value
  cases value with
  | float x =>
    simp only [reread]
    split <;> rfl
  | _ => rfl

theorem Node.returns_reform (quiet : change.Quiet) {node : PlainNode}
    (valid : node.WellFormed wording) : (node.reform change).returns = node.returns := by
  induction node using induct with
  | step node ih =>
    by_cases literal : node.isLiteral = true
    · unfold isLiteral at literal
      split at literal
      · exact quiet _
      · cases literal
    · obtain ⟨-, perm⟩ :=
        @children_reform change wording node valid (Bool.eq_false_iff.2 literal)
      have own : (node.reform change).isReturn = node.isReturn := by
        rcases node with _ | _ | _ | tree
        case stmt => rcases tree with _ | _ | _ | _ | ⟨_, _ | _, _ | _⟩ | _ <;> rfl
        all_goals rfl
      rw [returns_eq, own, perm.any_eq, List.any_map, node.returns_eq]
      refine congrArg _ (any_congr fun child member => ?_)
      simp [ih child member (valid.children child member)]

theorem stmtsReturn_reform (quiet : change.Quiet) (trees : List PlainStmt) (chain : Bool)
    (valid : stmtsWellFormed wording chain trees) :
    stmtsReturn (reformStmts change trees) = stmtsReturn trees := by
  rw [stmtsReturn_eq, stmtsReturn_eq, reformStmts_eq_map, List.any_map]
  exact any_congr fun tree member =>
    Node.returns_reform quiet (Node.wellFormed_stmts valid tree member)

end Reform

end Hoist
