import Hoist.Proofs.Conversion.Links
import Hoist.Proofs.Helper.Instantiate
import Hoist.Proofs.Syntax.SameWalk

/-!
What the definition of a helper contains: no definition but itself, no call without a receiver, no
block, and one call of the closure, with as many arguments as the helper is said to pass.
-/

namespace Hoist

open Lexeme

/-- The number of arguments of a call of the closure. -/
def Node.closureArgs? {ν σ : Type} [DecidableEq ν] (closure : ν) : Node ν σ → Option Nat
  | .expr (.call _ (some (.name _ name)) method args _ _) =>
    if name = closure ∧ method = "call" then some args.length else none
  | _ => none

theorem Node.isLink_reform (node : PlainNode) :
    (node.reform .canonical).isLink = node.isLink := by
  cases node with
  | expr tree =>
    cases tree with
    | call loc receiver method args block parens =>
      rw [Node.reform, Expr.reform_call]
      cases receiver <;> cases block <;> rfl
    | _ => rfl
  | param | block => rfl
  | stmt tree =>
    rcases tree with _ | _ | _ | _ | ⟨_, _, _ | _⟩ | _
    all_goals rfl

theorem Node.closureArgs?_reform (closure : String) (node : PlainNode) :
    (node.reform .canonical).closureArgs? closure = node.closureArgs? closure := by
  cases node with
  | expr tree =>
    cases tree with
    | call loc receiver method args block parens =>
      rw [Node.reform, Expr.reform_call]
      rcases receiver with _ | receiver
      · rfl
      · cases receiver with
        | name => simp [Node.closureArgs?, Expr.reform, reformExprs_eq_map]
        | call =>
          rw [Option.map_some, Expr.reform_call]
          rfl
        | _ => rfl
    | _ => rfl
  | param | block => rfl
  | stmt tree => rcases tree with _ | _ | _ | _ | ⟨_, _, _ | _⟩ | _ <;> rfl

theorem links_reform_length (nodes : List PlainNode) :
    (links (nodes.map (Node.reform .canonical))).length = (links nodes).length := by
  rw [links, List.filter_map, List.length_map, Function.comp_def]
  simp only [Node.isLink_reform, links]

namespace Helper

/-- The parameters of a helper: the closure, after the receiver if there is one. -/
def paramCount (helper : Helper) : Nat := if helper.hasReceiver then 2 else 1

/-- What the definition of a helper contains. -/
structure DefinedBy (helper : Helper) (name : String) (definition : PlainStmt) : Prop where
  defines : ∃ loc params body, definition = .define loc () name params body ∧
    params.length = helper.paramCount
  links : links definition.walk = [.stmt definition]
  passes : definition.walk.filterMap (Node.closureArgs? "fun") = [helper.arity]

variable {helper : Helper} {iteration : Iteration}

theorem iteration_contains (member : (helper, iteration) ∈ iterations) (name stop : String) :
    iteration.params.length = helper.paramCount ∧
      (links (iteration.definition name (stopTree stop)).walk).length = 1 ∧
      (iteration.definition name (stopTree stop)).walk.filterMap (Node.closureArgs? "fun") =
        [helper.arity] := by
  revert helper iteration
  simp only [iterations, List.mem_cons, Prod.mk.injEq]
  rintro helper iteration (⟨rfl, rfl⟩ | ⟨rfl, rfl⟩ | ⟨rfl, rfl⟩ | ⟨rfl, rfl⟩ | ⟨rfl, rfl⟩ |
    ⟨rfl, rfl⟩ | ⟨rfl, rfl⟩ | ⟨rfl, rfl⟩ | member)
  · exact ⟨rfl, rfl, rfl⟩
  · exact ⟨rfl, rfl, rfl⟩
  · exact ⟨rfl, rfl, rfl⟩
  · exact ⟨rfl, rfl, rfl⟩
  · exact ⟨rfl, rfl, rfl⟩
  · exact ⟨rfl, rfl, rfl⟩
  · exact ⟨rfl, rfl, rfl⟩
  · exact ⟨rfl, rfl, rfl⟩
  · exact absurd member List.not_mem_nil

theorem definedBy_of_instantiate (member : (helper, iteration) ∈ iterations) {name stop : String}
    (named : isName name = true) (stopNamed : isName stop = true) {definition : PlainStmt}
    (instantiated : helper.instantiate name stop = .ok definition) :
    helper.DefinedBy name definition := by
  let floats (x : Float) : Prop := Decimal.floatText Decimal.literalStyle x ≠ "inf"
  obtain ⟨made, isMade, reparsed⟩ := instantiate_reparsed member named stopNamed floats
  cases instantiated.symm.trans isMade
  have valid := (@wellFormed_iterations floats _ member).definition named
    (stopTree_wellFormed stopNamed)
  have same : SameProgram [definition] [iteration.definition name (stopTree stop)] :=
    reparsed.sameProgram (fun _ finite => finite) valid
  have walk := same.walk reparsed.wellFormed valid
  simp only [walkStmts, List.append_nil] at walk
  obtain ⟨loc, params, body, isDefine⟩ := eq_define_of_reform same
  cases isDefine
  obtain ⟨paramCount, linkCount, passes⟩ := iteration_contains member name stop
  constructor
  · simp only [SameProgram, reformStmts, Stmt.reform, Iteration.definition, List.cons.injEq,
      Stmt.define.injEq, reformParams_eq_map] at same
    obtain ⟨⟨-, -, -, sameParams, -⟩, -⟩ := same
    refine ⟨loc, params, body, rfl, ?_⟩
    rw [← paramCount]
    simpa using congrArg List.length sameParams
  · have count := (walk.filter Node.isLink).length_eq
    rw [← links, ← links, links_reform_length, links_reform_length, linkCount, Stmt.walk,
      links_cons] at count
    have nothingElse : links (walkParams params ++ walkStmts body) = [] :=
      List.eq_nil_of_length_eq_zero (Nat.succ.inj count)
    rw [Stmt.walk, links_cons, nothingElse]
    rfl
  · have passed := walk.filterMap (Node.closureArgs? "fun")
    simp only [List.filterMap_map, Function.comp_def, Node.closureArgs?_reform] at passed
    rw [passes] at passed
    exact List.perm_singleton.1 passed

end Helper

end Hoist
