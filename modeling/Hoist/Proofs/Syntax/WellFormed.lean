import Hoist.Syntax.Relabel
import Hoist.Proofs.Syntax.LiteralSpelling

/-!
Trees that program text can spell.  Words have the form of their kind, a splat stands only among
arguments and an assignment only where statements have one, and the marks of a conditional tell of a
form in which it can be written.  The trees may carry occurrences and scope marks of any kind, so
that the same rules serve before and after scope resolution.
-/

namespace Hoist

open Lexeme

/-- Where an expression stands, which decides what it may be. -/
inductive Position where
  | operand
  /-- Among arguments, elements or values: also a splat. -/
  | argument
  /-- On the right of an assignment: also another assignment to one target. -/
  | assigned
  /-- At the head of a statement: also every assignment. -/
  | head
deriving DecidableEq, Repr

/-- Positions of assignments to one target. -/
def Position.assigns : Position → Bool
  | .assigned | .head => true
  | .operand | .argument => false

/-- What words and floats a tree may hold. -/
structure Wording (ν : Type) where
  /-- The spelling of a variable occurrence. -/
  spelling : ν → String
  allowsFloat : Float → Prop

/-- Plain trees, with a condition on their floats. -/
def Wording.plain (floats : Float → Prop) : Wording String := ⟨id, floats⟩

def IsIntLiteral (value : Int) : Prop :=
  ∃ n : Nat, value = Int.ofNat n ∧ n < 10 ^ Decimal.maxIntegerDigits

def Literal.WellFormed (floats : Float → Prop) : Literal → Prop
  | .nil | .bool _ | .str _ => True
  | .int value => IsIntLiteral value
  | .float value => floats value

/-- Operators that can be joined to an assignment. -/
def BinaryOp.assigns : BinaryOp → Bool
  | .add | .subtract | .multiply | .divide | .logicalOr | .logicalAnd => true
  | _ => false

def UnaryOp.isKnown : UnaryOp → Bool
  | .other _ => false
  | _ => true

variable {ν σ ν' σ' : Type}

/-- What can be assigned to. -/
def Expr.isTarget : Expr ν σ → Bool
  | .name .. | .global .. | .index .. => true
  | _ => false

mutual

def Expr.WellFormed (wording : Wording ν) (position : Position) : Expr ν σ → Prop
  | .literal _ value => value.WellFormed wording.allowsFloat
  | .symbol _ name => isSymbol name = true
  | .name _ occurrence => isName (wording.spelling occurrence) = true
  | .global _ name => isGlobal name = true
  | .constant _ name => isConstant name = true
  | .array _ elements => exprsWellFormed wording .argument elements
  | .splat _ value => position = .argument ∧ value.WellFormed wording .operand
  | .range _ start stop _ => start.WellFormed wording .operand ∧ stop.WellFormed wording .operand
  | .binary _ op left right =>
    op.level?.isSome = true ∧ left.WellFormed wording .operand ∧
      right.WellFormed wording .operand
  | .unary _ op operand => op.isKnown = true ∧ operand.WellFormed wording .operand
  | .ternary _ condition thenValue elseValue =>
    condition.WellFormed wording .operand ∧ thenValue.WellFormed wording .operand ∧
      elseValue.WellFormed wording .operand
  | .lambda _ _ params body => paramsWellFormed wording params ∧ stmtsWellFormed wording false body
  | .call _ receiver method args block parens =>
    -- a bare word without arguments and block is a variable occurrence
    (match receiver with
      | none => args = [] → block.isNone = true → parens = true
      | some receiver => receiver.WellFormed wording .operand) ∧
    isName method = true ∧ exprsWellFormed wording .argument args ∧
    (match block with
      | none => True
      | some (.mk _ _ params body) =>
        paramsWellFormed wording params ∧ stmtsWellFormed wording false body)
  | .index _ value args =>
    value.WellFormed wording .operand ∧ args ≠ [] ∧ exprsWellFormed wording .argument args
  | .assign _ target value =>
    position.assigns = true ∧ target.isTarget = true ∧ target.WellFormed wording .operand ∧
      value.WellFormed wording .assigned
  | .opAssign _ target op value =>
    position.assigns = true ∧ target.isTarget = true ∧ op.assigns = true ∧
      target.WellFormed wording .operand ∧ value.WellFormed wording .assigned
  | .multiAssign _ targets values =>
    position = .head ∧ 2 ≤ targets.length ∧ (∀ target ∈ targets, target.isTarget = true) ∧
      exprsWellFormed wording .operand targets ∧ values ≠ [] ∧
      exprsWellFormed wording .argument values
  | .block _ | .param _ | .stmt _ => False

def exprsWellFormed (wording : Wording ν) (position : Position) : List (Expr ν σ) → Prop
  | [] => True
  | first :: rest => first.WellFormed wording position ∧ exprsWellFormed wording position rest

def paramsWellFormed (wording : Wording ν) : List (Param ν σ) → Prop
  | [] => True
  | .mk name _ none :: rest => isName name = true ∧ paramsWellFormed wording rest
  | .mk name _ (some value) :: rest =>
    isName name = true ∧ value.WellFormed wording .operand ∧ paramsWellFormed wording rest

/-- `chain` tells whether the statement stands alone in an else branch that may be an `elsif`. -/
def Stmt.WellFormed (wording : Wording ν) (chain : Bool) : Stmt ν σ → Prop
  | .define _ _ name params body =>
    isName name = true ∧ paramsWellFormed wording params ∧ stmtsWellFormed wording false body
  | .expression _ value => value.WellFormed wording .head
  | .conditional _ condition thenBody elseBody negated modifier elsif =>
    condition.WellFormed wording .operand ∧ stmtsWellFormed wording false thenBody ∧
      stmtsWellFormed wording (!negated) elseBody ∧
      (modifier = true → elseBody = [] ∧ thenBody.length = 1 ∧ elsif = false) ∧
      (elsif = true → chain = true ∧ negated = false)
  | .whileLoop _ condition body =>
    condition.WellFormed wording .operand ∧ stmtsWellFormed wording false body
  | .jump _ _ none => True
  | .jump _ _ (some value) => value.WellFormed wording .operand
  | .bare _ => False

def stmtsWellFormed (wording : Wording ν) (chain : Bool) : List (Stmt ν σ) → Prop
  | [] => True
  | first :: rest =>
    first.WellFormed wording (chain && rest.isEmpty) ∧ stmtsWellFormed wording false rest

end

variable {wording : Wording ν} {trees : List (Stmt ν σ)}

theorem exprsWellFormed_iff {position : Position} {trees : List (Expr ν σ)} :
    exprsWellFormed wording position trees ↔
      ∀ tree ∈ trees, tree.WellFormed wording position := by
  induction trees with
  | nil => simp [exprsWellFormed]
  | cons first rest ih => simp [exprsWellFormed, ih]

theorem stmtsWellFormed_append {left right : List (Stmt ν σ)} :
    stmtsWellFormed wording false (left ++ right) ↔
      stmtsWellFormed wording false left ∧ stmtsWellFormed wording false right := by
  induction left with
  | nil => simp [stmtsWellFormed]
  | cons first rest ih => simp [stmtsWellFormed, ih, and_assoc]

theorem stmtsWellFormed_iff :
    stmtsWellFormed wording false trees ↔ ∀ tree ∈ trees, tree.WellFormed wording false := by
  induction trees with
  | nil => simp [stmtsWellFormed]
  | cons first rest ih => simp [stmtsWellFormed, ih]

theorem paramsWellFormed_names {params : List (Param ν σ)}
    (plain : ∀ param ∈ params, ∃ name loc, param = .mk name loc none ∧ isName name = true) :
    paramsWellFormed wording params := by
  induction params with
  | nil => trivial
  | cons first rest ih =>
    rw [List.forall_mem_cons] at plain
    obtain ⟨⟨name, loc, rfl, named⟩, others⟩ := plain
    exact ⟨named, ih others⟩

theorem isName_of_paramsWellFormed {params : List (Param ν σ)}
    (valid : paramsWellFormed wording params) : ∀ param ∈ params, isName param.name = true := by
  induction params with
  | nil => exact nofun
  | cons first rest ih =>
    rcases first with ⟨name, loc, _ | value⟩
    · exact List.forall_mem_cons.2 ⟨valid.1, ih valid.2⟩
    · exact List.forall_mem_cons.2 ⟨valid.1, ih valid.2.2⟩

/-- What may stand in any body may stand in an else branch. -/
theorem stmtsWellFormed_chained (chain : Bool) (wellFormed : stmtsWellFormed wording false trees) :
    stmtsWellFormed wording chain trees := by
  cases trees with
  | nil => trivial
  | cons first rest =>
    refine ⟨?_, wellFormed.2⟩
    have plain := wellFormed.1
    rw [Bool.false_and] at plain
    rcases first with _ | _ | _ | _ | ⟨loc, kind, _ | value⟩ | _
    case conditional =>
      obtain ⟨condition, thenBody, elseBody, modifier, elsif⟩ := plain
      exact ⟨condition, thenBody, elseBody, modifier, fun marked => nomatch (elsif marked).1⟩
    all_goals exact plain

/-- What may be an operand may stand anywhere. -/
theorem Expr.WellFormed.ofOperand {tree : Expr ν σ} (position : Position)
    (wellFormed : tree.WellFormed wording .operand) : tree.WellFormed wording position := by
  cases tree with
  | splat | assign | opAssign | multiAssign =>
    rw [Expr.WellFormed] at wellFormed
    exact absurd wellFormed.1 (by decide)
  | call =>
    unfold Expr.WellFormed at wellFormed ⊢
    exact wellFormed
  | _ => exact wellFormed

theorem Expr.wellFormed_call {position : Position} {loc : Loc} {receiver : Option (Expr ν σ)}
    {method : String} {args : List (Expr ν σ)} {block : Option (Block ν σ)} {parens : Bool} :
    (Expr.call loc receiver method args block parens).WellFormed wording position ↔
      (receiver = none → args = [] → block = none → parens = true) ∧
        (∀ value, receiver = some value → value.WellFormed wording .operand) ∧
        isName method = true ∧ exprsWellFormed wording .argument args ∧
        ∀ inner, block = some inner →
          paramsWellFormed wording inner.params ∧ stmtsWellFormed wording false inner.body := by
  rcases receiver with _ | receiver <;> rcases block with _ | ⟨blockLoc, scope, params, body⟩
  all_goals simp [Expr.WellFormed, Block.params, Block.body]

end Hoist
