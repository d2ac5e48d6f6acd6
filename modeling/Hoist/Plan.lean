import Hoist.Helper.Basic
import Hoist.Scope.Resolve

/-!
The plan: which calls with a block are replaced by a helper call, and why the others stay as they
are.  A call is replaced when its method has a helper and takes no arguments and its block does not
return from the method around it.
-/

namespace Hoist

mutual

/-- Whether an expression holds a `return` that leaves the method around it; a `return` inside a
lambda or method leaves only that. -/
def Expr.returns {ν σ : Type} : Expr ν σ → Bool
  | .literal .. | .symbol .. | .name .. | .global .. | .constant .. | .lambda .. => false
  | .array _ elements => exprsReturn elements
  | .splat _ value => value.returns
  | .range _ start stop _ => start.returns || stop.returns
  | .binary _ _ left right => left.returns || right.returns
  | .unary _ _ operand => operand.returns
  | .ternary _ condition thenValue elseValue =>
    condition.returns || thenValue.returns || elseValue.returns
  | .call _ receiver _ args block _ =>
    (match receiver with | none => false | some receiver => receiver.returns) ||
      exprsReturn args ||
      (match block with
        | none => false
        | some (.mk _ _ params body) => paramsReturn params || stmtsReturn body)
  | .index _ value args => value.returns || exprsReturn args
  | .assign _ target value => target.returns || value.returns
  | .opAssign _ target _ value => target.returns || value.returns
  | .multiAssign _ targets values => exprsReturn targets || exprsReturn values
  | .block (.mk _ _ params body) => paramsReturn params || stmtsReturn body
  | .param (.mk _ _ none) => false
  | .param (.mk _ _ (some value)) => value.returns
  | .stmt stmt => stmt.returns

def exprsReturn {ν σ : Type} : List (Expr ν σ) → Bool
  | [] => false
  | first :: rest => first.returns || exprsReturn rest

def paramsReturn {ν σ : Type} : List (Param ν σ) → Bool
  | [] => false
  | .mk _ _ none :: rest => paramsReturn rest
  | .mk _ _ (some value) :: rest => value.returns || paramsReturn rest

def Stmt.returns {ν σ : Type} : Stmt ν σ → Bool
  | .define .. => false
  | .expression _ value => value.returns
  | .conditional _ condition thenBody elseBody _ _ _ =>
    condition.returns || stmtsReturn thenBody || stmtsReturn elseBody
  | .whileLoop _ condition body => condition.returns || stmtsReturn body
  | .jump _ .returnJump _ => true
  | .jump _ _ none => false
  | .jump _ _ (some value) => value.returns
  | .bare expr => expr.returns

def stmtsReturn {ν σ : Type} : List (Stmt ν σ) → Bool
  | [] => false
  | first :: rest => first.returns || stmtsReturn rest

end

/-- Why a call with a block is left as it is. -/
inductive LeftReason where
  | userMethod
  | noHelper
  | hasArguments
  | returns
deriving DecidableEq, Repr

/-- A call with a block that is left as it is. -/
structure Warning where
  method : String
  loc : Loc
  reason : LeftReason
deriving DecidableEq, Repr

def Warning.message (warning : Warning) : String :=
  match warning.reason with
  | .userMethod => "block passed to user-defined method '" ++ warning.method ++ "' left as is"
  | .noHelper => "no generic helper for '" ++ warning.method ++ "' with a block; call left as is"
  | .hasArguments => "'" ++ warning.method ++ "' called with arguments and a block; call left as is"
  | .returns => "block passed to '" ++ warning.method ++ "' contains 'return'; call left as is"

/-- What becomes of the calls with a block. -/
structure Plan where
  /-- The helper for the block that opens a scope. -/
  hoisted : List (ScopeId × Helper) := []
  warnings : List Warning := []

namespace Plan

def helper? (plan : Plan) (block : ScopeId) : Option Helper := plan.hoisted.lookup block

def isHoisted (plan : Plan) (block : ScopeId) : Bool := (plan.helper? block).isSome

def definesMethod (methods : Bindings) (name : String) : Bool :=
  match methods.find? name with
  | some binding => binding.loc.isSome
  | none => false

def classify (methods : Bindings) (table : HelperTable) (hasReceiver : Bool) (method : String)
    (args : List ResolvedExpr) (block : ResolvedBlock) : Except LeftReason Helper :=
  if !hasReceiver && definesMethod methods method then .error .userMethod
  else match table.lookup method with
    | none => .error .noHelper
    | some helper =>
      if helper.hasReceiver != hasReceiver then .error .noHelper
      else if !args.isEmpty then .error .hasArguments
      else if stmtsReturn block.body then .error .returns
      else .ok helper

def step (methods : Bindings) (table : HelperTable) (plan : Plan) :
    Node Occurrence ScopeId → Plan
  | .expr (.call loc receiver method args (some block) _) =>
    match classify methods table receiver.isSome method args block with
    | .ok helper => { plan with hoisted := plan.hoisted ++ [(block.scope, helper)] }
    | .error reason => { plan with warnings := plan.warnings ++ [⟨method, loc, reason⟩] }
  | _ => plan

end Plan

def planCalls (resolution : Resolution) (table : HelperTable) : Plan :=
  (walkStmts resolution.program).foldl (Plan.step resolution.table.methods table) {}

end Hoist
