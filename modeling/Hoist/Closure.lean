import Hoist.Capture
import Hoist.NameSupply

/-!
Hoisted closures.  A block becomes a method that takes the captured variables and returns a lambda
with the block's body; the call passes what the lambda needs.
-/

namespace Hoist

/-- A block turned into a method. -/
structure HoistedClosure where
  name : String
  captures : CaptureSet
  definition : PlainStmt

namespace HoistedClosure

def cellContent (loc : Loc) (name : String) : PlainExpr :=
  .index loc (.name loc name) [.literal loc (.int 0)]

/-- The parameters of the lambda and the statements in front of the body.  Without an argument the
block's parameters are nil; a single parameter takes the argument; several take the elements of an
array argument, as in a block. -/
def innerParams (names : NameSupply) (params : List PlainParam) (arity : Nat) (loc : Loc) :
    (List PlainParam × List PlainStmt) × NameSupply :=
  if arity = 0 then
    let assignNil (param : PlainParam) : PlainStmt :=
      .expression loc (.assign loc (.name loc param.name) (.literal loc .nil))
    (([], params.map assignNil), names)
  else match params with
    | [_] => ((params, []), names)
    | [] =>
      let (argument, names) := names.fresh "arg"
      (([.mk argument loc none], []), names)
    | _ =>
      let (argument, names) := names.fresh "arg"
      let targets : List PlainExpr := params.map fun param => .name param.loc param.name
      let spread : PlainExpr := .multiAssign loc targets [.name loc argument]
      (([.mk argument loc none], [.expression loc spread]), names)

/-- What a call passes for a captured variable: the cell itself when it is shared, its value
otherwise. -/
def argument (loc : Loc) (isCell : ScopeId → String → Bool) (capture : Capture) : PlainExpr :=
  if capture.mode = .byValue ∧ isCell capture.scope capture.name then cellContent loc capture.name
  else .name loc capture.name

/-- Builds the method for a block from its converted parameters and body, with the arguments of the
call.  `isCell` tells which variables are held in cells around the call. -/
def build (names : NameSupply) (loc : Loc) (captures : CaptureSet) (params : List PlainParam)
    (body : List PlainStmt) (arity : Nat) (isCell : ScopeId → String → Bool) :
    (HoistedClosure × List PlainExpr) × NameSupply :=
  let (name, names) := names.fresh "block"
  let ((inner, front), names) := innerParams names params arity loc
  let definition : PlainStmt :=
    .define loc () name (captures.map fun capture => .mk capture.name loc none)
      [.expression loc (.lambda loc () inner (front ++ body))]
  ((⟨name, captures, definition⟩, captures.map (argument loc isCell)), names)

end HoistedClosure

end Hoist
