import Hoist.Eval.Context

/-!
Methods that all values have, and those of nil, symbols, classes, errors and procs.
-/

namespace Hoist

namespace ObjectMethod

def isA : Builtin Value := fun _ receiver args _ => do
  Run.checkArity args 1 1
  match args with
  | [.classRef name _] => return .bool (descendsFrom receiver.className name)
  | _ => Run.raise "TypeError" "class or module required"

def dup : Builtin Value := fun _ receiver _ _ =>
  match receiver with
  | .array address => do Run.newArray (← Run.items address)
  | _ => return receiver

def isFrozen : Value → Bool
  | .array _ => false
  | _ => true

def isNil : Value → Bool
  | .nil => true
  | _ => false

/-- The class of a value; one that programs cannot name is made anew. -/
def classOf (value : Value) : Run Value := do
  if (classTable.lookup value.className).isSome then return .classRef value.className .shared
  else return .classRef value.className (← Run.newIdentity)

def table : BuiltinTable Value := [
  ("nil?", fun _ receiver _ _ => return .bool (isNil receiver)),
  ("is_a?", isA),
  ("kind_of?", isA),
  ("class", fun _ receiver _ _ => classOf receiver),
  ("inspect", fun context receiver _ _ => do
    Run.newString (← Run.reading fun heap => receiver.inspectDraft heap context.nesting)),
  ("to_s", fun context receiver _ _ => return .str (← context.toTextObject receiver)),
  ("==", fun context receiver args _ =>
    return .bool (← context.equal receiver (← Run.arg args 0))),
  ("!=", fun context receiver args _ =>
    return .bool !(← context.equal receiver (← Run.arg args 0))),
  ("!", fun _ receiver _ _ => return .bool !receiver.truthy),
  ("equal?", fun _ receiver args _ =>
    return .bool (receiver.sameObject (← Run.arg args 0))),
  ("freeze", fun _ receiver _ _ => return receiver),
  ("frozen?", fun _ receiver _ _ => return .bool (isFrozen receiver)),
  ("dup", dup),
  ("tap", fun context receiver _ block => do
    let _ ← context.yield block [receiver]
    return receiver),
  ("then", fun context receiver _ block => context.yield block [receiver])]

end ObjectMethod

namespace NilMethod

def table : BuiltinTable Unit := [
  ("to_a", fun _ _ _ _ => Run.newArray #[]),
  ("to_i", fun _ _ _ _ => Run.newInt 0),
  ("to_f", fun _ _ _ _ => return .float 0.0 .shared)]

end NilMethod

namespace SymbolMethod

/-- Methods of symbols, with the name and the symbol's identity as the receiver. -/
def table : BuiltinTable (TextObject × Identity) := [
  ("to_sym", fun _ (name, id) _ _ => return .symbol name id),
  ("length", fun _ (name, _) _ _ => Run.newInt name.text.length),
  ("size", fun _ (name, _) _ _ => Run.newInt name.text.length)]

end SymbolMethod

namespace ClassMethod

/-- Makes an error; its message is the class's name when none is given. -/
def new : Builtin String := fun context name args _ => do
  if !isException name then
    Run.raise "NoMethodError" ("undefined method 'new' for class " ++ name)
  match args with
  | [] => Run.newError name (.shared name)
  | message :: _ => do Run.newError name (← context.toTextObject message)

def table : BuiltinTable String := [
  ("new", new),
  ("name", fun _ name _ _ => return .str (.shared name))]

end ClassMethod

namespace ErrorMethod

def table : BuiltinTable TextObject := [
  ("message", fun _ message _ _ => return .str message)]

end ErrorMethod

namespace ProcMethod

def call : Builtin (Address × Bool) := fun context (address, _) args _ =>
  context.callProc address args

/-- Methods of procs, with the address and whether it is a lambda as the receiver. -/
def table : BuiltinTable (Address × Bool) := [
  ("call", call),
  ("[]", call),
  ("yield", call),
  ("lambda?", fun _ (_, isLambda) _ _ => return .bool isLambda),
  ("arity", fun _ (address, _) _ _ => do
    match ← Run.closure? address with
    | some closure => Run.newInt closure.params.length
    | none => Run.newInt 0)]

end ProcMethod

end Hoist
