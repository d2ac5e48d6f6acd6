import Hoist.Eval.Operator

/-!
Methods that every program may call without a receiver.
-/

namespace Hoist

namespace Kernel

def putsValue (context : Context) (value : Value) : Run Unit := do
  let lines ← match value with
    | .array address =>
      if (← Run.size address) == 0 then pure [("" : Text)]
      else Run.reading fun heap => value.lines heap context.nesting
    | _ => Run.reading fun heap => value.lines heap context.nesting
  lines.forM fun line => Run.print (if line.endsWith "\n" then line else line ++ "\n")

def puts : Builtin Unit := fun context _ args _ => do
  if args.isEmpty then Run.print "\n"
  args.forM (putsValue context)
  return .nil

def print : Builtin Unit := fun context _ args _ => do
  args.forM fun arg => do Run.print (← context.toText arg)
  return .nil

/-- Prints values as they are written in a program, and gives them back. -/
def inspectAll : Builtin Unit := fun context _ args _ => do
  args.forM fun arg => do Run.print ((← context.inspect arg) ++ "\n")
  match args with
  | [] => return .nil
  | [arg] => return arg
  | _ => Run.newList args

def raise : Builtin Unit := fun context _ args _ =>
  match args with
  | [] => Run.raise "RuntimeError" "unhandled exception"
  | .str message :: _ => Run.raise "RuntimeError" message.text
  | .error className message _ :: _ => Run.raise className message.text
  | .classRef name _ :: rest =>
    if isException name then
      match rest with
      | [] => Run.raise name name
      | message :: _ => do Run.raise name (← context.toText message)
    else Run.raise "TypeError" "exception class/object expected"
  | _ => Run.raise "TypeError" "exception class/object expected"

def loop : Builtin Unit := fun context _ _ block =>
  let round : Run (Option Value) := do
    let _ ← context.yield block []
    return none
  let step : Run (Option Value) :=
    tryCatch round fun signal => match signal with
      | .raised "StopIteration" _ => return some .nil
      | _ => throw signal
  Run.repeatUntil step context.rounds

def blockMissing {α : Type} : Run α :=
  Run.raise "ArgumentError" "tried to create Proc object without a block"

def lambda : Builtin Unit := fun _ _ _ block =>
  match block with
  | none => blockMissing
  | some address => do
    match ← Run.closure? address with
    | some closure => Run.newProc { closure with isLambda := true }
    | none => blockMissing

def proc : Builtin Unit := fun _ _ _ block =>
  match block with
  | none => blockMissing
  | some address => do
    match ← Run.closure? address with
    | some closure => return .proc address closure.isLambda
    | none => blockMissing

def format : Builtin Unit := fun context _ args _ =>
  match args with
  | .str template :: values => do
    Run.newString (← Run.reading fun heap => Format.format heap context.nesting template values)
  | _ => Run.raise "TypeError" "no implicit conversion into String"

def table : BuiltinTable Unit := [
  ("puts", puts),
  ("print", print),
  ("p", inspectAll),
  ("pp", inspectAll),
  ("raise", raise),
  ("loop", loop),
  ("lambda", lambda),
  ("proc", proc),
  ("format", format)]

end Kernel

end Hoist
