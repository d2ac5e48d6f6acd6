import Hoist.Eval.Method.Array

/-!
Methods of ranges.  Those that a range shares with arrays work on the array of its elements.
-/

namespace Hoist

/-- A range as an object. -/
structure RangeObject where
  start : Value
  stop : Value
  exclusive : Bool
  id : Identity

namespace RangeObject

def toValue (range : RangeObject) : Value := .range range.start range.stop range.exclusive range.id

/-- An end that can be counted from; true counts as one and false as zero. -/
def countable? : Value → Option Int
  | .int value _ => some value
  | .bool value => some (if value then 1 else 0)
  | _ => none

def extent (range : RangeObject) : Run (Int × Nat) :=
  match countable? range.start, countable? range.stop with
  | some start, some stop =>
    return (start, ((if range.exclusive then stop else stop + 1) - start).toNat)
  | _, _ => Run.raise "TypeError" ("can't iterate from " ++ range.start.className)

def elements (range : RangeObject) (context : Context) : Run (List Value) := do
  let (start, count) ← range.extent
  context.checkSize count
  (List.range count).mapM fun offset => Run.newInt (start + Int.ofNat offset)

end RangeObject

namespace RangeMethod

/-- The method of arrays of the same name, on the array of the elements. -/
def onElements (method : Builtin Address) : Builtin RangeObject :=
  fun context range args block => do
    match ← Run.newList (← range.elements context) with
    | .array address => method context address args block
    | other => return other

def yieldEach (context : Context) (block : Option Address) : List Value → Run Unit
  | [] => return ()
  | item :: rest => do
    let _ ← context.yield block [item]
    yieldEach context block rest

def each : Builtin RangeObject := fun context range _ block => do
  yieldEach context block (← range.elements context)
  return range.toValue

def endOr (pick : RangeObject → Value) (method : Builtin Address) : Builtin RangeObject :=
  fun context range args block =>
    if args.isEmpty then return pick range else onElements method context range args block

def includes : Builtin RangeObject := fun context range args _ => do
  Run.checkArity args 1 1
  let value ← Run.arg args 0
  match value.number? with
  | none => return .bool false
  | some _ =>
    if (← context.compare range.start value) == .gt then return .bool false
    let order ← context.compare value range.stop
    return .bool (if range.exclusive then order == .lt else order != .gt)

def shared : List String := [
  "count", "each_with_index", "each_slice", "map", "collect", "flat_map", "select", "filter",
  "find_all", "reject", "partition", "find", "detect", "any?", "all?", "none?", "inject",
  "reduce", "sum", "min", "max", "min_by", "max_by", "sort_by", "index"]

def table : BuiltinTable RangeObject := [
  ("each", each),
  ("to_a", fun context range _ _ => do Run.newList (← range.elements context)),
  ("first", endOr RangeObject.start ArrayMethod.first),
  ("last", endOr RangeObject.stop ArrayMethod.last),
  ("begin", fun _ range _ _ => return range.start),
  ("end", fun _ range _ _ => return range.stop),
  ("exclude_end?", fun _ range _ _ => return .bool range.exclusive),
  ("include?", includes),
  ("member?", includes),
  ("size", fun context range _ _ => do Run.newInt (← range.elements context).length)] ++
  shared.filterMap fun name =>
    (ArrayMethod.table.lookup name).map fun method => (name, onElements method)

end RangeMethod

end Hoist
