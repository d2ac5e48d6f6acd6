import Hoist.Eval.Inspect
import Hoist.Eval.Number

/-!
The order of values.  Numbers, strings and arrays can be compared with their like; all else cannot.
-/

namespace Hoist

namespace Value

/-- The order of two values; arrays are compared element by element. -/
protected def compare (heap : Heap) : (nesting : Nat) → Value → Value → Except Signal Ordering
  | 0, _, _ => .error .tooDeep
  | nesting + 1, left, right =>
    match left.number?, right.number? with
    | some left, some right => .ok (left.compare right)
    | _, _ =>
      match left, right with
      | .str left, .str right => .ok (left.text.compare right.text)
      | .array left, .array right => do
        let left := (heap.items left).toList
        let right := (heap.items right).toList
        let decide (order : Ordering) (pair : Value × Value) : Except Signal Ordering :=
          match order with
          | .eq => Value.compare heap nesting pair.1 pair.2
          | _ => .ok order
        let order ← (left.zip right).foldlM decide .eq
        return order.then (compare left.length right.length)
      | _, _ => do
        .error (.raised "ArgumentError" ("comparison of " ++ left.className ++ " with " ++
          (← right.inspect heap nesting) ++ " failed"))

end Value

def Value.less (heap : Heap) (nesting : Nat) (left right : Value) : Except Signal Bool :=
  (· == .lt) <$> Value.compare heap nesting left right

end Hoist
