import Hoist.Eval.Number

/-!
Equality of values.  Numbers are equal when they denote the same number, arrays when their elements
are, procs when they are one object.  The ends of ranges are compared more loosely, and there an
object always equals itself, even nan.
-/

namespace Hoist

namespace Value

/-- A range's end as a number; there true counts as one and false as zero. -/
def endNumber? : Value → Option Number
  | .bool true => some (.int 1)
  | .bool false => some (.int 0)
  | value => value.number?

def endEqual (heap : Heap) : (nesting : Nat) → Value → Value → Except Signal Bool
  | 0, _, _ => .error .tooDeep
  | nesting + 1, left, right =>
    if left.sameObject right then .ok true
    else
      match left, right with
      | .str left, .str right => .ok (left.text == right.text)
      | .symbol left _, .symbol right _ => .ok (left.text == right.text)
      | .array left, .array right =>
        let left := (heap.items left).toList
        let right := (heap.items right).toList
        if left.length != right.length then .ok false
        else (left.zip right).allM fun (left, right) => endEqual heap nesting left right
      | .range start stop exclusive _, .range start' stop' exclusive' _ => do
        if ← endEqual heap nesting start start' then
          if ← endEqual heap nesting stop stop' then return exclusive == exclusive'
        return false
      | .classRef left _, .classRef right _ => .ok (left == right)
      | .error class' message _, .error class'' message' _ =>
        .ok (class' == class'' && message.text == message'.text)
      | .complex re im _, .complex re' im' _ => .ok (re == re' && im == im')
      | .complex re im _, value | value, .complex re im _ =>
        match value.endNumber? with
        | some number => .ok (im == 0.0 && number.equal (.float re))
        | none => .ok false
      | _, _ =>
        match left.endNumber?, right.endNumber? with
        | some left, some right => .ok (left.equal right)
        | _, _ => .ok false

def equal (heap : Heap) : (nesting : Nat) → Value → Value → Except Signal Bool
  | 0, _, _ => .error .tooDeep
  | nesting + 1, left, right =>
    match left, right with
    | .nil, .nil => .ok true
    | .bool left, .bool right => .ok (left == right)
    | .int left _, .int right _ => .ok (left == right)
    | .int left _, .float right _ => .ok (Number.equal (.int left) (.float right))
    | .float left _, .int right _ => .ok (Number.equal (.float left) (.int right))
    | .float left _, .float right _ => .ok (Number.equal (.float left) (.float right))
    | .str left, .str right => .ok (left.text == right.text)
    | .symbol left _, .symbol right _ => .ok (left.text == right.text)
    | .array left, .array right =>
      let left := (heap.items left).toList
      let right := (heap.items right).toList
      if left.length != right.length then .ok false
      else (left.zip right).allM fun (left, right) => equal heap nesting left right
    | .range .., .range .. => endEqual heap nesting left right
    | .proc left _, .proc right _ => .ok (left == right)
    | .classRef left _, .classRef right _ => .ok (left == right)
    | .error class' message _, .error class'' message' _ =>
      .ok (class' == class'' && message.text == message'.text)
    | .complex re im _, .complex re' im' _ => .ok (re == re' && im == im')
    | _, _ => .ok false

end Value

end Hoist
