import Hoist.Eval.Context
import Hoist.Eval.Format

/-!
Operators on values.
-/

namespace Hoist

def BinaryOp.holds? (op : BinaryOp) (order : Ordering) : Option Bool :=
  match op with
  | .less => some (order == .lt)
  | .greater => some (order == .gt)
  | .lessEqual => some (order != .gt)
  | .greaterEqual => some (order != .lt)
  | _ => none

def BinaryOp.isComparison (op : BinaryOp) : Bool := (op.holds? .eq).isSome

namespace Operator

def undefined {α : Type} (name : String) (receiver : Value) : Run α :=
  Run.raise "NoMethodError" ("undefined method '" ++ name ++ "' for " ++ receiver.describe)

def noConversion {α : Type} (value : Value) (target : String) : Run α :=
  Run.raise "TypeError" ("no implicit conversion of " ++ value.className ++ " into " ++ target)

def arithmetic? (op : BinaryOp) (left right : Number) : Option (Except Signal Computed) :=
  match op with
  | .add => some (left.add right)
  | .subtract => some (left.subtract right)
  | .multiply => some (left.multiply right)
  | .divide => some (left.divide right)
  | .modulo => some (left.modulo right)
  | .power => some (left.power right)
  | _ => none

def numeric (op : BinaryOp) (receiver : Value) (left right : Number) : Run Value :=
  match arithmetic? op left right with
  | some result => do Run.newNumber receiver (← Run.ofExcept result)
  | none =>
    match op.holds? (left.compare right) with
    | some result => return .bool result
    | none => undefined op.spelling receiver

def incomparable {α : Type} (context : Context) (left right : Value) : Run α := do
  Run.raise "ArgumentError" ("comparison of " ++ left.className ++ " with " ++
    (← context.inspect right) ++ " failed")

def uncoercible {α : Type} (context : Context) (op : BinaryOp) (left right : Value) : Run α :=
  if op.isComparison then incomparable context left right
  else
    let name := match right with
      | .nil => "nil"
      | _ => right.className
    Run.raise "TypeError" (name ++ " can't be coerced into " ++ left.className)

/-- A text repeated; once is the text itself. -/
def repeated (object : TextObject) (count : Nat) : Draft :=
  if count = 1 then object
  else if object.text.isEmpty then .made ""
  else .made (.join (List.replicate count object.text))

def formatValues (value : Value) : Run (List Value) :=
  match value with
  | .array address => return (← Run.items address).toList
  | _ => return [value]

def onString (context : Context) (op : BinaryOp) (left : TextObject) (right : Value) :
    Run Value :=
  match op, right with
  | .add, .str right => Run.newString (.append left right)
  | .add, _ => noConversion right "String"
  | .multiply, .int count _ => do
    if count < 0 then Run.raise "ArgumentError" "negative argument"
    if Int.ofNat (Decimal.twoTo 63) ≤ count then Run.fault .numberTooLarge
    context.checkSize (left.text.length * count.toNat)
    Run.newString (repeated left count.toNat)
  | .multiply, _ => noConversion right "Integer"
  | .modulo, _ => do
    let values ← formatValues right
    Run.newString (← Run.reading fun heap => Format.format heap context.nesting left values)
  | _, .str right =>
    match op.holds? (left.text.compare right.text) with
    | some result => return .bool result
    | none => undefined op.spelling (.str left)
  | _, _ =>
    if op.isComparison then incomparable context (.str left) right
    else undefined op.spelling (.str left)

def difference (context : Context) (items others : List Value) : Run (List Value) :=
  Run.reading fun heap => items.filterM fun item =>
    return !(← others.anyM fun other => Value.equal heap context.nesting item other)

def onArray (context : Context) (op : BinaryOp) (left : Address) (right : Value) : Run Value :=
  match op, right with
  | .add, .array right => do Run.newArray ((← Run.items left) ++ (← Run.items right))
  | .add, _ => noConversion right "Array"
  | .subtract, .array right => do
    Run.newList (← difference context (← Run.items left).toList (← Run.items right).toList)
  | .subtract, _ => noConversion right "Array"
  | .multiply, .str separator => do
    let items := (← Run.items left).toList
    Run.newString
      (← Run.reading fun heap => Value.joined heap separator.text context.nesting items)
  | .multiply, .int count _ => do
    let items ← Run.items left
    if count < -Int.ofNat (Decimal.twoTo 63) ∨ Int.ofNat (Decimal.twoTo 63) ≤ count then
      Run.fault .numberTooLarge
    if context.memory < items.size * count.toNat then Run.fault .outOfMemory
    Run.newList (if items.isEmpty then [] else
      (List.replicate count.toNat items.toList).flatten)
  | _, _ => undefined op.spelling (.array left)

def binary (context : Context) (op : BinaryOp) (left right : Value) : Run Value :=
  match op with
  | .equal => return .bool (← context.equal left right)
  | .notEqual => return .bool !(← context.equal left right)
  | _ =>
    match left.number?, right.number? with
    | some number, some right => numeric op left number right
    | some _, none => uncoercible context op left right
    | none, _ =>
      match left with
      | .str left => onString context op left right
      | .array left => onArray context op left right
      | _ => undefined op.spelling left

def unary (op : UnaryOp) (operand : Value) : Run Value :=
  match op with
  | .bang | .keywordNot => return .bool !operand.truthy
  | .negate =>
    match operand.number? with
    | some number => Run.newNumber operand number.negate
    | none => undefined "-@" operand
  | .other name => undefined name operand

end Operator

end Hoist
