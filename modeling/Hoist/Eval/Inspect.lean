import Hoist.Decimal.FloatText
import Hoist.Decimal.Reading
import Hoist.Eval.Store
import Hoist.Syntax.StringLiteral

/-!
Values as text: as they are written in a program (`inspect`) and as they are printed (`toText`).  An
array may contain itself, so the functions carry a bound on how deeply values are nested.
-/

namespace Hoist

/-- A number without a fraction loses its `.0` as a part of a complex number. -/
def complexPart (x : Float) : String :=
  let text := Decimal.floatText Decimal.plainStyle x
  if text.endsWith ".0" then (text.dropEnd 2).toString else text

/-- A complex number; its real part is left out when it is a zero without a sign. -/
def complexText (re im : Float) : String :=
  if re == 0.0 && !Decimal.signBit re then complexPart im ++ "j"
  else
    let imText := complexPart im
    let signed := if imText.startsWith "-" then imText else "+" ++ imText
    "(" ++ complexPart re ++ signed ++ "j)"

def intText (value : Int) : Except Signal String :=
  match Decimal.intText? value with
  | some text => .ok text
  | none => .error (.fault .integerTooLong)

namespace Value

def inspect (heap : Heap) : (nesting : Nat) → Value → Except Signal Text
  | 0, _ => .error .tooDeep
  | nesting + 1, value =>
    match value with
    | .nil => .ok "nil"
    | .bool true => .ok "true"
    | .bool false => .ok "false"
    | .int value _ => return ← intText value
    | .float value _ => .ok (Decimal.floatText Decimal.shownStyle value)
    | .str object => .ok (StringLiteral.render object.text)
    | .symbol name _ => .ok (":" ++ name.text)
    | .array address => do
      let items ← (heap.items address).toList.mapM (inspect heap nesting)
      return "[" ++ Text.intercalate ", " items ++ "]"
    | .range start stop exclusive _ => do
      let dots : Text := if exclusive then "..." else ".."
      return (← inspect heap nesting start) ++ dots ++ (← inspect heap nesting stop)
    | .proc _ isLambda => .ok (if isLambda then "#<Proc (lambda)>" else "#<Proc>")
    | .classRef name _ => .ok name
    | .error className message _ => .ok ("#<" ++ className ++ ": " ++ message.text ++ ">")
    | .complex re im _ => .ok (complexText re im)

def isWrittenShared : Value → Bool
  | .nil | .bool _ | .proc .. | .classRef .. => true
  | .float value _ => !value.isFinite
  | _ => false

def inspectDraft (heap : Heap) (nesting : Nat) (value : Value) : Except Signal Draft := do
  let text ← value.inspect heap nesting
  return if value.isWrittenShared then TextObject.shared text else .made text

def toDraft (heap : Heap) (nesting : Nat) (value : Value) : Except Signal Draft :=
  match value with
  | .nil => .ok (TextObject.shared "")
  | .str object => .ok object
  | .symbol name _ => .ok name
  | .error _ message _ => .ok message
  | _ => value.inspectDraft heap nesting

def toText (heap : Heap) (nesting : Nat) (value : Value) : Except Signal Text :=
  Draft.text <$> value.toDraft heap nesting

/-- The elements of an array joined by a separator, those of inner arrays in their place. -/
def joined (heap : Heap) (separator : Text) : (nesting : Nat) → List Value →
    Except Signal Draft
  | 0, _ => .error .tooDeep
  | nesting + 1, items => do
    let parts ← items.mapM fun item => match item with
      | .array address => joined heap separator nesting (heap.items address).toList
      | _ => item.toDraft heap nesting
    return .join separator parts

def flattened (heap : Heap) : (nesting : Nat) → List Value → Except Signal (List Value)
  | 0, _ => .error .tooDeep
  | nesting + 1, items => do
    let parts ← items.mapM fun item => match item with
      | .array address => flattened heap nesting (heap.items address).toList
      | _ => .ok [item]
    return parts.flatten

/-- The lines that a value prints, one for every element of an array. -/
def lines (heap : Heap) : (nesting : Nat) → Value → Except Signal (List Text)
  | 0, _ => .error .tooDeep
  | nesting + 1, value =>
    match value with
    | .array address => do
      let parts ← (heap.items address).toList.mapM (lines heap nesting)
      return parts.flatten
    | _ => return [← value.toText heap nesting]

end Value

end Hoist
