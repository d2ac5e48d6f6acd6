import Hoist.Decimal.Fixed
import Hoist.Eval.Context

/-!
Methods of numbers.
-/

namespace Hoist

/-- An integer as an object. -/
structure IntObject where
  value : Int
  id : Identity

def IntObject.toValue (object : IntObject) : Value := .int object.value object.id

/-- A number as an object. -/
structure NumberObject where
  number : Number
  id : Identity

def NumberObject.toValue (object : NumberObject) : Value :=
  match object.number with
  | .int value => .int value object.id
  | .float value => .float value object.id

namespace NumberMethod

/-- The magnitude of a number; an integer that is not negative is its own. -/
def abs (object : NumberObject) : Run Value :=
  match object.number with
  | .int value => if 0 ≤ value then return object.toValue else Run.newInt (-value)
  | .float value => Run.newFloat value.abs

/-- The integer that a rounding of floats gives; an integer is its own. -/
def toInteger (rounded? : Float → Option Int) (object : NumberObject) : Run Value :=
  match object.number with
  | .int _ => return object.toValue
  | .float x =>
    match rounded? x with
    | some value => Run.newInt value
    | none => Run.fault (if x.isNaN then .notANumber else .numberTooLarge)

/-- The float nearest to a number; a float is its own. -/
def toFloat (object : NumberObject) : Run Value :=
  match object.number with
  | .int _ => do Run.newFloat (← Run.ofExcept object.number.toFloat)
  | .float _ => return object.toValue

def quotient (num : Int) (den : Nat) : Run Float :=
  match Decimal.nearestFloat? (num < 0) ⟨num.natAbs, den⟩ with
  | some x => return x
  | none => Run.fault .numberTooLarge

/-- A number rounded to an integer, a half going away from zero; `places` zeros are first put to its
end and then taken off. -/
def roundHalfUp (number : Number) (places : Nat) : Run Value := do
  let scale := Decimal.tenTo places
  let scaled ← match number with
    | .int value => Run.ofExcept (Number.toFloat (.int (value.natAbs * scale)))
    | .float x => (x.abs * ·) <$> Run.ofExcept (Number.toFloat (.int scale))
  let shifted := scaled + 0.5
  match Decimal.floor? shifted with
  | none => Run.fault (if shifted.isNaN then .notANumber else .numberTooLarge)
  | some whole =>
    let rounded ← quotient whole scale
    let sign ← Run.ofExcept number.toFloat
    Run.newInt (← Run.truncate (Decimal.withSign rounded sign))

def round : Builtin NumberObject := fun _ object args _ => do
  let digits ← match args with
    | [] => pure 0
    | digits :: _ => Run.intArg digits
  if 0 < digits then
    match object.number with
    | .int _ => do Run.newFloat (← Run.ofExcept object.number.toFloat)
    | .float x => Run.newFloat (Decimal.roundToPlaces x digits.toNat)
  else roundHalfUp object.number (-digits).toNat

def isBetween : Builtin NumberObject := fun context object args _ => do
  let low ← context.compare object.toValue (← Run.arg args 0)
  if low == .lt then return .bool false
  let high ← context.compare object.toValue (← Run.arg args 1)
  return .bool (high != .gt)

def clamp : Builtin NumberObject := fun context object args _ => do
  let low ← Run.arg args 0
  if (← context.compare object.toValue low) == .lt then return low
  let high ← Run.arg args 1
  if (← context.compare object.toValue high) == .gt then return high
  return object.toValue

def liesOn (side : Ordering) : Builtin NumberObject := fun _ object _ _ =>
  return .bool (object.number.compare (.int 0) == side)

def table : BuiltinTable NumberObject := [
  ("abs", fun _ object _ _ => abs object),
  ("zero?", fun _ object _ _ => return .bool object.number.isZero),
  ("positive?", liesOn .gt),
  ("negative?", liesOn .lt),
  ("to_i", fun _ object _ _ => toInteger Decimal.truncate? object),
  ("to_f", fun _ object _ _ => toFloat object),
  ("floor", fun _ object _ _ => toInteger Decimal.floor? object),
  ("ceil", fun _ object _ _ => toInteger Decimal.ceil? object),
  ("round", round),
  ("between?", isBetween),
  ("clamp", clamp)]

end NumberMethod

namespace IntegerMethod

/-- Yields consecutive integers, `step` apart. -/
def count (context : Context) (block : Option Address) (step : Int) :
    (remaining : Nat) → (next : Int) → Run Unit
  | 0, _ => return ()
  | remaining + 1, next => do
    let _ ← context.yield block [← Run.newInt next]
    count context block step remaining (next + step)

def times : Builtin IntObject := fun context object _ block => do
  count context block 1 object.value.toNat 0
  return object.toValue

def upto : Builtin IntObject := fun context object args block => do
  Run.checkArity args 1 1
  let last ← Run.intArg (← Run.arg args 0)
  count context block 1 (last + 1 - object.value).toNat object.value
  return object.toValue

def downto : Builtin IntObject := fun context object args block => do
  Run.checkArity args 1 1
  let last ← Run.intArg (← Run.arg args 0)
  count context block (-1) (object.value + 1 - last).toNat object.value
  return object.toValue

def chr : Builtin IntObject := fun _ object _ _ =>
  if object.value < -Int.ofNat (Decimal.twoTo 31) ∨ Int.ofNat (Decimal.twoTo 31) ≤ object.value then
    Run.fault .numberTooLarge
  else
    match object.value with
    | .ofNat number =>
      match CodePoint.ofNat? number with
      | some code => Run.newString (.piece (.single code))
      | none => Run.fault .noSuchCharacter
    | .negSucc _ => Run.fault .noSuchCharacter

def table : BuiltinTable IntObject := [
  ("times", times),
  ("upto", upto),
  ("downto", downto),
  ("even?", fun _ object _ _ => return .bool (object.value % 2 == 0)),
  ("odd?", fun _ object _ _ => return .bool (object.value % 2 == 1)),
  ("succ", fun _ object _ _ => Run.newInt (object.value + 1)),
  ("pred", fun _ object _ _ => Run.newInt (object.value - 1)),
  ("chr", chr),
  ("to_s", fun _ object _ _ => do
    Run.newString (.made (← Run.ofExcept (intText object.value))))]

end IntegerMethod

namespace FloatMethod

def table : BuiltinTable Float := [
  ("nan?", fun _ x _ _ => return .bool x.isNaN),
  ("infinite?", fun _ x _ _ =>
    if x.isInf then Run.newInt (if x > 0.0 then 1 else -1) else return .nil)]

end FloatMethod

end Hoist
