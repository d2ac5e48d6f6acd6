import Hoist.Eval.Store

/-!
Arithmetic.  Integers are exact; with a float on either side the operation is one of floats, and an
integer that no float can hold is too large for it.  Operations give numbers that have yet to become
objects.
-/

namespace Hoist

inductive Number where
  | int (value : Int)
  | float (value : Float)

def Value.number? : Value → Option Number
  | .int value _ => some (.int value)
  | .float value _ => some (.float value)
  | _ => none

/-- What an operation on numbers gives. -/
inductive Computed where
  | int (value : Int)
  | float (value : Float)
  /-- The object on the left. -/
  | left
  /-- The nan that every division by zero gives. -/
  | undefined
  | complex (re im : Float)

def nan : Float := 0.0 / 0.0

def infinity : Float := 1.0 / 0.0

/-- Makes the object of a number that an operation gives; `left` is the object on its left. -/
def Run.newNumber (left : Value) : Computed → Run Value
  | .int value => newInt value
  | .float value => newFloat value
  | .left => return left
  | .undefined => return .float nan .shared
  | .complex re im => return .complex re im (← newIdentity)

namespace Number

def extended? : Number → Option Decimal.Extended
  | .int value => some (.ofInt value)
  | .float value => Decimal.Extended.ofFloat? value

/-- The order of two numbers; nan counts as equal to everything. -/
protected def compare (left right : Number) : Ordering :=
  match left.extended?, right.extended? with
  | some left, some right => left.compare right
  | _, _ => .eq

/-- Whether two numbers denote the same number; nan does not equal itself. -/
def equal (left right : Number) : Bool :=
  match left.extended?, right.extended? with
  | some left, some right => left.compare right == .eq
  | _, _ => false

def isZero (number : Number) : Bool := number.equal (.int 0)

/-- The float nearest to a number. -/
def toFloat : Number → Except Signal Float
  | .float value => .ok value
  | .int value =>
    match Decimal.ofInt? value with
    | some value => .ok value
    | none => .error (.fault .numberTooLarge)

/-- An operation on integers that becomes one on floats when one side is a float. -/
def combine (onInts : Int → Int → Int) (onFloats : Float → Float → Float) (left right : Number) :
    Except Signal Computed :=
  match left, right with
  | .int left, .int right => .ok (.int (onInts left right))
  | _, _ => do return .float (onFloats (← left.toFloat) (← right.toFloat))

def add : Number → Number → Except Signal Computed := combine (· + ·) (· + ·)

def subtract : Number → Number → Except Signal Computed := combine (· - ·) (· - ·)

def multiply : Number → Number → Except Signal Computed := combine (· * ·) (· * ·)

def negate : Number → Computed
  | .int value => .int (-value)
  | .float value => .float (-value)

def dividedByZero {α : Type} : Except Signal α :=
  .error (.raised "ZeroDivisionError" "divided by 0")

/-- Integer quotients are rounded down; a float divided by zero is infinite. -/
def divide (left right : Number) : Except Signal Computed :=
  match left, right with
  | .int left, .int right => if right = 0 then dividedByZero else .ok (.int (left.fdiv right))
  | _, _ => do
    if right.isZero then
      if left.isZero then return .undefined
      let left ← left.toFloat
      if left.isNaN then return .undefined
      let right ← right.toFloat
      return .float (Decimal.withSign infinity left * Decimal.withSign 1.0 right)
    return .float ((← left.toFloat) / (← right.toFloat))

/-- The remainder of finite floats with the sign of the dividend; the divisor is not zero. -/
def remainder (left right : Float) : Float :=
  match Decimal.view left, Decimal.view right with
  | .finite negative mantissa exponent, .finite _ mantissa' exponent' =>
    let least := min exponent exponent'
    let scale (mantissa : Nat) (exponent : Int) : Nat :=
      mantissa * Decimal.twoTo (exponent - least).toNat
    let rest := scale mantissa exponent % scale mantissa' exponent'
    (Decimal.nearestFloat? negative (Decimal.magnitude rest least)).getD 0.0
  | .finite .., .infinite _ => left
  | _, _ => nan

def floatModulo (left right : Float) : Float :=
  let rest := remainder left right
  if rest == 0.0 then Decimal.withSign 0.0 right
  else if (right < 0.0) != (rest < 0.0) then rest + right
  else rest

/-- Whether the leading digit of a large divisor, in base `2 ^ 30`, tells that an integer is below
it in size. -/
def clearlyBelow (dividend divisor : Int) : Bool :=
  let unit := Decimal.twoTo (30 * (divisor.natAbs.log2 / 30))
  1 < unit && dividend.natAbs / unit < divisor.natAbs / unit

/-- The remainder has the sign of the divisor.  An integer that is its own remainder stays the same
object when that is clear without a division. -/
def modulo (left right : Number) : Except Signal Computed :=
  match left, right with
  | .int left, .int right =>
    if right = 0 then dividedByZero
    else
      let rest := left.fmod right
      .ok (if rest = left ∧ clearlyBelow left right then .left else .int rest)
  | _, _ => do
    if right.isZero then return .undefined
    return .float (floatModulo (← left.toFloat) (← right.toFloat))

def isOddFloat (x : Float) : Bool :=
  match Decimal.view x with
  | .finite _ mantissa exponent =>
    let ratio := Decimal.magnitude mantissa exponent
    ratio.num % ratio.den == 0 && ratio.num / ratio.den % 2 == 1
  | _ => false

def isWhole (x : Float) : Bool :=
  match Decimal.view x with
  | .finite _ mantissa exponent =>
    let ratio := Decimal.magnitude mantissa exponent
    ratio.num % ratio.den == 0
  | _ => false

def complexPower (base exponent : Float) : Except Signal Computed :=
  let length := base.abs.pow exponent
  let phase := (Float.atan2 0.0 base) * exponent
  let re := length * phase.cos
  let im := length * phase.sin
  if re.isInf || im.isInf then .error (.fault .numberTooLarge) else .ok (.complex re im)

def floatPower (base exponent : Float) : Except Signal Computed :=
  if exponent == 0.0 then .ok (.float 1.0)
  else if base.isNaN then .ok (.float base)
  else if exponent.isNaN then .ok (.float (if base == 1.0 then 1.0 else exponent))
  else if exponent.isInf then
    let size := base.abs
    if size == 1.0 then .ok (.float 1.0)
    else if (exponent > 0.0) == (size > 1.0) then .ok (.float infinity)
    else .ok (.float 0.0)
  else if base.isInf then
    let odd := isOddFloat exponent
    if exponent > 0.0 then .ok (.float (if odd then base else base.abs))
    else .ok (.float (if odd then Decimal.withSign 0.0 base else 0.0))
  else if base == 0.0 then
    if exponent < 0.0 then .error (.fault .zeroToNegativePower)
    else .ok (.float (if isOddFloat exponent then base else 0.0))
  else if base < 0.0 && !isWhole exponent then complexPower base exponent
  else
    let size := base.abs.pow exponent
    let power := if base < 0.0 && isOddFloat exponent then -size else size
    if power.isInf then .error (.fault .numberTooLarge) else .ok (.float power)

def power (left right : Number) : Except Signal Computed :=
  match left, right with
  | .int base, .int (.ofNat exponent) => .ok (.int (base.pow exponent))
  | _, _ => do floatPower (← left.toFloat) (← right.toFloat)

end Number

end Hoist
