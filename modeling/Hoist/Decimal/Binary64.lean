import Hoist.Decimal.Power

/-!
Floats as exact numbers.  A finite float is a sign, a natural mantissa and a power of two; the
comparisons and conversions below work on that view and so are exact.
-/

namespace Hoist.Decimal

/-- What a float denotes. -/
inductive FloatView where
  | nan
  | infinite (negative : Bool)
  /-- The number `± mantissa * 2 ^ exponent`. -/
  | finite (negative : Bool) (mantissa : Nat) (exponent : Int)
deriving DecidableEq, Repr

def viewBits (bits : Nat) : FloatView :=
  let negative := bits / twoTo 63 == 1
  let biased := bits / twoTo 52 % 2048
  let fraction := bits % twoTo 52
  if biased == 2047 then
    if fraction == 0 then .infinite negative else .nan
  else if biased == 0 then .finite negative fraction (-1074)
  else .finite negative (fraction + twoTo 52) (Int.ofNat biased - 1075)

def view (x : Float) : FloatView := viewBits x.toBits.toNat

/-- A quotient of naturals. -/
structure Ratio where
  num : Nat
  den : Nat
deriving DecidableEq, Repr

def magnitude (mantissa : Nat) : Int → Ratio
  | .ofNat exponent => ⟨mantissa * twoTo exponent, 1⟩
  | .negSucc exponent => ⟨mantissa, twoTo (exponent + 1)⟩

/-- A signed quotient: numerator and positive denominator. -/
def signedMagnitude (negative : Bool) (mantissa : Nat) (exponent : Int) : Int × Nat :=
  let ratio := magnitude mantissa exponent
  (if negative then -Int.ofNat ratio.num else Int.ofNat ratio.num, ratio.den)

def FloatView.ratio? : FloatView → Option (Int × Nat)
  | .finite negative mantissa exponent => some (signedMagnitude negative mantissa exponent)
  | _ => none

/-- Division rounded to the nearest natural, a half going to the even neighbour. -/
def roundHalfEven (num den : Nat) : Nat :=
  let quotient := num / den
  let twice := 2 * (num % den)
  if twice < den then quotient
  else if den < twice then quotient + 1
  else if quotient % 2 == 0 then quotient else quotient + 1

/-- The float nearest to a quotient, or `none` when it is too large to be finite. -/
def nearestFloat? (negative : Bool) (ratio : Ratio) : Option Float :=
  if ratio.num == 0 then some (if negative then -0.0 else 0.0) else
  -- The exponent that leaves a mantissa of 53 bits, or the least one.
  let width : Int := Int.ofNat (Nat.log2 ratio.num) - Int.ofNat (Nat.log2 ratio.den)
  let scaled (exponent : Int) : Nat × Nat :=
    match exponent with
    | .ofNat e => (ratio.num, ratio.den * twoTo e)
    | .negSucc e => (ratio.num * twoTo (e + 1), ratio.den)
  let guess := width - 53
  let exponent :=
    let (num, den) := scaled guess
    if num / den < twoTo 53 then guess else guess + 1
  let exponent := max exponent (-1074)
  let (num, den) := scaled exponent
  let mantissa := roundHalfEven num den
  let (mantissa, exponent) :=
    if mantissa == twoTo 53 then (twoTo 52, exponent + 1) else (mantissa, exponent)
  if 971 < exponent then none
  else
    let biased := if mantissa < twoTo 52 then 0 else (exponent + 1075).toNat
    let bits := (if negative then twoTo 63 else 0) + biased * twoTo 52 + mantissa % twoTo 52
    some (Float.ofBits bits.toUInt64)

/-- The float nearest to an integer, or `none` when it is too large. -/
def ofInt? (n : Int) : Option Float := nearestFloat? (n < 0) ⟨n.natAbs, 1⟩

end Hoist.Decimal
