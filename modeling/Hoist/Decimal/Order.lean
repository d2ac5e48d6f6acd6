import Hoist.Decimal.Binary64

/-!
The order of numbers.  Integers and floats are compared as the exact numbers they denote.
-/

namespace Hoist.Decimal

/-- A quotient with a positive denominator, or an infinity. -/
inductive Extended where
  | below
  | finite (num : Int) (den : Nat)
  | above
deriving DecidableEq, Repr

namespace Extended

def ofInt (n : Int) : Extended := .finite n 1

def ofFloat? (x : Float) : Option Extended :=
  match view x with
  | .nan => none
  | .infinite true => some .below
  | .infinite false => some .above
  | .finite negative mantissa exponent =>
    let (num, den) := signedMagnitude negative mantissa exponent
    some (.finite num den)

protected def compare : Extended → Extended → Ordering
  | .below, .below => .eq
  | .below, _ => .lt
  | .above, .above => .eq
  | .above, _ => .gt
  | .finite _ _, .below => .gt
  | .finite _ _, .above => .lt
  | .finite num den, .finite num' den' => compare (num * den') (num' * den)

end Extended

/-- The greatest integer that is not above a finite float. -/
def floor? (x : Float) : Option Int := (view x).ratio?.map fun (num, den) => num.fdiv den

/-- The least integer that is not below a finite float. -/
def ceil? (x : Float) : Option Int := (view x).ratio?.map fun (num, den) => -(-num).fdiv den

def truncate? (x : Float) : Option Int := (view x).ratio?.map fun (num, den) => num.tdiv den

/-- Whether the sign bit is set; zeros and nan have one too. -/
def signBit (x : Float) : Bool := x.toBits.toNat / twoTo 63 == 1

def withSign (magnitude sign : Float) : Float :=
  let size := magnitude.toBits.toNat % twoTo 63
  Float.ofBits ((if signBit sign then twoTo 63 else 0) + size).toUInt64

end Hoist.Decimal
