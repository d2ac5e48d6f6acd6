import Hoist.Decimal.Binary64

/-!
The shortest decimal that reads back as a given float.  Among the decimals with the fewest digits
it is the one nearest to the float, an exact tie going to the even last digit.
-/

namespace Hoist.Decimal

/-- A positive decimal: `digits`, read as a natural, times `10 ^ exponent`. -/
structure Digits where
  digits : Nat
  exponent : Int
deriving DecidableEq, Repr

/-- The number of decimal digits of a natural; zero has one. -/
def digitCount (n : Nat) : Nat := (Nat.toDigits 10 n).length

/-- The exponent of the leading decimal digit of a positive quotient. -/
def leadingExponent (ratio : Ratio) : Int :=
  if ratio.den ≤ ratio.num then Int.ofNat (digitCount (ratio.num / ratio.den)) - 1
  else
    let count := digitCount (ratio.den / ratio.num)
    if ratio.den ≤ ratio.num * tenTo (count - 1) then 1 - Int.ofNat count else -Int.ofNat count

/-- The reals that round to `mantissa * 2 ^ exponent`, as numerators over a common denominator:
low end, value, high end, denominator, and whether the ends belong to the interval. -/
structure Interval where
  low : Nat
  value : Nat
  high : Nat
  den : Nat
  closed : Bool
deriving Repr

def roundingInterval (mantissa : Nat) (exponent : Int) : Interval :=
  -- Below a power of two the neighbours are only half as far away.
  let narrow := mantissa == twoTo 52 && -1074 < exponent
  let quarters := 4 * mantissa
  let scale := magnitude 1 (exponent - 2)
  { low := (if narrow then quarters - 1 else quarters - 2) * scale.num
    value := quarters * scale.num
    high := (quarters + 2) * scale.num
    den := scale.den
    closed := mantissa % 2 == 0 }

/-- Whether the decimal `n * 10 ^ power` lies in the interval. -/
def Interval.contains (interval : Interval) (n : Nat) (power : Int) : Bool :=
  let point := match power with
    | .ofNat p => (n * tenTo p * interval.den, 1)
    | .negSucc p => (n * interval.den, tenTo (p + 1))
  if interval.closed then
    interval.low * point.2 ≤ point.1 && point.1 ≤ interval.high * point.2
  else
    interval.low * point.2 < point.1 && point.1 < interval.high * point.2

/-- The value of the interval divided by `10 ^ power`, as a quotient. -/
def Interval.scaled (interval : Interval) : Int → Ratio
  | .ofNat p => ⟨interval.value, interval.den * tenTo p⟩
  | .negSucc p => ⟨interval.value * tenTo (p + 1), interval.den⟩

/-- The decimal on the grid of `10 ^ power` that lies in the interval, nearest to its value. -/
def Interval.nearest? (interval : Interval) (power : Int) : Option Nat :=
  let ratio := interval.scaled power
  let below := ratio.num / ratio.den
  let above := below + 1
  let nearer := roundHalfEven ratio.num ratio.den
  let farther := if nearer == below then above else below
  if interval.contains nearer power then some nearer
  else if interval.contains farther power then some farther
  else none

/-- The first grid, from the coarsest, that has a point in the interval. -/
def Interval.shortestFrom (interval : Interval) : Nat → Int → Digits
  | 0, power => ⟨roundHalfEven (interval.scaled power).num (interval.scaled power).den, power⟩
  | fuel + 1, power =>
    match interval.nearest? power with
    | some digits => ⟨digits, power⟩
    | none => interval.shortestFrom fuel (power - 1)

def Digits.trim (decimal : Digits) : Digits :=
  go (digitCount decimal.digits) decimal
where
  go : Nat → Digits → Digits
    | 0, decimal => decimal
    | fuel + 1, decimal =>
      if decimal.digits % 10 == 0 && decimal.digits != 0 then
        go fuel ⟨decimal.digits / 10, decimal.exponent + 1⟩
      else decimal

/-- The shortest decimal of the positive float `mantissa * 2 ^ exponent`. -/
def shortest (mantissa : Nat) (exponent : Int) : Digits :=
  let lead := leadingExponent (magnitude mantissa exponent)
  ((roundingInterval mantissa exponent).shortestFrom 17 lead).trim

end Hoist.Decimal
