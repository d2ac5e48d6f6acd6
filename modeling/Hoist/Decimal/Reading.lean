import Hoist.Decimal.Shortest
import Hoist.Text.Digit

/-!
Numbers read from decimal text, with digits of any script.
-/

namespace Hoist.Decimal

/-- The float nearest to a decimal.  Zeros at the end of the digits do not count, and numbers beyond
the range of floats are decided by their size alone, so that no huge power is computed. -/
def Digits.nearestFloat (decimal : Digits) : Float :=
  let ⟨digits, exponent⟩ := decimal.trim
  let size : Int := exponent + Int.ofNat (digitCount digits)
  if digits == 0 then 0.0
  else if 400 < size then 1.0 / 0.0
  else if size < -400 then 0.0
  else match exponent with
    | .ofNat e => Float.ofScientific (digits * tenTo e) false 0
    | .negSucc e => Float.ofScientific digits true (e + 1)

/-- A decimal number split into its parts. -/
structure DecimalParts where
  negative : Bool
  whole : List Char
  fraction : List Char
  exponent : Int

def DecimalParts.toFloat (parts : DecimalParts) : Float :=
  let digits := Text.digitsValue (parts.whole ++ parts.fraction)
  let size := Digits.nearestFloat ⟨digits, parts.exponent - Int.ofNat parts.fraction.length⟩
  if parts.negative then -size else size

/-- Takes an optional sign off the front; `true` is a minus. -/
def takeSign : List Char → Bool × List Char
  | '-' :: rest => (true, rest)
  | '+' :: rest => (false, rest)
  | text => (false, text)

def takeDigits (text : List Char) : List Char × List Char :=
  (text.takeWhile Text.isDigit, text.dropWhile Text.isDigit)

/-- Takes an exponent such as `e+07` off the front, when a digit follows its mark and sign. -/
def takeExponent : List Char → Int × List Char
  | text@(mark :: rest) =>
    if mark == 'e' || mark == 'E' then
      let (negative, rest) := takeSign rest
      match takeDigits rest with
      | ([], _) => (0, text)
      | (digits, rest) =>
        let size := Int.ofNat (Text.digitsValue digits)
        (if negative then -size else size, rest)
    else (0, text)
  | [] => (0, [])

/-- Takes a fraction such as `.25` off the front, when a digit follows the point. -/
def takeFraction : List Char → List Char × List Char
  | text@('.' :: rest) =>
    match takeDigits rest with
    | ([], _) => ([], text)
    | (digits, rest) => (digits, rest)
  | text => ([], text)

/-- Takes a decimal number off the front of a text: digits, then perhaps a fraction, then perhaps
an exponent. -/
def takeDecimal? (text : List Char) : Option (DecimalParts × List Char) :=
  let (negative, rest) := takeSign text
  match takeDigits rest with
  | ([], _) => none
  | (whole, rest) =>
    let (fraction, rest) := takeFraction rest
    let (exponent, rest) := takeExponent rest
    some (⟨negative, whole, fraction, exponent⟩, rest)

/-- Reads a float from its bare notation, infinities and `nan` included. -/
def readFloat? (text : String) : Option Float :=
  match text with
  | "inf" => some (1.0 / 0.0)
  | "-inf" => some (-(1.0 / 0.0))
  | "nan" => some (0.0 / 0.0)
  | _ => match takeDecimal? text.toList with
    | some (parts, []) => some parts.toFloat
    | _ => none

def maxIntegerDigits : Nat := 4300

/-- The integer that a run of digits denotes, unless it has too many. -/
def readNat? (digits : List Char) : Option Nat :=
  if digits.length ≤ maxIntegerDigits then some (Text.digitsValue digits) else none

/-- The text of an integer, unless it has too many digits. -/
def intText? (n : Int) : Option String :=
  let text := toString n.natAbs
  if text.length ≤ maxIntegerDigits then some (if n < 0 then "-" ++ text else text) else none

end Hoist.Decimal
