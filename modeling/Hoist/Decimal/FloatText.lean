import Hoist.Decimal.Shortest

/-!
Floats as text.  The digits are the shortest that read back; the number is written positionally from
`0.0001` up to below `10 ^ 16` and with an exponent of at least two digits otherwise.
-/

namespace Hoist.Decimal

/-- What a notation decides beyond the digits. -/
structure FloatStyle where
  nan : String
  infinity : String
  /-- Whether a mantissa of one digit is followed by `.0` before the exponent. -/
  pointInMantissa : Bool

def exponentText (style : FloatStyle) (decimal : Digits) : String :=
  let digits := toString decimal.digits
  let lead := decimal.exponent + Int.ofNat digits.length - 1
  let mantissa := match digits.toList with
    | [digit] => if style.pointInMantissa then digit.toString ++ ".0" else digit.toString
    | digit :: rest => digit.toString ++ "." ++ String.ofList rest
    | [] => ""
  let size := toString lead.natAbs
  mantissa ++ (if lead < 0 then "e-" else "e+") ++ (if size.length < 2 then "0" ++ size else size)

/-- A decimal written positionally, with at least one digit on each side of the point. -/
def positionalText (decimal : Digits) : String :=
  let digits := (toString decimal.digits).toList
  match decimal.exponent with
  | .ofNat zeros => String.ofList (digits ++ List.replicate zeros '0') ++ ".0"
  | .negSucc places =>
    let places := places + 1
    let padded := List.replicate (places + 1 - digits.length) '0' ++ digits
    let whole := padded.length - places
    String.ofList (padded.take whole) ++ "." ++ String.ofList (padded.drop whole)

def floatText (style : FloatStyle) (x : Float) : String :=
  let signed (negative : Bool) (text : String) : String := if negative then "-" ++ text else text
  match view x with
  | .nan => style.nan
  | .infinite negative => signed negative style.infinity
  | .finite negative 0 _ => signed negative "0.0"
  | .finite negative mantissa exponent =>
    let decimal := shortest mantissa exponent
    let lead := decimal.exponent + Int.ofNat (digitCount decimal.digits) - 1
    signed negative <|
      if -4 ≤ lead ∧ lead < 16 then positionalText decimal else exponentText style decimal

/-- The bare notation: `inf`, `nan`, `1e+16`. -/
def plainStyle : FloatStyle := ⟨"nan", "inf", false⟩

/-- The notation of float literals in program text: `1.0e+16`. -/
def literalStyle : FloatStyle := ⟨"nan", "inf", true⟩

/-- The notation in which a running program shows floats: `NaN`, `Infinity`, `1.0e+16`. -/
def shownStyle : FloatStyle := ⟨"NaN", "Infinity", true⟩

end Hoist.Decimal
