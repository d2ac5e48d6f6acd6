import Hoist.Decimal.Shortest

/-!
Decimals with a given number of digits.  The exact value is rounded, a half going to the even
neighbour.
-/

namespace Hoist.Decimal

def Ratio.timesTen (ratio : Ratio) : Int → Ratio
  | .ofNat power => ⟨ratio.num * tenTo power, ratio.den⟩
  | .negSucc power => ⟨ratio.num, ratio.den * tenTo (power + 1)⟩

/-- The nearest natural. -/
def Ratio.round (ratio : Ratio) : Nat := roundHalfEven ratio.num ratio.den

def fixedText (ratio : Ratio) (places : Nat) : String :=
  let digits := (toString (ratio.timesTen places).round).toList
  let padded := List.replicate (places + 1 - digits.length) '0' ++ digits
  let whole := padded.length - places
  String.ofList (padded.take whole) ++
    if places = 0 then "" else "." ++ String.ofList (padded.drop whole)

/-- A quotient rounded to a number of places after its leading digit: the digits and the exponent
of the leading one. -/
def scientific (ratio : Ratio) (places : Nat) : Nat × Int :=
  if ratio.num = 0 then (0, 0)
  else
    let lead := leadingExponent ratio
    let digits := (ratio.timesTen (Int.ofNat places - lead)).round
    if digits = tenTo (places + 1) then (tenTo places, lead + 1) else (digits, lead)

/-- An exponent with its mark, sign and at least two digits. -/
def exponentMark (exponent : Int) : String :=
  let size := toString exponent.natAbs
  (if exponent < 0 then "e-" else "e+") ++ (if size.length < 2 then "0" ++ size else size)

/-- A quotient with an exponent and a number of places after the leading digit. -/
def scientificText (ratio : Ratio) (places : Nat) : String × Int :=
  let (digits, exponent) := scientific ratio places
  let text := (toString digits).toList
  let padded := text ++ List.replicate (places + 1 - text.length) '0'
  (String.ofList (padded.take 1) ++
    if places = 0 then "" else "." ++ String.ofList (padded.drop 1), exponent)

/-- The float nearest to a float rounded to a number of decimal places. -/
def roundToPlaces (x : Float) (places : Nat) : Float :=
  match view x with
  | .finite negative mantissa exponent =>
    if 400 < places then x
    else
      let rounded := ((magnitude mantissa exponent).timesTen places).round
      (nearestFloat? negative ⟨rounded, tenTo places⟩).getD x
  | _ => x

end Hoist.Decimal
