import Hoist.Text.Basic
import Hoist.Text.CaseTable
import Hoist.Text.Ranges

/-!
Letter case.  A character may become several in the other case.  The capital sigma becomes a final
sigma at the end of a word.
-/

namespace Hoist.Text

open CaseTable

def shifted? (shifts : Array (Nat × Nat × Nat × Int)) (code : Nat) : Option Nat :=
  (shifts.find? fun (first, last, step, _) =>
    first ≤ code && code ≤ last && (code - first) % step == 0).map
      fun (_, _, _, delta) => (Int.ofNat code + delta).toNat

/-- Capitals with the distance to their small letters. -/
def capitals : Array (Nat × Nat × Nat × Int) :=
  pairs.map fun (first, last, step, delta) =>
    ((first + delta).toNat, (last + delta).toNat, step, -delta)

def upperShifts : Array (Nat × Nat × Nat × Int) := pairs ++ sharedCapitals

def lowerShifts : Array (Nat × Nat × Nat × Int) := capitals ++ sharedSmalls

def expanded? (expansions : Array (Nat × List Nat)) (code : Nat) : Option (List Nat) :=
  (expansions.find? fun entry => entry.1 == code).map (·.2)

def upperCode (code : Nat) : List Nat :=
  (expanded? upperExpansions code).getD <|
    match shifted? iotaShifts code with
    | some capital => [capital, 921]
    | none => [(shifted? upperShifts code).getD code]

def lowerCode (code : Nat) : List Nat :=
  (expanded? lowerExpansions code).getD [(shifted? lowerShifts code).getD code]

def upperChar (c : Char) : List Char :=
  if c.toNat < 128 then [c.toUpper] else (upperCode c.toNat).map Char.ofNat

def lowerChar (c : Char) : List Char :=
  if c.toNat < 128 then [c.toLower] else (lowerCode c.toNat).map Char.ofNat

/-- A mapping of characters as one of code points; surrogates stay as they are. -/
def onChar (image : Char → List Char) (code : CodePoint) : List CodePoint :=
  if code.isSurrogate then [code] else (image code.toChar).map .ofChar

def isUpper (code : CodePoint) : Bool :=
  inStretches capitalStretches code.val || (shifted? capitals code.val).isSome

def isLower (code : CodePoint) : Bool :=
  inStretches smallStretches code.val || (shifted? pairs code.val).isSome

/-- Title letters have case as well: they have a small letter and are no capitals. -/
def isCased (code : CodePoint) : Bool :=
  isUpper code || isLower code || (shifted? sharedSmalls code.val).isSome

/-- Whether the first character that matters to the shape of a sigma is a letter with case. -/
def letterNext (text : List CodePoint) : Bool :=
  match text.dropWhile fun code => inStretches passedStretches code.val with
  | [] => false
  | code :: _ => isCased code

/-- The lower case of a code point between the text before it, read backwards, and after it. -/
def lowerAt (before after : List CodePoint) (code : CodePoint) : List CodePoint :=
  if code == 'Σ' then if letterNext before && !letterNext after then ['ς'] else ['σ']
  else onChar lowerChar code

/-- Maps every code point in view of the text around it. -/
def mapAround (image : List CodePoint → List CodePoint → CodePoint → List CodePoint)
    (before : List CodePoint) : List CodePoint → List CodePoint
  | [] => []
  | code :: rest => image before rest code ++ mapAround image (code :: before) rest

def upcase (text : Text) : Text := ofList (text.toList.flatMap (onChar upperChar))

def downcase (text : Text) : Text := ofList (mapAround lowerAt [] text.toList)

def swapcase (text : Text) : Text :=
  ofList (mapAround
    (fun before after code =>
      if isUpper code then lowerAt before after code
      else if isLower code then onChar upperChar code
      else [code])
    [] text.toList)

def capitalize (text : Text) : Text := upcase (text.part 0 1) ++ downcase (text.part 1 text.length)

end Hoist.Text
