/-!
Texts are sequences of Unicode code points.  A text may hold a surrogate, which is a code point but
no character: a program can make one from its number.
-/

namespace Hoist

/-- A Unicode code point. -/
structure CodePoint where
  val : Nat
  inRange : val < 0x110000
deriving DecidableEq, Repr

namespace CodePoint

instance : Inhabited CodePoint := ⟨⟨0, by decide⟩⟩

theorem toNat_inRange (c : Char) : c.toNat < 0x110000 := by
  rcases c.valid with h | h
  · exact Nat.lt_trans h (by decide)
  · exact h.2

def ofChar (c : Char) : CodePoint := ⟨c.toNat, toNat_inRange c⟩

instance : Coe Char CodePoint := ⟨ofChar⟩

def ofNat? (n : Nat) : Option CodePoint := if h : n < 0x110000 then some ⟨n, h⟩ else none

def isSurrogate (code : CodePoint) : Bool := 0xd800 ≤ code.val && code.val ≤ 0xdfff

/-- The character of a code point.  A surrogate has none and gives the replacement character. -/
def toChar (code : CodePoint) : Char :=
  if code.isSurrogate then '\ufffd' else Char.ofNat code.val

@[simp] theorem val_ofChar (c : Char) : (ofChar c).val = c.toNat := rfl

@[simp] theorem isSurrogate_ofChar (c : Char) : (ofChar c).isSurrogate = false := by
  have valid : c.toNat < 0xd800 ∨ 0xdfff < c.toNat ∧ c.toNat < 0x110000 := c.valid
  rw [Bool.eq_false_iff]
  intro surrogate
  simp only [isSurrogate, Bool.and_eq_true, decide_eq_true_eq] at surrogate
  rw [val_ofChar] at surrogate
  omega

@[simp] theorem toChar_ofChar (c : Char) : (ofChar c).toChar = c := by
  rw [toChar, isSurrogate_ofChar]
  simp [ofChar]

@[simp] theorem ofChar_inj {a b : Char} : ofChar a = ofChar b ↔ a = b := by
  constructor
  · intro same
    rw [← toChar_ofChar a, same, toChar_ofChar]
  · rintro rfl
    rfl

end CodePoint

/-- A sequence of code points. -/
structure Text where
  codes : Array CodePoint
deriving DecidableEq, Repr, Inhabited

namespace Text

def ofList (codes : List CodePoint) : Text := ⟨codes.toArray⟩

def toList (text : Text) : List CodePoint := text.codes.toList

def ofString (string : String) : Text := ofList (string.toList.map CodePoint.ofChar)

instance : Coe String Text := ⟨ofString⟩

def chars (text : Text) : List Char := text.toList.map CodePoint.toChar

/-- A text as a string, which holds its characters only. -/
protected def toString (text : Text) : String := String.ofList text.chars

def single (code : CodePoint) : Text := ⟨#[code]⟩

def replicate (count : Nat) (code : CodePoint) : Text := ⟨.replicate count code⟩

def length (text : Text) : Nat := text.codes.size

def isEmpty (text : Text) : Bool := text.codes.isEmpty

protected def append (left right : Text) : Text := ⟨left.codes ++ right.codes⟩

instance : Append Text := ⟨Text.append⟩

def part (text : Text) (start stop : Nat) : Text := ⟨text.codes.extract start stop⟩

def contains (text : Text) (code : CodePoint) : Bool := text.codes.contains code

def startsWith (text start : Text) : Bool := start.toList.isPrefixOf text.toList

def endsWith (text ending : Text) : Bool :=
  ending.length ≤ text.length && text.part (text.length - ending.length) text.length == ending

def join (texts : List Text) : Text := texts.foldl (· ++ ·) ⟨#[]⟩

def intercalate (separator : Text) : List Text → Text
  | [] => ⟨#[]⟩
  | first :: rest => rest.foldl (fun text next => text ++ separator ++ next) first

protected def compare (left right : Text) : Ordering :=
  List.compareLex (fun left right => Ord.compare left.val right.val) left.toList right.toList

@[simp] theorem toList_ofList (codes : List CodePoint) : (ofList codes).toList = codes := rfl

@[simp] theorem ofList_toList (text : Text) : ofList text.toList = text := rfl

theorem toList_injective {left right : Text} (same : left.toList = right.toList) :
    left = right := by
  rw [← ofList_toList left, same, ofList_toList]

@[simp] theorem toList_append (left right : Text) :
    (left ++ right).toList = left.toList ++ right.toList := by
  change (left.codes ++ right.codes).toList = _
  simp [toList]

@[simp] theorem toList_ofString (string : String) :
    (ofString string).toList = string.toList.map CodePoint.ofChar := rfl

@[simp] theorem chars_ofString (string : String) : (ofString string).chars = string.toList := by
  simp [chars, Function.comp_def]

@[simp] theorem toString_ofString (string : String) : Text.toString (ofString string) = string := by
  simp [Text.toString]

end Text

end Hoist
