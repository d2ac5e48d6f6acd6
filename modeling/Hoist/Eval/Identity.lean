import Hoist.Syntax.Loc

/-!
The identity of objects.  Equal numbers and texts may be different objects.  A constant is one
object each time it is evaluated, and what an operation makes is a new object; small integers, the
empty text and characters of the Latin-1 range are shared.
-/

namespace Hoist

/-- What tells an object apart from others of the same content. -/
inductive Identity where
  /-- The one object that all who need its content share. -/
  | shared
  /-- The constant written at a place of the program. -/
  | written (loc : Loc)
  /-- The object with a number, in the order in which a run makes them. -/
  | made (number : Nat)
deriving DecidableEq, Repr

def isSharedInt (value : Int) : Bool := -5 ≤ value && value ≤ 256

def isSharedText (text : Text) : Bool :=
  match text.toList with
  | [] => true
  | [code] => code.val < 256
  | _ => false

/-- A text as an object. -/
structure TextObject where
  text : Text
  id : Identity
deriving DecidableEq, Repr

namespace TextObject

def shared (text : Text) : TextObject := ⟨text, .shared⟩

def written (loc : Loc) (text : Text) : TextObject :=
  ⟨text, if isSharedText text then .shared else .written loc⟩

end TextObject

/-- A text that an operation gives: an object that exists already, or else a new one. -/
structure Draft where
  text : Text
  id : Option Identity

namespace Draft

def ofObject (object : TextObject) : Draft := ⟨object.text, some object.id⟩

instance : Coe TextObject Draft := ⟨ofObject⟩

def made (text : Text) : Draft := ⟨text, if text.isEmpty then some .shared else none⟩

def piece (text : Text) : Draft := ⟨text, if isSharedText text then some .shared else none⟩

/-- The part of a text from one place up to another; all of it is the text itself. -/
def cut (object : TextObject) (start stop : Nat) : Draft :=
  if start = 0 ∧ object.text.length ≤ stop then object else piece (object.text.part start stop)

/-- One text after the other; if one is empty, the result is the other. -/
def append (left right : Draft) : Draft :=
  if left.text.isEmpty then right
  else if right.text.isEmpty then left
  else made (left.text ++ right.text)

/-- Texts with a separator between them; a single one is the result. -/
def join (separator : Text) : List Draft → Draft
  | [] => made ""
  | [single] => single
  | drafts => made (Text.intercalate separator (drafts.map text))

end Draft

end Hoist
