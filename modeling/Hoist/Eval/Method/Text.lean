import Hoist.Eval.Index
import Hoist.Eval.Operator
import Hoist.Text.Blank
import Hoist.Text.Case
import Hoist.Text.Search

/-!
Methods of strings.
-/

namespace Hoist

namespace TextMethod

def strings (drafts : List Draft) : Run Value := do Run.newList (← drafts.mapM Run.newString)

def parts (object : TextObject) (places : List (Nat × Nat)) : Run Value :=
  strings (places.map fun (start, stop) => .cut object start stop)

def chars (object : TextObject) : List Draft :=
  object.text.toList.map fun code => .piece (.single code)

def mapping (image : Text → Text) : Builtin TextObject := fun _ object _ _ =>
  Run.newString (.made (image object.text))

def index : Builtin TextObject := fun _ object args _ => do
  match ← Index.select object.text.length args with
  | .nothing => return .nil
  | .item place => Run.newString (.piece (object.text.part place (place + 1)))
  | .part start stop => Run.newString (.cut object start stop)

def chomp : Builtin TextObject := fun context object args _ => do
  let without (ending : Text) : Run Value :=
    Run.newString (.cut object 0 (object.text.length - ending.length))
  match args with
  | ending :: _ =>
    let ending ← context.toText ending
    if !ending.isEmpty && object.text.endsWith ending then without ending
    else return .str object
  | [] =>
    match ["\r\n", "\n", "\r"].find? fun (ending : String) => object.text.endsWith ending with
    | some ending => without ending
    | none => return .str object

def dropEmptyEnd (drafts : List Draft) : List Draft :=
  (drafts.reverse.dropWhile fun draft => draft.text.isEmpty).reverse

/-- The parts between the occurrences of a separator; the empty one separates all code points. -/
def splitAt (object : TextObject) (separator : Text) : List Draft :=
  if separator.isEmpty then chars object
  else (Text.split separator object.text).map fun (start, stop) => .cut object start stop

def split : Builtin TextObject := fun _ object args _ =>
  match args with
  | [] | .nil :: _ => parts object (Text.words object.text)
  | .str separator :: _ =>
    if separator.text = " " then parts object (Text.words object.text)
    else strings (dropEmptyEnd (splitAt object separator.text))
  | separator :: _ =>
    Run.raise "TypeError" ("wrong argument type " ++ separator.className ++ " (expected String)")

def yieldChars (context : Context) (block : Option Address) : List CodePoint → Run Unit
  | [] => return ()
  | code :: rest => do
    let _ ← context.yield block [← Run.newString (.piece (.single code))]
    yieldChars context block rest

/-- A method that replaces occurrences of its first argument by its second.  The text stays the same
object when there are none and when both arguments are one object. -/
def substitute (replace? : Text → Text → Text → Option Text) : Builtin TextObject :=
  fun _ object args _ => do
    Run.checkArity args 2 2
    match args with
    | [.str pattern, .str replacement] =>
      match replace? pattern.text replacement.text object.text with
      | some text =>
        if pattern = replacement then return .str object else Run.newString (.made text)
      | none => return .str object
    | _ => Run.raise "TypeError" "wrong argument type (expected String)"

def find : Builtin TextObject := fun context object args _ => do
  Run.checkArity args 1 1
  match Text.find? (← context.toText (← Run.arg args 0)) object.text with
  | some place => Run.newInt place
  | none => return .nil

def anyText (context : Context) (test : Text → Bool) : List Value → Run Bool
  | [] => return false
  | arg :: rest => do
    if test (← context.toText arg) then return true
    else anyText context test rest

/-- The code points of a text that do not occur in the argument, which an empty text never asks
for. -/
def delete : Builtin TextObject := fun context object args _ => do
  if object.text.isEmpty then return .str object
  let unwanted ← context.toText (← Run.arg args 0)
  Run.newString (.piece (.ofList (object.text.toList.filter fun code => !unwanted.contains code)))

def groupedDigits : List Char → List Char
  | '_' :: c :: rest => if Text.isDigit c then c :: groupedDigits rest else []
  | c :: rest => if Text.isDigit c then c :: groupedDigits rest else []
  | [] => []

def toInteger : Builtin TextObject := fun _ object _ _ => do
  let (negative, rest) := Decimal.takeSign (object.text.chars.dropWhile Text.isBlank)
  match rest with
  | '_' :: _ => Run.newInt 0
  | _ =>
    match Decimal.readNat? (groupedDigits rest) with
    | some value => Run.newInt (if negative then -Int.ofNat value else Int.ofNat value)
    | none => Run.fault .integerTooLong

/-- The number at the start of a text; without one it is the shared zero. -/
def toFloat : Builtin TextObject := fun _ object _ _ =>
  match Decimal.takeDecimal? (object.text.chars.dropWhile Text.isBlank) with
  | some (parts, _) => Run.newFloat parts.toFloat
  | none => return .float 0.0 .shared

def ord : Builtin TextObject := fun _ object _ _ =>
  match object.text.toList with
  | code :: _ => Run.newInt code.val
  | [] => Run.raise "ArgumentError" "empty string"

def fill (pad : TextObject) (length : Nat) : Draft :=
  let text := Text.join (List.replicate (length / pad.text.length + 1) pad.text)
  if length = 1 ∧ pad.text.length = 1 then pad else .piece (text.part 0 length)

/-- Pads a text to a width; `leftShare` tells how much of what is missing goes to the left. -/
def justify (leftShare : Nat → Nat) : Builtin TextObject := fun context object args _ => do
  Run.checkArity args 1 2
  let width ← Run.intArg (← Run.arg args 0)
  let pad ← match args[1]? with
    | some pad => context.toTextObject pad
    | none => pure (.shared " ")
  if pad.text.isEmpty then Run.raise "ArgumentError" "zero width padding"
  let missing := (width - object.text.length).toNat
  context.checkSize (pad.text.length * missing)
  let left := leftShare missing
  Run.newString (.append (.append (fill pad left) object) (fill pad (missing - left)))

def table : BuiltinTable TextObject := [
  ("length", fun _ object _ _ => Run.newInt object.text.length),
  ("size", fun _ object _ _ => Run.newInt object.text.length),
  ("[]", index),
  ("upcase", mapping Text.upcase),
  ("downcase", mapping Text.downcase),
  ("capitalize", mapping Text.capitalize),
  ("swapcase", mapping Text.swapcase),
  ("reverse", mapping fun text => .ofList text.toList.reverse),
  ("strip", fun _ object _ _ =>
    Run.newString (.cut object object.text.trimmedStart object.text.trimmedStop)),
  ("lstrip", fun _ object _ _ =>
    Run.newString (.cut object object.text.trimmedStart object.text.length)),
  ("rstrip", fun _ object _ _ => Run.newString (.cut object 0 object.text.trimmedStop)),
  ("chomp", chomp),
  ("chars", fun _ object _ _ => strings (chars object)),
  ("lines", fun _ object _ _ => parts object (Text.lines object.text)),
  ("each_char", fun context object _ block => do
    yieldChars context block object.text.toList
    return .str object),
  ("split", split),
  ("include?", fun context object args _ => do
    let needle ← context.toText (← Run.arg args 0)
    return .bool (Text.find? needle object.text).isSome),
  ("start_with?", fun context object args _ =>
    return .bool (← anyText context object.text.startsWith args)),
  ("end_with?", fun context object args _ =>
    return .bool (← anyText context object.text.endsWith args)),
  ("empty?", fun _ object _ _ => return .bool object.text.isEmpty),
  ("index", find),
  ("sub", substitute Text.replaceFirst?),
  ("gsub", substitute Text.replaceAll?),
  ("delete", delete),
  ("to_i", toInteger),
  ("to_f", toFloat),
  ("to_s", fun _ object _ _ => return .str object),
  ("to_sym", fun _ object _ _ => Run.newSymbol object),
  ("ord", ord),
  ("ljust", justify fun _ => 0),
  ("rjust", justify fun missing => missing),
  ("center", justify fun missing => missing / 2)]

end TextMethod

end Hoist
