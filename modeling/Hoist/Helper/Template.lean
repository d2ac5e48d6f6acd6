import Hoist.Text.Quoted

/-!
Text with places to fill in.  A place is a name in braces, perhaps followed by `!` and a conversion
and by `:` and a layout; a doubled brace stands for itself.
-/

namespace Hoist.Template

/-- Why a template cannot be filled in. -/
inductive Fault where
  /-- Braces or a layout that mean nothing. -/
  | malformed
  /-- A place with a number or without a name. -/
  | positional
  | unknownPlace (name : String)
  /-- A part of a value that values do not have. -/
  | noSuchPart
  /-- An index that is no number. -/
  | badIndex
deriving DecidableEq, Repr

/-- Where text goes in a wider field. -/
inductive Alignment where
  | left
  | right
  | center
deriving DecidableEq, Repr

def Alignment.of? : Char → Option Alignment
  | '<' => some .left
  | '>' => some .right
  | '^' => some .center
  | _ => none

/-- How a value is laid out: filling, alignment, least width and greatest length. -/
structure Layout where
  fill : Char := ' '
  alignment : Alignment := .left
  width : Nat := 0
  precision : Option Nat := none

def isAsciiDigit (c : Char) : Bool := '0' ≤ c && c ≤ '9'

def number (digits : List Char) : Nat := digits.foldl (fun value c => value * 10 + (c.toNat - 48)) 0

def readPrecision (layout : Layout) : List Char → Except Fault Layout
  | [] | ['s'] => .ok layout
  | '.' :: rest =>
    let digits := rest.takeWhile isAsciiDigit
    let after := rest.dropWhile isAsciiDigit
    if digits.isEmpty || !(after.isEmpty || after == ['s']) then .error .malformed
    else .ok { layout with precision := some (number digits) }
  | _ => .error .malformed

def readWidth (layout : Layout) (text : List Char) : Except Fault Layout :=
  let layout := match text with
    | '0' :: _ => if layout.fill == ' ' then { layout with fill := '0' } else layout
    | _ => layout
  let digits := text.takeWhile isAsciiDigit
  readPrecision { layout with width := number digits } (text.dropWhile isAsciiDigit)

def readLayout : List Char → Except Fault Layout
  | fill :: mark :: rest =>
    match Alignment.of? mark, Alignment.of? fill with
    | some alignment, _ => readWidth { fill, alignment } rest
    | none, some alignment => readWidth { alignment } (mark :: rest)
    | none, none => readWidth {} (fill :: mark :: rest)
  | [mark] =>
    match Alignment.of? mark with
    | some alignment => readWidth { alignment } []
    | none => readWidth {} [mark]
  | [] => .ok {}

def Layout.apply (layout : Layout) (value : List Char) : List Char :=
  let value := match layout.precision with
    | some size => value.take size
    | none => value
  let missing := layout.width - value.length
  match layout.alignment with
  | .left => value ++ List.replicate missing layout.fill
  | .right => List.replicate missing layout.fill ++ value
  | .center =>
    List.replicate (missing / 2) layout.fill ++ value ++
      List.replicate (missing - missing / 2) layout.fill

def convert (conversion : Char) (value : List Char) : Except Fault (List Char) :=
  match conversion with
  | 's' => .ok value
  | 'r' => .ok (Text.quoted (String.ofList value)).chars
  | 'a' => .ok (Text.quotedWith true (String.ofList value)).chars
  | _ => .error .malformed

/-- The part of a value that accessors such as `[0]` select; `fuel` bounds their number. -/
def access : (fuel : Nat) → (value : List Char) → List Char → Except Fault (List Char)
  | _, value, [] => .ok value
  | 0, _, _ => .error .malformed
  | fuel + 1, value, '[' :: rest =>
    let digits := rest.takeWhile (· != ']')
    if rest.length == digits.length || digits.isEmpty then .error .malformed
    else if !digits.all isAsciiDigit then .error .badIndex
    else match value[number digits]? with
      | none => .error .positional
      | some c => access fuel [c] (rest.drop (digits.length + 1))
  | _, _, '.' :: c :: _ => .error (if c == '.' || c == '[' then .malformed else .noSuchPart)
  | _, _, _ => .error .malformed

def placeValue (values : List (String × String)) (place : List Char) :
    Except Fault (List Char) :=
  let name := place.takeWhile fun c => c != '.' && c != '['
  if name.all isAsciiDigit then .error .positional
  else match values.lookup (String.ofList name) with
    | none => .error (.unknownPlace (String.ofList name))
    | some value => access place.length value.toList (place.drop name.length)

def placeLength? : (inIndex : Bool) → List Char → Option Nat
  | _, [] => none
  | true, c :: rest => (placeLength? (c != ']') rest).map (· + 1)
  | false, c :: rest =>
    if c == '\x7d' || c == ':' || c == '!' then some 0
    else if c == '\x7b' then none
    else (placeLength? (c == '[') rest).map (· + 1)

def layoutLength? : (openBraces : Nat) → List Char → Option Nat
  | _, [] => none
  | openBraces, c :: rest =>
    if c == '\x7d' then
      if openBraces == 0 then some 0 else (layoutLength? (openBraces - 1) rest).map (· + 1)
    else if c == '\x7b' then (layoutLength? (openBraces + 1) rest).map (· + 1)
    else (layoutLength? openBraces rest).map (· + 1)

/-- A place without its braces: name, conversion and layout. -/
structure Place where
  name : List Char
  conversion : Option Char
  layout : List Char

def readPlace (text : List Char) : Except Fault (Place × List Char) :=
  match placeLength? false text with
  | none => .error .malformed
  | some size =>
    let name := text.take size
    let withLayout (conversion : Option Char) (rest : List Char) :
        Except Fault (Place × List Char) :=
      match layoutLength? 0 rest with
      | none => .error .malformed
      | some length => .ok (⟨name, conversion, rest.take length⟩, rest.drop (length + 1))
    match text.drop size with
    | '!' :: conversion :: '\x7d' :: rest => .ok (⟨name, some conversion, []⟩, rest)
    | '!' :: conversion :: ':' :: rest => withLayout (some conversion) rest
    | ':' :: rest => withLayout none rest
    | '\x7d' :: rest => .ok (⟨name, none, []⟩, rest)
    | _ => .error .malformed

/-- Fills in the places of a text; a layout may hold places itself. -/
def fillFrom (values : List (String × String)) : (fuel : Nat) → List Char →
    Except Fault (List Char)
  | 0, _ => .ok []
  | fuel + 1, text =>
    match text with
    | [] => .ok []
    | '\x7b' :: '\x7b' :: rest => (fillFrom values fuel rest).map ('\x7b' :: ·)
    | '\x7d' :: '\x7d' :: rest => (fillFrom values fuel rest).map ('\x7d' :: ·)
    | '\x7d' :: _ => .error .malformed
    | '\x7b' :: rest => do
      let (place, rest) ← readPlace rest
      let value ← placeValue values place.name
      let value ← match place.conversion with
        | none => pure value
        | some conversion => convert conversion value
      let layout ← readLayout (← fillFrom values fuel place.layout)
      return layout.apply value ++ (← fillFrom values fuel rest)
    | c :: rest => (fillFrom values fuel rest).map (c :: ·)

def fill (values : List (String × String)) (template : String) : Except Fault String :=
  (fillFrom values (template.length + 1) template.toList).map String.ofList

end Hoist.Template
