import Hoist.Decimal.Fixed
import Hoist.Eval.Inspect
import Hoist.Text.Quoted

/-!
Formatting with `%`.  A directive is a percent sign, flags, a width, a precision and a letter that
tells how the next value is written.
-/

namespace Hoist.Format

def refuse {α : Type} (message : Text) : Except Signal α := .error (.raised "ArgumentError" message)

def kindName : Value → String
  | .nil => "NoneType"
  | .bool _ => "bool"
  | .int .. => "int"
  | .float .. => "float"
  | .str _ => "str"
  | .symbol .. => "Symbol"
  | .array _ => "list"
  | .range .. => "RangeValue"
  | .proc .. => "Proc"
  | .classRef .. => "RubyClass"
  | .error .. => "RubyError"
  | .complex .. => "complex"

def decimalText (value : Int) : Except Signal String :=
  match Decimal.intText? value with
  | some text => .ok text
  | none => refuse ("Exceeds the limit (4300 digits) for integer string conversion; " ++
      "use sys.set_int_max_str_digits() to increase the limit")

def boolText (value : Bool) : String := if value then "True" else "False"

/-- Texts in parentheses; a single one is followed by a comma. -/
def tupleText : List Text → Text
  | [single] => "(" ++ single ++ ",)"
  | parts => "(" ++ Text.intercalate ", " parts ++ ")"

/-- A value with all its parts spelled out.  Arrays and ranges in `active` are being written already
and are cut short. -/
def detailed (heap : Heap) : (nesting : Nat) → (active : List Value) → Value →
    Except Signal Text
  | 0, _, _ => .error .tooDeep
  | nesting + 1, active, value =>
    match value with
    | .nil => .ok "None"
    | .bool value => .ok (boolText value)
    | .int value _ => return ← decimalText value
    | .float value _ => .ok (Decimal.floatText Decimal.plainStyle value)
    | .str object => .ok (Text.quoted object.text)
    | .symbol name _ => .ok ("Symbol(name=" ++ Text.quoted name.text ++ ")")
    | .array address =>
      if active.any value.sameObject then .ok "[...]"
      else do
        let items ← (heap.items address).toList.mapM (detailed heap nesting (value :: active))
        return "[" ++ Text.intercalate ", " items ++ "]"
    | .range start stop exclusive _ =>
      if active.any value.sameObject then .ok "..."
      else do
        let start ← detailed heap nesting (value :: active) start
        let stop ← detailed heap nesting (value :: active) stop
        return "RangeValue(start=" ++ start ++ ", end=" ++ stop ++ ", exclusive=" ++
          boolText exclusive ++ ")"
    | .proc .. => .ok "Proc"
    | .classRef name _ =>
      .ok ("RubyClass(name=" ++ Text.quoted name ++ ", ancestors=" ++
        tupleText ((ancestors name).map fun (ancestor : String) => Text.quoted ancestor) ++ ")")
    | .error className message _ =>
      .ok ("RubyError(class_name=" ++ Text.quoted className ++ ", message=" ++
        Text.quoted message.text ++ ")")
    | .complex re im _ => .ok (complexText re im)

/-- A value as `%s` writes it. -/
def plain (heap : Heap) (nesting : Nat) (value : Value) : Except Signal Text :=
  match value with
  | .str object => .ok object.text
  | .error className message _ => .ok (message.text ++ " (" ++ className ++ ")")
  | _ => detailed heap nesting [] value

/-- Text with every character beyond ASCII escaped. -/
def asciiOnly (text : Text) : Text :=
  .join (text.toList.map fun code =>
    if code.val < 128 then .single code else Text.codePointEscape code)

/-- What a directive says besides its letter. -/
structure Directive where
  left : Bool := false
  plus : Bool := false
  blank : Bool := false
  alternate : Bool := false
  zero : Bool := false
  width : Option Nat := none
  precision : Option Nat := none

namespace Directive

def flag? (directive : Directive) : Char → Option Directive
  | '-' => some { directive with left := true }
  | '+' => some { directive with plus := true }
  | ' ' => some { directive with blank := true }
  | '#' => some { directive with alternate := true }
  | '0' => some { directive with zero := true }
  | _ => none

def readFlags (directive : Directive) : List CodePoint → Directive × List CodePoint
  | [] => (directive, [])
  | code :: rest =>
    match directive.flag? code.toChar with
    | some directive => directive.readFlags rest
    | none => (directive, code :: rest)

end Directive

def nextValue : List Value → Except Signal (Value × List Value)
  | [] => refuse "not enough arguments for format string"
  | value :: rest => .ok (value, rest)

/-- Takes the next value for a star; it has to be an integer below a bound. -/
def starValue (bound : Nat) (values : List Value) : Except Signal (Int × List Value) := do
  let (value, values) ← nextValue values
  let number ← match value with
    | .int value _ => pure value
    | .bool value => pure (if value then 1 else 0)
    | _ => refuse "* wants int"
  if number < -Int.ofNat bound ∨ Int.ofNat bound ≤ number then .error (.fault .numberTooLarge)
  else return (number, values)

def isDecimalDigit (code : CodePoint) : Bool := 48 ≤ code.val && code.val ≤ 57

def readNumber (bound : Nat) (message : String) (value : Nat) : List CodePoint →
    Except Signal (Nat × List CodePoint)
  | [] => .ok (value, [])
  | code :: rest =>
    if isDecimalDigit code then
      let value := value * 10 + (code.val - 48)
      if bound ≤ value then refuse message else readNumber bound message value rest
    else .ok (value, code :: rest)

/-- Reads the width of a directive; a negative one means to the left. -/
def readWidth (directive : Directive) (values : List Value) :
    List CodePoint → Except Signal (Directive × List Value × List CodePoint)
  | [] => .ok (directive, values, [])
  | code :: rest =>
    if code == '*' then do
      let (width, values) ← starValue (Decimal.twoTo 63) values
      return ({ directive with left := directive.left || width < 0, width := some width.natAbs },
        values, rest)
    else if isDecimalDigit code then do
      let (width, rest) ← readNumber (Decimal.twoTo 63) "width too big" 0 (code :: rest)
      return ({ directive with width := some width }, values, rest)
    else .ok (directive, values, code :: rest)

def readPlaces (directive : Directive) (values : List Value) :
    List CodePoint → Except Signal (Directive × List Value × List CodePoint)
  | [] => .ok ({ directive with precision := some 0 }, values, [])
  | code :: rest =>
    if code == '*' then do
      let (precision, values) ← starValue (Decimal.twoTo 31) values
      return ({ directive with precision := some precision.toNat }, values, rest)
    else do
      let (precision, rest) ← readNumber (Decimal.twoTo 31) "precision too big" 0 (code :: rest)
      return ({ directive with precision := some precision }, values, rest)

def readPrecision (directive : Directive) (values : List Value) :
    List CodePoint → Except Signal (Directive × List Value × List CodePoint)
  | [] => .ok (directive, values, [])
  | code :: rest =>
    if code == '.' then readPlaces directive values rest
    else .ok (directive, values, code :: rest)

def skipSize : List CodePoint → List CodePoint
  | [] => []
  | code :: rest =>
    if code == 'h' || code == 'l' || code == 'L' then rest else code :: rest

/-- A written value: its sign, a mark of its base, and the rest. -/
structure Written where
  sign : String := ""
  mark : String := ""
  text : Text

def Directive.lay (directive : Directive) (signed : Bool) (written : Written) : Text :=
  let sign : Text :=
    if !signed || !written.sign.isEmpty then written.sign
    else if directive.plus then "+"
    else if directive.blank then " "
    else ""
  let missing := directive.width.getD 0 - (sign ++ written.mark ++ written.text).length
  let fill (c : Char) : Text := .replicate missing c
  if directive.left then sign ++ written.mark ++ written.text ++ fill ' '
  else if signed && directive.zero then sign ++ written.mark ++ fill '0' ++ written.text
  else fill ' ' ++ sign ++ written.mark ++ written.text

def signOf (negative : Bool) : String := if negative then "-" else ""

def Directive.padDigits (directive : Directive) (digits : String) : String :=
  String.ofList (List.replicate (directive.precision.getD 0 - digits.length) '0') ++ digits

/-- Writes an integer for the letters `d`, `i`, `u`, `o`, `x` and `X`. -/
def writeInteger (directive : Directive) (letter : Char) (value : Int) :
    Except Signal Written := do
  let digits ← match letter with
    | 'o' => pure (String.ofList (Nat.toDigits 8 value.natAbs))
    | 'x' => pure (String.ofList (Nat.toDigits 16 value.natAbs))
    | 'X' => pure (String.ofList (Nat.toDigits 16 value.natAbs)).toUpper
    | _ => decimalText value.natAbs
  let mark := if !directive.alternate then "" else match letter with
    | 'o' => "0o"
    | 'x' => "0x"
    | 'X' => "0X"
    | _ => ""
  return { sign := signOf (value < 0), mark, text := directive.padDigits digits }

def integerFor (letter : Char) (value : Value) : Except Signal Int :=
  let wanted (what : String) : Except Signal Int :=
    refuse ("%" ++ letter.toString ++ " format: " ++ what ++ " is required, not " ++
      kindName value)
  match value with
  | .int value _ => .ok value
  | .bool value => .ok (if value then 1 else 0)
  | .float x _ =>
    if letter == 'o' || letter == 'x' || letter == 'X' then wanted "an integer"
    else match Decimal.truncate? x with
      | some value => .ok value
      | none =>
        if x.isNaN then refuse "cannot convert float NaN to integer"
        else .error (.fault .numberTooLarge)
  | _ =>
    if letter == 'o' || letter == 'x' || letter == 'X' then wanted "an integer"
    else wanted "a real number"

def floatFor (value : Value) : Except Signal Float :=
  let ofInt (value : Int) : Except Signal Float := match Decimal.ofInt? value with
    | some x => .ok x
    | none => .error (.fault .numberTooLarge)
  match value with
  | .float x _ => .ok x
  | .int value _ => ofInt value
  | .bool value => ofInt (if value then 1 else 0)
  | _ => refuse ("must be real number, not " ++ kindName value)

/-- Drops zeros at the end of a fraction, and the point if nothing is left after it. -/
def dropZeros (text : String) : String :=
  if text.contains '.' then
    let kept := text.toList.reverse.dropWhile (· == '0')
    String.ofList (if kept.head? == some '.' then kept.drop 1 else kept).reverse
  else text

/-- A mantissa with its point, which the alternate form always writes. -/
def withPoint (directive : Directive) (text : String) : String :=
  if directive.alternate && !text.contains '.' then text ++ "." else text

/-- Writes the magnitude of a finite number for the letters `e`, `f` and `g`. -/
def magnitudeText (directive : Directive) (letter : Char) (ratio : Decimal.Ratio) : String :=
  let precision := directive.precision.getD 6
  match letter with
  | 'f' => withPoint directive (Decimal.fixedText ratio precision)
  | 'e' =>
    let (mantissa, exponent) := Decimal.scientificText ratio precision
    withPoint directive mantissa ++ Decimal.exponentMark exponent
  | _ =>
    let precision := max precision 1
    let trim (text : String) : String :=
      if directive.alternate then withPoint directive text else dropZeros text
    let (mantissa, exponent) := Decimal.scientificText ratio (precision - 1)
    if exponent < -4 ∨ Int.ofNat precision ≤ exponent then
      trim mantissa ++ Decimal.exponentMark exponent
    else trim (Decimal.fixedText ratio (Int.ofNat precision - 1 - exponent).toNat)

/-- Writes a float for the letters `e`, `f` and `g`, small or capital. -/
def writeFloat (directive : Directive) (letter : Char) (x : Float) : Written :=
  let text (small : String) : String := if letter.isUpper then small.toUpper else small
  match Decimal.view x with
  | .nan => { text := text "nan" }
  | .infinite negative => { sign := signOf negative, text := text "inf" }
  | .finite negative mantissa exponent =>
    { sign := signOf negative
      text := text
        (magnitudeText directive letter.toLower (Decimal.magnitude mantissa exponent)) }

/-- The code point for the letter `c`. -/
def codePointFor (value : Value) : Except Signal CodePoint :=
  let ofInt (code : Int) : Except Signal CodePoint :=
    match code with
    | .ofNat code =>
      match CodePoint.ofNat? code with
      | some code => .ok code
      | none => .error (.fault .numberTooLarge)
    | .negSucc _ => .error (.fault .numberTooLarge)
  match value with
  | .int code _ => ofInt code
  | .bool value => ofInt (if value then 1 else 0)
  | .str object =>
    match object.text.toList with
    | [code] => .ok code
    | _ => refuse "%c requires int or char"
  | _ => refuse "%c requires int or char"

namespace Directive

def cut (directive : Directive) (text : Text) : Text :=
  match directive.precision with
  | none => text
  | some precision => text.part 0 precision

/-- Whether a directive has neither a width nor a precision. -/
def isBare (directive : Directive) : Bool := directive.width.isNone && directive.precision.isNone

def suits (directive : Directive) (text : Text) : Bool :=
  directive.width.getD 0 ≤ text.length && text.length ≤ directive.precision.getD text.length &&
    !directive.plus && !directive.blank

/-- Puts a text into the precision and the width of its directive; one that fits stays the same
object. -/
def place (directive : Directive) (draft : Draft) : Draft :=
  if directive.suits draft.text then draft
  else .piece (directive.lay false { text := directive.cut draft.text })

/-- The written form of a value as an object: true and false have one each, and an integer gets a
new one for a width or a precision. -/
def form (directive : Directive) (value : Value) (text : Text) : Draft :=
  match value with
  | .bool _ => .ofObject (.shared text)
  | .int .. => if directive.isBare then .piece text else .made text
  | _ => .piece text

/-- The digits of a value as an object, which is new unless a bare directive takes an integer. -/
def digits (directive : Directive) (value : Value) (text : Text) : Draft :=
  match value with
  | .int .. => if directive.isBare || !directive.suits text then .piece text else .made text
  | _ => if directive.suits text then .made text else .piece text

end Directive

/-- Writes a value as a letter tells; `index` is where the letter stands. -/
def writeValue (heap : Heap) (nesting : Nat) (directive : Directive) (code : CodePoint)
    (index : Thunk Nat) (value : Value) : Except Signal Draft := do
  let letter := code.toChar
  if letter == 's' then
    match value with
    | .str object => return directive.place object
    | _ => return directive.place (directive.form value (← plain heap nesting value))
  else if letter == 'r' then
    return directive.place (directive.form value (← detailed heap nesting [] value))
  else if letter == 'a' then
    let text := asciiOnly (← detailed heap nesting [] value)
    return directive.place (directive.form value text)
  else if "diu".contains letter then
    let written ← writeInteger directive letter (← integerFor letter value)
    return directive.digits value (directive.lay true written)
  else if "oxX".contains letter then
    return .piece (directive.lay true (← writeInteger directive letter (← integerFor letter value)))
  else if "eEfFgG".contains letter then
    return .piece (directive.lay true (writeFloat directive letter (← floatFor value)))
  else if letter == 'c' then
    return .piece (directive.lay false { text := .single (← codePointFor value) })
  else
    let shown := if 31 ≤ code.val ∧ code.val ≤ 126 then letter else '?'
    refuse ("unsupported format character '" ++ shown.toString ++ "' (0x" ++
      Text.hexPadded 1 code.val ++ ") at index " ++ toString index.get)

/-- The contributions to the result from the rest of a template, which is given with the whole.
`fuel` bounds the length of the rest. -/
def contributions (heap : Heap) (nesting : Nat) (template : TextObject) :
    (fuel : Nat) → List CodePoint → List Value → Except Signal (List Draft)
  | 0, _, _ => .ok []
  | _ + 1, [], values =>
    if values.isEmpty then .ok []
    else refuse "not all arguments converted during string formatting"
  | fuel + 1, code :: rest, values =>
    let length := template.text.length
    if code != '%' then do
      let plain := code :: rest.takeWhile (· != '%')
      let piece : Draft := if plain.length = length then template else .piece (.ofList plain)
      return piece ::
        (← contributions heap nesting template fuel (rest.dropWhile (· != '%')) values)
    else
      match rest.head?.map CodePoint.toChar with
      | some '%' => do
        return .piece "%" :: (← contributions heap nesting template fuel (rest.drop 1) values)
      | some '(' => refuse "format requires a mapping"
      | _ => do
        let (directive, rest) := ({} : Directive).readFlags rest
        let (directive, values, rest) ← readWidth directive values rest
        let (directive, values, rest) ← readPrecision directive values rest
        match skipSize rest with
        | [] => refuse "incomplete format"
        | code :: rest =>
          let (value, values) ← nextValue values
          let index : Thunk Nat := .mk fun _ => length - rest.length - 1
          let written ← writeValue heap nesting directive code index value
          return written :: (← contributions heap nesting template fuel rest values)

/-- Puts contributions together; a single one is the result. -/
def assemble : List Draft → Draft
  | [single] => single
  | drafts => .piece (.join (drafts.map Draft.text))

def format (heap : Heap) (nesting : Nat) (template : TextObject) (values : List Value) :
    Except Signal Draft :=
  let values := values.map fun value => match value with
    | .symbol name _ => .str name
    | _ => value
  assemble <$>
    contributions heap nesting template (template.text.length + 1) template.text.toList values

end Hoist.Format
