import Hoist.Text.Printable

/-!
Text in quotes, as error messages show it.  Single quotes are used unless the text holds a single
quote and no double quote.  A backslash and the quote in use are escaped, and so is every character
that is not printable.
-/

namespace Hoist.Text

def hexPadded (width n : Nat) : String :=
  let digits := Nat.toDigits 16 n
  String.ofList (List.replicate (width - digits.length) '0' ++ digits)

/-- An escape that names a code point, as short as the code point allows. -/
def codePointEscape (code : CodePoint) : String :=
  if code.val ≤ 0xff then "\\x" ++ hexPadded 2 code.val
  else if code.val ≤ 0xffff then "\\u" ++ hexPadded 4 code.val
  else "\\U" ++ hexPadded 8 code.val

/-- One code point of quoted text.  With `ascii` only those of that set stand for themselves. -/
def quotedCode (ascii : Bool) (quote : Char) (code : CodePoint) : Text :=
  if code == quote || code == '\\' then ofList ['\\', code]
  else if code == '\n' then "\\n"
  else if code == '\t' then "\\t"
  else if code == '\r' then "\\r"
  else if isPrintable code && (!ascii || code.val < 128) then single code
  else codePointEscape code

def quoteFor (text : Text) : Char :=
  if text.contains '\'' && !text.contains '"' then '"' else '\''

/-- Text in quotes, with `ascii` written in that set alone. -/
def quotedWith (ascii : Bool) (text : Text) : Text :=
  let quote := quoteFor text
  single quote ++ join (text.toList.map (quotedCode ascii quote)) ++ single quote

def quoted (text : Text) : Text := quotedWith false text

end Hoist.Text
