import Hoist.Text.Quoted

/-!
JSON values and their text.  The text is ASCII: every other character is written as its UTF-16
units.
-/

namespace Hoist.Text

inductive Json where
  | null
  | int (value : Int)
  | str (value : String)
  | array (items : List Json)
  | object (fields : List (String × Json))

namespace Json

def unitEscape (unit : Nat) : String := "\\u" ++ hexPadded 4 unit

def escape (code : CodePoint) : String :=
  match code.toChar with
  | '"' => "\\\""
  | '\\' => "\\\\"
  | '\n' => "\\n"
  | '\r' => "\\r"
  | '\t' => "\\t"
  | '\x0c' => "\\f"
  | '\x08' => "\\b"
  | c =>
    if ' ' ≤ c ∧ c ≤ '~' then c.toString
    else if code.val < 0x10000 then unitEscape code.val
    else
      let rest := code.val - 0x10000
      unitEscape (0xd800 + rest / 0x400) ++ unitEscape (0xdc00 + rest % 0x400)

def quote (text : Text) : String := "\"" ++ String.join (text.toList.map escape) ++ "\""

mutual

def render : Json → String
  | .null => "null"
  | .int value => toString value
  | .str value => quote value
  | .array items => "[" ++ String.intercalate ", " (renderItems items) ++ "]"
  | .object fields => "\x7b" ++ String.intercalate ", " (renderFields fields) ++ "\x7d"

def renderItems : List Json → List String
  | [] => []
  | item :: rest => item.render :: renderItems rest

def renderFields : List (String × Json) → List String
  | [] => []
  | (key, value) :: rest => (quote key ++ ": " ++ value.render) :: renderFields rest

end

def ofText? (text : Option String) : Json := (text.map Json.str).getD .null

end Json

end Hoist.Text
