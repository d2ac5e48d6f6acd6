import Hoist.Text.Basic

/-!
Occurrences of one text in another, found from left to right and without overlap.
-/

namespace Hoist.Text

def findIn? (needle : List CodePoint) : List CodePoint → Option Nat
  | [] => if needle.isEmpty then some 0 else none
  | text@(_ :: rest) =>
    if needle.isPrefixOf text then some 0 else (findIn? needle rest).map (· + 1)

def find? (needle text : Text) : Option Nat := findIn? needle.toList text.toList

/-- The pieces between the occurrences of a separator.  `skip` code points still belong to the last
occurrence, and `start` is where the current piece starts. -/
def splitFrom (separator : List CodePoint) (skip start place : Nat) :
    List CodePoint → List (Nat × Nat)
  | [] => [(start, place)]
  | text@(_ :: rest) =>
    match skip with
    | skip + 1 => splitFrom separator skip start (place + 1) rest
    | 0 =>
      if separator.isPrefixOf text then
        (start, place) ::
          splitFrom separator (separator.length - 1) (place + separator.length) (place + 1) rest
      else splitFrom separator 0 start (place + 1) rest

/-- The pieces between the occurrences of a separator that is not empty, as pairs of the places
where they start and stop. -/
def split (separator text : Text) : List (Nat × Nat) := splitFrom separator.toList 0 0 0 text.toList

/-- Replaces the first occurrence of a text; the empty text occurs at the start. -/
def replaceFirst? (pattern replacement text : Text) : Option Text :=
  (find? pattern text).map fun place =>
    text.part 0 place ++ replacement ++ text.part (place + pattern.length) text.length

/-- Replaces all occurrences of a text; the empty text occurs around every code point. -/
def replaceAll? (pattern replacement text : Text) : Option Text :=
  if pattern.isEmpty then
    some (text.toList.foldl (fun result code => result ++ single code ++ replacement) replacement)
  else
    match split pattern text with
    | [_] => none
    | places =>
      some (intercalate replacement (places.map fun (start, stop) => text.part start stop))

end Hoist.Text
