import Hoist.Text.Basic
import Hoist.Text.Ranges

/-!
Blank characters, and texts cut at them.  The pieces are given as pairs of the places where they
start and stop.
-/

namespace Hoist.Text

def blankRuns : Array (Nat × Nat) := #[
  (0x09, 0x0d), (0x1c, 0x20), (0x85, 0x85), (0xa0, 0xa0), (0x1680, 0x1680), (0x2000, 0x200a),
  (0x2028, 0x2029), (0x202f, 0x202f), (0x205f, 0x205f), (0x3000, 0x3000)]

def isBlank (c : Char) : Bool := inRuns blankRuns c.toNat

/-- The words from a place on; `start` is where the word before it has started. -/
def wordsFrom (start : Option Nat) (place : Nat) : List Char → List (Nat × Nat)
  | [] => (start.map (·, place)).toList
  | c :: rest =>
    if isBlank c then (start.map (·, place)).toList ++ wordsFrom none (place + 1) rest
    else wordsFrom (some (start.getD place)) (place + 1) rest

def words (text : Text) : List (Nat × Nat) := wordsFrom none 0 text.chars

def isTrimmed (c : Char) : Bool :=
  c == ' ' || c == '\t' || c == '\n' || c == '\x0b' || c == '\x0c' || c == '\r' || c == '\x00'

def trimmedStart (text : Text) : Nat := (text.chars.takeWhile isTrimmed).length

def trimmedStop (text : Text) : Nat := text.length - (text.chars.reverse.takeWhile isTrimmed).length

def isLineBreak (c : Char) : Bool :=
  inRuns #[(0x0a, 0x0d), (0x1c, 0x1e), (0x85, 0x85), (0x2028, 0x2029)] c.toNat

/-- The lines from a place on; `start` is where the current line has started. -/
def linesFrom (start place : Nat) : List Char → List (Nat × Nat)
  | [] => if start < place then [(start, place)] else []
  | '\r' :: '\n' :: rest => (start, place + 2) :: linesFrom (place + 2) (place + 2) rest
  | c :: rest =>
    if isLineBreak c then (start, place + 1) :: linesFrom (place + 1) (place + 1) rest
    else linesFrom start (place + 1) rest

def lines (text : Text) : List (Nat × Nat) := linesFrom 0 0 text.chars

end Hoist.Text
