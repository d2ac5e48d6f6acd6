import Hoist.Text.Basic

/-!
Places in program text.
-/

namespace Hoist

/-- A line and a column, both counted from one; columns count characters. -/
structure Loc where
  line : Nat
  column : Nat
deriving DecidableEq, Repr, Inhabited

def Loc.start : Loc := ⟨1, 1⟩

def Loc.advance (loc : Loc) (code : CodePoint) : Loc :=
  if code == '\n' then ⟨loc.line + 1, 1⟩ else ⟨loc.line, loc.column + 1⟩

def Loc.advanceBy (loc : Loc) (text : List CodePoint) : Loc := text.foldl Loc.advance loc

/-- A place as `line:column`. -/
def Loc.text (loc : Loc) : String := toString loc.line ++ ":" ++ toString loc.column

end Hoist
