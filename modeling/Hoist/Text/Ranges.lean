/-!
Membership in classes of code points that are listed as runs or stretches.
-/

namespace Hoist.Text

/-- Whether a code point lies in one of the runs `(first, last)`. -/
def inRuns (runs : Array (Nat × Nat)) (code : Nat) : Bool :=
  runs.any fun (first, last) => first ≤ code && code ≤ last

/-- Whether a code point lies in a class that is given by its stretches: in turn so many code points
outside it and so many inside. -/
def inStretches : List Nat → Nat → Bool
  | outside :: inside :: rest, code =>
    if code < outside + inside then outside ≤ code
    else inStretches rest (code - (outside + inside))
  | _, _ => false

end Hoist.Text
