/-!
Searches with a test that may fail.  A search asks how many of the first places pass a test, and
trusts that those that pass come before those that do not.
-/

namespace Hoist.Sorting

variable {α ε : Type}

/-- Narrows an interval down to the first place that does not pass.  `cut` tells how far into an
interval of a length the next place to test lies. -/
def narrow (cut : Nat → Nat) (test : Nat → Except ε Bool) :
    (fuel : Nat) → (low high : Nat) → Except ε Nat
  | 0, low, _ => .ok low
  | fuel + 1, low, high =>
    if low < high then do
      let middle := low + cut (high - low)
      if ← test middle then narrow cut test fuel (middle + 1) high
      else narrow cut test fuel low middle
    else .ok low

/-- Tests places that lie ever further apart.  Gives the last place that passed and the first one
tested that did not, or the end. -/
def stride (count : Nat) (test : Nat → Except ε Bool) :
    (fuel : Nat) → (last next : Nat) → Except ε (Nat × Nat)
  | 0, last, next => .ok (last, next)
  | fuel + 1, last, next =>
    if next < count then do
      if ← test next then stride count test fuel next (2 * next + 1)
      else return (last, next)
    else .ok (last, count)

def testAt (test : α → Except ε Bool) (items : List α) (place : Nat) : Except ε Bool :=
  match items[place]? with
  | some item => test item
  | none => .ok false

/-- How many of the first items pass, when few are expected to. -/
def leading (cut : Nat → Nat) (test : α → Except ε Bool) (items : List α) : Except ε Nat := do
  if ← testAt test items 0 then
    let (last, next) ← stride items.length (testAt test items) items.length 0 1
    narrow cut (testAt test items) next (last + 1) next
  else return 0

def negated (answer : Except ε Bool) : Except ε Bool := (!·) <$> answer

/-- Cuts an interval in halves, the first of which is the larger one. -/
def upperHalf (length : Nat) : Nat := length / 2

/-- Cuts an interval in halves, the second of which is the larger one. -/
def lowerHalf (length : Nat) : Nat := (length - 1) / 2

end Hoist.Sorting
