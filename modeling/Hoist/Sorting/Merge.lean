import Hoist.Sorting.Search

/-!
Merging of two runs.  Items are taken one at a time until one run has given many in a row; then the
items that one run can give at once are searched for, until that no longer pays.  `threshold` is how
many make many, and follows how well the searches did.
-/

namespace Hoist.Sorting

variable {α ε : Type}

/-- What is left of two runs that are being merged.  Of equal items those of `first` come first. -/
structure Merging (α : Type) where
  first : List α
  second : List α
  merged : Array α := #[]

namespace Merging

def run (state : Merging α) (isSecond : Bool) : List α :=
  if isSecond then state.second else state.first

/-- Whether the rest needs no comparison.  A last item of the first run comes after all others. -/
def isDone (state : Merging α) : Bool := state.second.isEmpty || state.first.tail.isEmpty

/-- Takes the next items of one run. -/
def take (state : Merging α) (isSecond : Bool) (count : Nat) : Merging α :=
  let merged := state.merged ++ (state.run isSecond).take count
  if isSecond then { state with second := state.second.drop count, merged }
  else { state with first := state.first.drop count, merged }

def result (state : Merging α) : List α := state.merged.toList ++ (state.second ++ state.first)

/-- Takes items one at a time until one run has given `threshold` in a row.  The last `count` came
from the run that `fromSecond` tells. -/
def oneByOne (less : α → α → Except ε Bool) (threshold : Nat) :
    (fuel : Nat) → (fromSecond : Bool) → (count : Nat) → Merging α → Except ε (Merging α)
  | 0, _, _, state => .ok state
  | fuel + 1, fromSecond, count, state =>
    match state.first, state.second with
    | first :: _ :: _, second :: _ => do
      let isSecond ← less second first
      let count := bif isSecond == fromSecond then count + 1 else 1
      if threshold ≤ count then return state.take isSecond 1
      else oneByOne less threshold fuel isSecond count (state.take isSecond 1)
    | _, _ => .ok state

/-- Whether an item comes before one of the other run. -/
def precedes (less : α → α → Except ε Bool) (isSecond : Bool) (item other : α) : Except ε Bool :=
  if isSecond then less item other else negated (less other item)

/-- Takes all items of one run that come before the next of the other, and then that one.  Also
gives how many came from the first of these runs. -/
def many (less : α → α → Except ε Bool) (cut : Nat → Nat) (isSecond : Bool) (state : Merging α) :
    Except ε (Merging α × Nat) :=
  match state.isDone, (state.run !isSecond).head? with
  | false, some other => do
    let count ← leading cut (precedes less isSecond · other) (state.run isSecond)
    let state := state.take isSecond count
    return (if state.isDone then state else state.take (!isSecond) 1, count)
  | _, _ => .ok (state, 0)

def worthwhile : Nat := 7

/-- Takes many items at once from each run in turn while that pays, and adapts the threshold. -/
def manyAtOnce (turn : Bool → Merging α → Except ε (Merging α × Nat)) (isSecond : Bool) :
    (fuel : Nat) → (threshold : Nat) → Merging α → Except ε (Merging α × Nat)
  | 0, threshold, state => .ok (state, threshold)
  | fuel + 1, threshold, state => do
    let (state, count) ← turn isSecond state
    let (state, otherCount) ← turn (!isSecond) state
    if state.isDone then return (state, threshold)
    else if worthwhile ≤ count ∨ worthwhile ≤ otherCount then
      manyAtOnce turn isSecond fuel (max 1 (threshold - 1)) state
    else return (state, threshold + 1)

def loop (less : α → α → Except ε Bool) (cut : Nat → Nat) (isSecond : Bool) :
    (fuel : Nat) → (threshold : Nat) → Merging α → Except ε (List α × Nat)
  | 0, threshold, state => .ok (state.result, threshold)
  | fuel + 1, threshold, state => do
    let size := state.first.length + state.second.length
    let state ← oneByOne less threshold size false 0 state
    if state.isDone then return (state.result, threshold)
    let (state, threshold) ← manyAtOnce (many less cut) isSecond size threshold state
    if state.isDone then return (state.result, threshold)
    loop less cut isSecond fuel threshold state

/-- Merges two runs of which the second is known to have the first item. -/
def start (less : α → α → Except ε Bool) (cut : Nat → Nat) (isSecond : Bool) (threshold : Nat)
    (first second : List α) : Except ε (List α × Nat) :=
  loop less cut isSecond (first.length + second.length) threshold
    ((Merging.mk first second #[]).take true 1)

end Merging

def mergeForward (less : α → α → Except ε Bool) (threshold : Nat) (left right : List α) :
    Except ε (List α × Nat) :=
  Merging.start less upperHalf false threshold left right

/-- Merges from the back: the runs are turned round, and so is the order. -/
def mergeBackward (less : α → α → Except ε Bool) (threshold : Nat) (left right : List α) :
    Except ε (List α × Nat) := do
  let (merged, threshold) ←
    Merging.start (flip less) lowerHalf true threshold right.reverse left.reverse
  return (merged.reverse, threshold)

/-- Merges two neighbouring runs.  Items of the left run that come first and items of the right run
that come last stay where they are; the longer of what remains is walked through once. -/
def mergeRuns (less : α → α → Except ε Bool) (threshold : Nat) (left right : List α) :
    Except ε (List α × Nat) :=
  match right.head?, left.getLast? with
  | some lowest, some highest => do
    let kept ← leading upperHalf (fun item => negated (less lowest item)) left
    if kept = left.length then return (left ++ right, threshold)
    let last ← leading lowerHalf (fun item => negated (less item highest)) right.reverse
    let moved := right.length - last
    let inner := left.drop kept
    let outer := right.take moved
    let (merged, threshold) ←
      if inner.length ≤ outer.length then mergeForward less threshold inner outer
      else mergeBackward less threshold inner outer
    return (left.take kept ++ merged ++ right.drop moved, threshold)
  | _, _ => .ok (left ++ right, threshold)

end Hoist.Sorting
