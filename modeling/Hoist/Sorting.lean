import Hoist.Decimal.Power
import Hoist.Sorting.Merge

/-!
Sorting with a comparison that may fail.  The list is cut into runs that are in order; a short run
takes in the items after it one by one, each at the place that a binary search finds.  Runs wait on
a stack until their neighbours are long enough to be merged with them.  The order of equal items is
kept.
-/

namespace Hoist.Sorting

variable {α ε : Type}

def insert (less : α → α → Except ε Bool) (run : List α) (pivot : α) : Except ε (List α) := do
  let test (item : α) : Except ε Bool := negated (less pivot item)
  let place ← narrow upperHalf (testAt test run) run.length 0 run.length
  return run.take place ++ pivot :: run.drop place

/-- Splits a list after its initial run, which is given backwards.  A run ends before the first item
for which `ends` holds of it and the item before it. -/
def takeRun (ends : α → α → Except ε Bool) (last : α) (before : List α) :
    List α → Except ε (List α × List α)
  | [] => .ok (last :: before, [])
  | item :: rest => do
    if ← ends item last then return (last :: before, item :: rest)
    else takeRun ends item (last :: before) rest

/-- The initial run of a list, in ascending order, and the rest.  A strictly descending run is
turned round. -/
def initialRun (less : α → α → Except ε Bool) : List α → Except ε (List α × List α)
  | [] => .ok ([], [])
  | [item] => .ok ([item], [])
  | first :: second :: rest => do
    if ← less second first then
      takeRun (fun item last => negated (less item last)) second [first] rest
    else
      let (run, rest) ← takeRun less second [first] rest
      return (run.reverse, rest)

/-- The initial run of a list, made at least `shortest` long, and the rest. -/
def nextRun (less : α → α → Except ε Bool) (shortest : Nat) (items : List α) :
    Except ε (List α × List α) := do
  let (run, rest) ← initialRun less items
  let missing := shortest - run.length
  return (← (rest.take missing).foldlM (insert less) run, rest.drop missing)

/-- How long runs are made: from 32 to 64 items, and such that a power of two of them about covers
the list. -/
def shortestRun (length : Nat) : Nat :=
  let count := Decimal.twoTo (Nat.log2 length - 5)
  (length + count - 1) / count

/-- A run that waits to be merged. -/
structure Waiting (α : Type) where
  items : List α
  /-- Where the run starts in the list. -/
  start : Nat
  /-- How late this run is to be merged with the one after it. -/
  level : Nat

/-- How late two runs are to be merged: the number of the first binary digit in which their middles,
as fractions of the list, differ.  `left` and `right` are twice the middles. -/
def mergeLevel (length : Nat) : (fuel : Nat) → (left right : Nat) → Nat
  | 0, _, _ => 0
  | fuel + 1, left, right =>
    if left / length != right / length then 1
    else 1 + mergeLevel length fuel (2 * left) (2 * right)

/-- Runs that wait, the last one first, and the threshold for merging them. -/
abbrev Stack (α : Type) := List (Waiting α) × Nat

/-- Merges the last runs as long as they were to be merged later than at a level. -/
def mergeAbove (less : α → α → Except ε Bool) (level : Nat) (threshold : Nat) (last : Waiting α) :
    List (Waiting α) → Except ε (Stack α)
  | [] => .ok ([{ last with level }], threshold)
  | before :: rest =>
    if level < before.level then do
      let (items, threshold) ← mergeRuns less threshold before.items last.items
      mergeAbove less level threshold { before with items } rest
    else .ok ({ last with level } :: before :: rest, threshold)

def pushRun (less : α → α → Except ε Bool) (length : Nat) (stack : Stack α) (run : List α) :
    Except ε (Stack α) := do
  match stack with
  | ([], threshold) => return ([⟨run, 0, 0⟩], threshold)
  | (last :: rest, threshold) =>
    let left := 2 * last.start + last.items.length
    let right := left + last.items.length + run.length
    let level := mergeLevel length length left right
    let start := last.start + last.items.length
    let (waiting, threshold) ← mergeAbove less level threshold last rest
    return (⟨run, start, 0⟩ :: waiting, threshold)

def pushRuns (less : α → α → Except ε Bool) (length : Nat) :
    (fuel : Nat) → List α → Stack α → Except ε (Stack α)
  | 0, _, stack => .ok stack
  | _ + 1, [], stack => .ok stack
  | fuel + 1, items, stack => do
    let (run, rest) ← nextRun less (shortestRun length) items
    pushRuns less length fuel rest (← pushRun less length stack run)

/-- Merges all runs that wait; the middle one of the last three is merged with the shorter of its
neighbours. -/
def mergeAll (less : α → α → Except ε Bool) :
    (fuel : Nat) → Stack α → Except ε (List α)
  | _, ([], _) => .ok []
  | _, ([single], _) => .ok single.items
  | 0, (last :: _, _) => .ok last.items
  | fuel + 1, ([last, before], threshold) => do
    let (items, threshold) ← mergeRuns less threshold before.items last.items
    mergeAll less fuel ([{ before with items }], threshold)
  | fuel + 1, (last :: middle :: first :: rest, threshold) =>
    if first.items.length < last.items.length then do
      let (items, threshold) ← mergeRuns less threshold first.items middle.items
      mergeAll less fuel (last :: { first with items } :: rest, threshold)
    else do
      let (items, threshold) ← mergeRuns less threshold middle.items last.items
      mergeAll less fuel ({ middle with items } :: first :: rest, threshold)

/-- Sorts a list, keeping the order of equal items.  `less` may fail; which comparison is made first
matters then. -/
def sort (less : α → α → Except ε Bool) (items : List α) : Except ε (List α) := do
  let (waiting, threshold) ←
    pushRuns less items.length items.length items ([], Merging.worthwhile)
  mergeAll less waiting.length (waiting, threshold)

end Hoist.Sorting
