import Hoist.Eval.Context

/-!
Places in strings and arrays.  A negative index counts from the end.
-/

namespace Hoist.Index

/-- The place that an index denotes among `length` items, if it is one of them. -/
def place? (length : Nat) (index : Int) : Option Nat :=
  if index < -Int.ofNat length ∨ Int.ofNat length ≤ index then none
  else if index < 0 then some (index + length).toNat
  else some index.toNat

/-- The part of `count` items from a start, as the places of its ends. -/
def slice? (length : Nat) (start count : Int) : Option (Nat × Nat) :=
  let start := if start < 0 then start + length else start
  if start < 0 ∨ Int.ofNat length < start ∨ count < 0 then none
  else some (start.toNat, min length (start + count).toNat)

/-- The part between the ends of a range, as places; a range without an end goes to the last item,
whether it is exclusive or not. -/
def rangeSlice? (length : Nat) (start : Int) (stop : Option Int) (exclusive : Bool) :
    Option (Nat × Nat) :=
  let start := if start < 0 then start + length else start
  if start < 0 ∨ Int.ofNat length < start then none
  else
    let last := stop.getD (-1)
    let last := if last < 0 then last + length else last
    let ending := if exclusive ∧ stop.isSome then last else last + 1
    some (start.toNat, max start.toNat (min (Int.ofNat length) ending).toNat)

/-- How many of `length` items lie before a cut; a negative cut counts from the end. -/
def cut (length : Nat) (index : Int) : Nat :=
  if index < 0 then (index + length).toNat else min length index.toNat

/-- What an index expression selects. -/
inductive Selection where
  | nothing
  | item (place : Nat)
  | part (start stop : Nat)
deriving DecidableEq, Repr

def Selection.ofPart? : Option (Nat × Nat) → Selection
  | some (start, stop) => .part start stop
  | none => .nothing

/-- A range's end as an index; nothing for a missing end. -/
def rangeEnd (value : Value) : Run (Option Int) :=
  match value with
  | .nil => return none
  | .int value _ => return some value
  | .bool value => return some (if value then 1 else 0)
  | _ => Run.raise "TypeError" "no implicit conversion into Integer"

/-- What the arguments of an index expression select among `length` items. -/
def select (length : Nat) (args : List Value) : Run Selection :=
  match args with
  | [start, count] => do
    return .ofPart? (slice? length (← Run.intArg start) (← Run.intArg count))
  | [.range start stop exclusive _] => do
    let start ← rangeEnd start
    let stop ← rangeEnd stop
    return .ofPart? (rangeSlice? length (start.getD 0) stop exclusive)
  | [index] => do
    match place? length (← Run.intArg index) with
    | some place => return .item place
    | none => return .nothing
  | _ =>
    Run.raise "ArgumentError" ("wrong number of arguments (given " ++ toString args.length ++
      ", expected 1..2)")

/-- An array with a value stored at an index; items before it that were missing are nil. -/
def store? (items : Array Value) (index : Int) (value : Value) : Option (Array Value) :=
  let place := if index < 0 then index + items.size else index
  if place < 0 then none
  else
    let place := place.toNat
    let filled := items ++ Array.replicate (place + 1 - items.size) .nil
    some (filled.setIfInBounds place value)

end Hoist.Index
