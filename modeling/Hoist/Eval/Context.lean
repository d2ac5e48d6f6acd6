import Hoist.Eval.Equality
import Hoist.Eval.Order

/-!
What built-in methods may use of the program that runs them.
-/

namespace Hoist

/-- The calls that built-in methods can make, and the bounds they keep to. -/
structure Context where
  callProc : Address → List Value → Run Value
  callMethod : Method → List Value → Run Value
  /-- How deeply values may be nested when they are compared or written. -/
  nesting : Nat
  /-- How many rounds a loop may take. -/
  rounds : Nat
  /-- The length of the longest text or array that memory holds. -/
  memory : Nat

/-- A built-in method for receivers of a type takes the receiver, the arguments and the block. -/
abbrev Builtin (ρ : Type) := Context → ρ → List Value → Option Address → Run Value

abbrev BuiltinTable (ρ : Type) := List (String × Builtin ρ)

namespace Context

def yield (context : Context) (block : Option Address) (args : List Value) : Run Value :=
  match block with
  | some block => context.callProc block args
  | none => Run.raise "LocalJumpError" "no block given (yield)"

def test (context : Context) (block : Option Address) (args : List Value) : Run Bool :=
  return (← context.yield block args).truthy

def inspect (context : Context) (value : Value) : Run Text :=
  Run.reading fun heap => value.inspect heap context.nesting

def toText (context : Context) (value : Value) : Run Text :=
  Run.reading fun heap => value.toText heap context.nesting

def toTextObject (context : Context) (value : Value) : Run TextObject := do
  Run.newText (← Run.reading fun heap => value.toDraft heap context.nesting)

def equal (context : Context) (left right : Value) : Run Bool :=
  Run.reading fun heap => Value.equal heap context.nesting left right

def compare (context : Context) (left right : Value) : Run Ordering :=
  Run.reading fun heap => Value.compare heap context.nesting left right

/-- Makes sure that something of a length can be made: the length is a word, and memory holds it. -/
def checkSize (context : Context) (size : Nat) : Run Unit := do
  if Decimal.twoTo 63 ≤ size then Run.fault .numberTooLarge
  if context.memory < size then Run.fault .outOfMemory

end Context

namespace Run

def repeatUntil {α : Type} (step : Run (Option α)) : (rounds : Nat) → Run α
  | 0 => throw .endless
  | rounds + 1 => do
    match ← step with
    | some result => return result
    | none => repeatUntil step rounds

/-- Runs a step for every element that an array has when its turn comes, until one gives a result;
`after` gives the result otherwise. -/
def overLive {σ α : Type} (address : Address) (step : σ → Nat → Value → Run (σ ⊕ α))
    (after : σ → α) : (rounds : Nat) → (place : Nat) → σ → Run α
  | 0, _, _ => throw .endless
  | rounds + 1, place, state => do
    match ← item? address place with
    | none => return after state
    | some item =>
      match ← step state place item with
      | .inl state => overLive address step after rounds (place + 1) state
      | .inr result => return result

def firstPassing? (test : Value → Run Bool) : List Value → Run (Option Value)
  | [] => return none
  | item :: rest => do
    if ← test item then return some item
    else firstPassing? test rest

def arg (args : List Value) (place : Nat) : Run Value :=
  match args[place]? with
  | some value => return value
  | none => fault .missingArgument

def checkArity (args : List Value) (low high : Nat) : Run Unit := do
  if args.length < low ∨ high < args.length then
    let expected := if low = high then toString low else toString low ++ ".." ++ toString high
    raise "ArgumentError" ("wrong number of arguments (given " ++ toString args.length ++
      ", expected " ++ expected ++ ")")

def truncate (x : Float) : Run Int :=
  match Decimal.truncate? x with
  | some value => return value
  | none => fault (if x.isNaN then .notANumber else .numberTooLarge)

/-- An argument that has to be a number; its fraction is dropped. -/
def intArg (value : Value) : Run Int :=
  match value with
  | .int value _ => return value
  | .float x _ => truncate x
  | _ => raise "TypeError" ("no implicit conversion of " ++ value.className ++ " into Integer")

end Run

end Hoist
