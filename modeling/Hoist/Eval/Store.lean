import Hoist.Eval.Value

/-!
The state of a running program, and the ways in which a computation ends early.
-/

namespace Hoist

/-- Failures that are no errors of the running program: a built-in method was used in a way that it
does not provide for, or a tree was built wrongly. -/
inductive Fault where
  | missingArgument
  | notIterable
  | integerTooLong
  | noSuchCharacter
  | notANumber
  | numberTooLarge
  | zeroToNegativePower
  | outOfMemory
  | statementKind (label : String)
  | expressionKind (label : String)
  | targetKind (label : String)
deriving DecidableEq, Repr

/-- Why a computation ends without a value. -/
inductive Signal where
  | raised (className : String) (message : Text)
  /-- A `break`, `next` or `return` on its way to what it leaves. -/
  | jump (kind : JumpKind) (value : Value)
  | fault (fault : Fault)
  /-- Calls or values are nested too deeply. -/
  | tooDeep
  /-- A loop takes more rounds than allowed. -/
  | endless

abbrev Frame := List (String × Value)

abbrev FrameId := Nat

abbrev Environment := List FrameId

/-- A block or lambda with the environment it was written in. -/
structure Closure where
  params : List PlainParam
  body : List PlainStmt
  env : Environment
  isLambda : Bool

/-- A method that the program has defined. -/
structure Method where
  params : List PlainParam
  body : List PlainStmt

structure Store where
  arrays : Heap := #[]
  frames : Array Frame := #[]
  closures : Array Closure := #[]
  methods : List (String × Method) := []
  globals : List (String × Value) := []
  /-- What has been printed. -/
  output : Text := ""
  /-- How many objects with a number have been made. -/
  made : Nat := 0

instance : Inhabited Store := ⟨{}⟩

/-- Computations of a running program; the store outlives an early end. -/
abbrev Run := ExceptT Signal (StateM Store)

/-- Puts a value under a key, in place of an older one. -/
def assign {α : Type} (key : String) (value : α) : List (String × α) → List (String × α)
  | [] => [(key, value)]
  | (other, old) :: rest =>
    if other == key then (key, value) :: rest else (other, old) :: assign key value rest

namespace Run

def raise {α : Type} (className : String) (message : Text) : Run α :=
  throw (.raised className message)

def fault {α : Type} (fault : Fault) : Run α := throw (.fault fault)

def ofExcept {α : Type} : Except Signal α → Run α
  | .ok value => pure value
  | .error signal => throw signal

def reading {α : Type} (compute : Heap → Except Signal α) : Run α := do
  ofExcept (compute (← get).arrays)

def items (address : Address) : Run (Array Value) := return (← get).arrays.items address

def size (address : Address) : Run Nat := return (← items address).size

def item? (address : Address) (place : Nat) : Run (Option Value) := return (← items address)[place]?

def newArray (items : Array Value) : Run Value :=
  modifyGet fun store =>
    (.array store.arrays.size, { store with arrays := store.arrays.push items })

def newList (items : List Value) : Run Value := newArray items.toArray

def newIdentity : Run Identity :=
  modifyGet fun store => (.made store.made, { store with made := store.made + 1 })

def newInt (value : Int) : Run Value := do
  if isSharedInt value then return .int value .shared
  else return .int value (← newIdentity)

def newFloat (value : Float) : Run Value := return .float value (← newIdentity)

/-- Makes the object of a draft, unless it is one already. -/
def newText (draft : Draft) : Run TextObject := do
  match draft.id with
  | some id => return ⟨draft.text, id⟩
  | none => return ⟨draft.text, ← newIdentity⟩

def newString (draft : Draft) : Run Value := return .str (← newText draft)

def newSymbol (name : TextObject) : Run Value := return .symbol name (← newIdentity)

def newRange (start stop : Value) (exclusive : Bool) : Run Value :=
  return .range start stop exclusive (← newIdentity)

def newError (className : String) (message : TextObject) : Run Value :=
  return .error className message (← newIdentity)

def modifyArray (address : Address) (change : Array Value → Array Value) : Run Unit :=
  modify fun store => { store with arrays := store.arrays.modify address change }

def print (text : Text) : Run Unit :=
  modify fun store => { store with output := store.output ++ text }

def newFrame (frame : Frame) : Run FrameId :=
  modifyGet fun store =>
    (store.frames.size, { store with frames := store.frames.push frame })

def define (id : FrameId) (name : String) (value : Value) : Run Unit :=
  modify fun store => { store with frames := store.frames.modify id (assign name value) }

def newProc (closure : Closure) : Run Value :=
  modifyGet fun store =>
    (.proc store.closures.size closure.isLambda,
      { store with closures := store.closures.push closure })

def closure? (address : Address) : Run (Option Closure) := return (← get).closures[address]?

end Run

namespace Store

def owner? (store : Store) (name : String) : Environment → Option FrameId
  | [] => none
  | id :: rest =>
    if ((store.frames.getD id []).lookup name).isSome then some id else store.owner? name rest

def valueOf? (store : Store) (name : String) : Environment → Option Value
  | [] => none
  | id :: rest =>
    match (store.frames.getD id []).lookup name with
    | some value => some value
    | none => store.valueOf? name rest

end Store

/-- Assigns to the nearest variable of a name, or makes one in the innermost frame. -/
def Run.setVariable (env : Environment) (name : String) (value : Value) : Run Unit := do
  let store ← get
  match store.owner? name env, env with
  | some id, _ => define id name value
  | none, id :: _ => define id name value
  | none, [] => pure ()

end Hoist
