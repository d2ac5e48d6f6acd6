import Hoist.Syntax.Tree

/-!
A supply of names for generated code.  A name is a common start, a hint and a number, counted for
each hint; names that the program uses or that were issued before are passed over.
-/

namespace Hoist

structure NameSupply where
  /-- What every issued name starts with. -/
  start : String
  reserved : List String := []
  /-- The names given out, in order. -/
  issued : List String := []
  /-- The last number tried for a hint. -/
  counters : List (String × Nat) := []
deriving DecidableEq, Repr

namespace NameSupply

def reset (supply : NameSupply) (reserved : List String) : NameSupply :=
  { start := supply.start, reserved }

def taken (supply : NameSupply) (name : String) : Bool :=
  supply.reserved.contains name || supply.issued.contains name

def counter (supply : NameSupply) (hint : String) : Nat := (supply.counters.lookup hint).getD 0

def numbered (supply : NameSupply) (hint : String) (number : Nat) : String :=
  supply.start ++ hint ++ "_" ++ toString number

/-- The first number from `number` on whose name is free.  The names differ, so as many tries as
there are taken names, and one, suffice. -/
def firstFree (supply : NameSupply) (hint : String) : (tries : Nat) → (number : Nat) → Nat
  | 0, number => number
  | tries + 1, number =>
    if supply.taken (supply.numbered hint number) then supply.firstFree hint tries (number + 1)
    else number

def issue (supply : NameSupply) (name : String) : NameSupply :=
  { supply with issued := supply.issued ++ [name] }

def setCounter (supply : NameSupply) (hint : String) (number : Nat) : NameSupply :=
  { supply with
    counters := (hint, number) :: supply.counters.filter fun entry => entry.1 != hint }

def fresh (supply : NameSupply) (hint : String) : String × NameSupply :=
  let number := supply.firstFree hint (supply.reserved.length + supply.issued.length)
    (supply.counter hint + 1)
  let name := supply.numbered hint number
  (name, (supply.setCounter hint number).issue name)

/-- The name without a number when it is free, otherwise a numbered one. -/
def fixed (supply : NameSupply) (base : String) : String × NameSupply :=
  let name := supply.start ++ base
  if supply.taken name then supply.fresh base else (name, supply.issue name)

end NameSupply

/-- Why issued names cannot be used. -/
inductive NameCollision where
  | usedByProgram (name : String)
  | issuedTwice (name : String)
deriving DecidableEq, Repr

def NameCollision.message : NameCollision → String
  | .usedByProgram name => "generated name '" ++ name ++ "' is already used by the program"
  | .issuedTwice name => "generated name '" ++ name ++ "' was issued twice"

/-- Checks that issued names differ from each other and from the names of the program. -/
def verifyNames (seen reserved : List String) : List String → Except NameCollision Unit
  | [] => .ok ()
  | name :: rest =>
    if reserved.contains name then .error (.usedByProgram name)
    else if seen.contains name then .error (.issuedTwice name)
    else verifyNames (name :: seen) reserved rest

def Node.identifier? : Node String Unit → Option String
  | .expr (.name _ name) | .expr (.symbol _ name) | .expr (.global _ name)
  | .expr (.constant _ name) | .expr (.call _ _ name _ _ _) => some name
  | .param (.mk name _ _) => some name
  | .stmt (.define _ _ name _ _) => some name
  | _ => none

/-- Every name spelled in a program: variables, parameters, methods, symbols, globals, constants. -/
def identifiers (program : PlainProgram) : List String :=
  ((walkStmts program).filterMap Node.identifier?).eraseDups

end Hoist
