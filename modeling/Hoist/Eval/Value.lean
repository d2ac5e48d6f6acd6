import Hoist.Decimal.Order
import Hoist.Eval.Identity
import Hoist.Syntax.Tree

/-!
Values of running programs.  Arrays and procs live in the store; their values are addresses.  The
other objects carry their identity.
-/

namespace Hoist

abbrev Address := Nat

inductive Value where
  | nil
  | bool (value : Bool)
  | int (value : Int) (id : Identity)
  | float (value : Float) (id : Identity)
  | str (object : TextObject)
  | symbol (name : TextObject) (id : Identity)
  | array (address : Address)
  | range (start stop : Value) (exclusive : Bool) (id : Identity)
  | proc (address : Address) (isLambda : Bool)
  | classRef (name : String) (id : Identity)
  | error (className : String) (message : TextObject) (id : Identity)
  /-- A power that is no real number. -/
  | complex (re im : Float) (id : Identity)
deriving DecidableEq

instance : Inhabited Value := ⟨.nil⟩

abbrev Heap := Array (Array Value)

def Heap.items (heap : Heap) (address : Address) : Array Value := heap.getD address #[]

namespace Value

def ofLiteral (loc : Loc) : Literal → Value
  | .nil => .nil
  | .bool value => .bool value
  | .int value => .int value (if isSharedInt value then .shared else .written loc)
  | .float value => .float value (.written loc)
  | .str value => .str (.written loc value)

/-- All values but nil and false hold in a condition. -/
def truthy : Value → Bool
  | .nil | .bool false => false
  | _ => true

def className : Value → String
  | .nil => "NilClass"
  | .bool true => "TrueClass"
  | .bool false => "FalseClass"
  | .int .. => "Integer"
  | .float .. => "Float"
  | .str _ => "String"
  | .symbol .. => "Symbol"
  | .array _ => "Array"
  | .range .. => "Range"
  | .proc .. => "Proc"
  | .classRef .. => "Class"
  | .error className _ _ => className
  | .complex .. => "Object"

def describe (value : Value) : String :=
  match value with
  | .nil => "nil"
  | .bool true => "true"
  | .bool false => "false"
  | _ => "an instance of " ++ value.className

/-- Whether two values are one object: the identity of an object is part of its value. -/
def sameObject (left right : Value) : Bool := left = right

end Value

/-- Classes that programs can name, each with the classes and modules above it. -/
def classTable : List (String × List String) :=
  let object := ["Object", "Kernel", "BasicObject"]
  let exception := ["StandardError", "Exception", "Object", "BasicObject"]
  [("Object", ["BasicObject"]),
    ("Integer", "Numeric" :: "Comparable" :: object),
    ("Float", "Numeric" :: "Comparable" :: object),
    ("Numeric", "Comparable" :: object),
    ("String", "Comparable" :: object),
    ("Symbol", "Comparable" :: object),
    ("Array", "Enumerable" :: object),
    ("Range", "Enumerable" :: object),
    ("Proc", object),
    ("NilClass", object),
    ("TrueClass", object),
    ("FalseClass", object),
    ("Exception", object),
    ("StandardError", ["Exception", "Object", "BasicObject"]),
    ("RuntimeError", exception),
    ("ArgumentError", exception),
    ("TypeError", exception),
    ("IndexError", exception),
    ("NameError", exception),
    ("NoMethodError", "NameError" :: exception),
    ("ZeroDivisionError", exception),
    ("StopIteration", "IndexError" :: exception)]

/-- What stands above a class; nothing above one that programs cannot name. -/
def ancestors (className : String) : List String := (classTable.lookup className).getD []

def descendsFrom (className ancestor : String) : Bool :=
  className == ancestor || (ancestors className).contains ancestor

def isException (className : String) : Bool := descendsFrom className "Exception"

end Hoist
