import Hoist.Helper.Template
import Hoist.Syntax.Parser

/-!
Helpers: methods that do the work of a built-in iteration method with a closure in place of a block.
A helper takes the receiver, when the method has one, and the closure, and calls the closure in a
`while` loop in ascending order.  A closure that returns the stop marker and a value ends the loop,
and the helper returns the value, which is what `break` does in a block.
-/

namespace Hoist

/-- How a method is replaced. -/
structure Helper where
  /-- The hint for the helper's name. -/
  base : String
  /-- The text of its definition, with places for its name and for the stop check. -/
  template : String
  /-- How many arguments it passes to the closure. -/
  arity : Nat := 1
  hasReceiver : Bool := true
deriving DecidableEq, Repr

/-- Why a helper cannot be made. -/
inductive HelperError where
  | template (fault : Template.Fault)
  | parse (error : ParseError)
  /-- The text holds something else than one method definition. -/
  | shape (base : String) (found : List String)
deriving DecidableEq, Repr

def HelperError.shapeMessage (base : String) (found : List String) : String :=
  "Helper template for '" ++ base ++ "' must hold one method definition, got " ++
    if found.isEmpty then "nothing" else String.intercalate ", " found

namespace Helper

def place (name : String) : String := "\x7b" ++ name ++ "\x7d"

def stopCheck (stop : String) : String :=
  "return r[1] if r.is_a?(Array) && r.size == 2 && r[0] == :" ++ stop

def instantiate (helper : Helper) (name stop : String) : Except HelperError PlainStmt :=
  match Template.fill [("helper", name), ("stop", stop), ("stop_check", stopCheck stop)]
      helper.template with
  | .error fault => .error (.template fault)
  | .ok text =>
    match parse text with
    | .error error => .error (.parse error)
    | .ok [definition@(.define ..)] => .ok definition
    | .ok program => .error (.shape helper.base (program.map Stmt.label))

def ofLines (base : String) (lines : List String) : Helper :=
  { base, template := "\n" ++ String.intercalate "\n" lines ++ "\n" }

def findAll : Helper := ofLines "find_all" [
  "def " ++ place "helper" ++ "(collection, fun)",
  "  items = collection.to_a",
  "  result = []",
  "  i = 0",
  "  while i < items.size",
  "    item = items[i]",
  "    r = fun.call(item)",
  "    " ++ place "stop_check",
  "    result.push(item) if r",
  "    i += 1",
  "  end",
  "  result",
  "end"]

def reject : Helper := ofLines "reject" [
  "def " ++ place "helper" ++ "(collection, fun)",
  "  items = collection.to_a",
  "  result = []",
  "  i = 0",
  "  while i < items.size",
  "    item = items[i]",
  "    r = fun.call(item)",
  "    " ++ place "stop_check",
  "    result.push(item) unless r",
  "    i += 1",
  "  end",
  "  result",
  "end"]

def map : Helper := ofLines "map" [
  "def " ++ place "helper" ++ "(collection, fun)",
  "  items = collection.to_a",
  "  result = []",
  "  i = 0",
  "  while i < items.size",
  "    r = fun.call(items[i])",
  "    " ++ place "stop_check",
  "    result.push(r)",
  "    i += 1",
  "  end",
  "  result",
  "end"]

def each : Helper := ofLines "each" [
  "def " ++ place "helper" ++ "(collection, fun)",
  "  items = collection.to_a",
  "  i = 0",
  "  while i < items.size",
  "    r = fun.call(items[i])",
  "    " ++ place "stop_check",
  "    i += 1",
  "  end",
  "  collection",
  "end"]

def any : Helper := ofLines "any" [
  "def " ++ place "helper" ++ "(collection, fun)",
  "  items = collection.to_a",
  "  i = 0",
  "  while i < items.size",
  "    r = fun.call(items[i])",
  "    " ++ place "stop_check",
  "    return true if r",
  "    i += 1",
  "  end",
  "  false",
  "end"]

def all : Helper := ofLines "all" [
  "def " ++ place "helper" ++ "(collection, fun)",
  "  items = collection.to_a",
  "  i = 0",
  "  while i < items.size",
  "    r = fun.call(items[i])",
  "    " ++ place "stop_check",
  "    return false unless r",
  "    i += 1",
  "  end",
  "  true",
  "end"]

def times : Helper := ofLines "times" [
  "def " ++ place "helper" ++ "(count, fun)",
  "  i = 0",
  "  while i < count",
  "    r = fun.call(i)",
  "    " ++ place "stop_check",
  "    i += 1",
  "  end",
  "  count",
  "end"]

def loop : Helper :=
  { ofLines "loop" [
      "def " ++ place "helper" ++ "(fun)",
      "  while true",
      "    r = fun.call",
      "    " ++ place "stop_check",
      "  end",
      "end"] with arity := 0, hasReceiver := false }

end Helper

abbrev HelperTable := List (String × Helper)

def standardHelpers : HelperTable :=
  [("find_all", .findAll), ("select", .findAll), ("filter", .findAll), ("reject", .reject),
    ("map", .map), ("collect", .map), ("each", .each), ("any?", .any), ("all?", .all),
    ("times", .times), ("loop", .loop)]

end Hoist
