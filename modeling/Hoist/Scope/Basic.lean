import Hoist.Syntax.Tree

/-!
Scopes and bindings.  The top level and every method, block and lambda opens a scope; scopes are
numbered in the order in which they open.  A method starts afresh, a block or lambda sees the
variables around it.
-/

namespace Hoist

inductive ScopeKind where
  | top
  | function
  | block
  | lambda
deriving DecidableEq, Repr

/-- Blocks and lambdas are closures: they see the scope around them. -/
def ScopeKind.isClosure : ScopeKind → Bool
  | .block | .lambda => true
  | .top | .function => false

inductive BindingKind where
  | localVariable
  | parameter
  | global
  | function
deriving DecidableEq, Repr

abbrev ScopeId := Nat

/-- A variable, global or method that names lead to.  A method that the program does not define has
no place. -/
structure Binding where
  name : String
  kind : BindingKind
  loc : Option Loc
  /-- How many assignments to it are written. -/
  assignments : Nat := 0
  /-- Whether one of them stands in a closure below the binding's scope. -/
  writtenInClosure : Bool := false
deriving DecidableEq, Repr

namespace Binding

/-- Whether the binding can hold more than one value; a parameter starts with one. -/
def reassigned (binding : Binding) : Bool :=
  if binding.kind = .parameter then 0 < binding.assignments else 1 < binding.assignments

def written (binding : Binding) (inClosure : Bool) : Binding :=
  { binding with
    assignments := binding.assignments + 1
    writtenInClosure := binding.writtenInClosure || inClosure }

end Binding

abbrev Bindings := List Binding

namespace Bindings

def find? (bindings : Bindings) (name : String) : Option Binding :=
  List.find? (·.name == name) bindings

def update (bindings : Bindings) (name : String) (change : Binding → Binding) : Bindings :=
  bindings.map fun binding => if binding.name == name then change binding else binding

end Bindings

/-- A scope: the scopes around it, the nearest first, and its variables. -/
structure Scope where
  kind : ScopeKind
  enclosing : List ScopeId
  bindings : Bindings := []
deriving DecidableEq, Repr

/-- What scope resolution finds out about a program. -/
structure ScopeTable where
  /-- The scopes by number. -/
  scopes : List Scope
  methods : Bindings
  globals : Bindings
deriving DecidableEq, Repr

namespace ScopeTable

/-- The table before the program is read: the top-level scope and the methods it defines. -/
def initial (methods : Bindings) : ScopeTable :=
  { scopes := [{ kind := .top, enclosing := [] }], methods, globals := [] }

def scope? (table : ScopeTable) (id : ScopeId) : Option Scope := table.scopes[id]?

def binding? (table : ScopeTable) (id : ScopeId) (name : String) : Option Binding :=
  (table.scope? id).bind (·.bindings.find? name)

def nextId (table : ScopeTable) : ScopeId := table.scopes.length

def openScope (table : ScopeTable) (kind : ScopeKind) (path : List ScopeId) : ScopeTable :=
  { table with scopes := table.scopes ++ [{ kind, enclosing := path }] }

def updateScope (table : ScopeTable) (id : ScopeId) (change : Scope → Scope) : ScopeTable :=
  { table with scopes := table.scopes.modify id change }

def addBinding (table : ScopeTable) (id : ScopeId) (binding : Binding) : ScopeTable :=
  table.updateScope id fun scope => { scope with bindings := scope.bindings ++ [binding] }

def updateBinding (table : ScopeTable) (id : ScopeId) (name : String)
    (change : Binding → Binding) : ScopeTable :=
  table.updateScope id fun scope => { scope with bindings := scope.bindings.update name change }

def isClosure (table : ScopeTable) (id : ScopeId) : Bool :=
  match table.scope? id with
  | some scope => scope.kind.isClosure
  | none => false

/-- The scope on a path, from the innermost, whose variable a name means.  The search ends at the
first scope that is no closure. -/
def lookup? (table : ScopeTable) (name : String) : List ScopeId → Option ScopeId
  | [] => none
  | id :: rest =>
    if (table.binding? id name).isSome then some id
    else if table.isClosure id then table.lookup? name rest
    else none

/-- Whether a closure lies between the innermost scope of a path and one of its scopes. -/
def throughClosure (table : ScopeTable) (path : List ScopeId) (owner : ScopeId) : Bool :=
  (path.takeWhile (· != owner)).any table.isClosure

def within (table : ScopeTable) (inner outer : ScopeId) : Bool :=
  inner == outer ||
    match table.scope? inner with
    | some scope => scope.enclosing.contains outer
    | none => false

end ScopeTable

/-- What a variable occurrence leads to. -/
inductive Target where
  /-- The variable of that name in a scope. -/
  | variable (scope : ScopeId)
  | method
deriving DecidableEq, Repr

/-- A variable occurrence with what it leads to, if that is known. -/
structure Occurrence where
  name : String
  target : Option Target
deriving DecidableEq, Repr

abbrev ResolvedExpr := Expr Occurrence ScopeId
abbrev ResolvedParam := Param Occurrence ScopeId
abbrev ResolvedBlock := Block Occurrence ScopeId
abbrev ResolvedStmt := Stmt Occurrence ScopeId
abbrev ResolvedProgram := Program Occurrence ScopeId
abbrev ResolvedNode := Node Occurrence ScopeId

end Hoist
