import Hoist.Scope.Basic
import Hoist.Syntax.Extend
import Hoist.Syntax.Relabel

/-!
Scope resolution.  A variable exists from the place where its first assignment is read, so the
program is read in order and each name is resolved when it is met: first as a variable that is
visible there, then as a method of the program, then as a kernel method.
-/

namespace Hoist

/-- Why a program cannot be resolved. -/
inductive ScopeError where
  | duplicateParameter (name : String) (loc : Loc)
  | undefinedName (name : String) (loc : Loc)
  | assignmentTarget (loc : Loc)
  /-- A part that stands where a statement belongs. -/
  | statementKind (label : String)
  /-- A part that stands where an expression belongs. -/
  | expressionKind (label : String)
deriving DecidableEq, Repr

namespace ScopeError

def message : ScopeError → String
  | .duplicateParameter name _ => "duplicated argument name '" ++ name ++ "'"
  | .undefinedName name _ => "undefined local variable or method '" ++ name ++ "'"
  | .assignmentTarget _ => "unsupported assignment target"
  | .statementKind label => "Unsupported statement type: " ++ label
  | .expressionKind label => "Unsupported expression type: " ++ label

def loc? : ScopeError → Option Loc
  | .duplicateParameter _ loc | .undefinedName _ loc | .assignmentTarget loc => some loc
  | .statementKind _ | .expressionKind _ => none

end ScopeError

/-- Methods that every program may call without defining them. -/
def kernelMethods : List String :=
  ["puts", "print", "p", "pp", "raise", "loop", "lambda", "proc", "format"]

/-- The methods that a program defines, each with the place of its first definition. -/
def definedMethods (program : PlainProgram) : Bindings :=
  (walkStmts program).foldl
    (fun methods node => match node with
      | .stmt (.define loc _ name _ _) =>
        if (Bindings.find? methods name).isSome then methods
        else methods ++ [{ name, kind := .function, loc := some loc }]
      | _ => methods)
    []

namespace Resolve

abbrev Resolving := StateT ScopeTable (Except ScopeError)

def openScope (kind : ScopeKind) (path : List ScopeId) : Resolving ScopeId := do
  let table ← get
  set (table.openScope kind path)
  return table.nextId

/-- The innermost scope of a path; the top level is the outermost of every path. -/
def innermost (path : List ScopeId) : ScopeId := path.headD 0

def declareParameter (path : List ScopeId) (name : String) (loc : Loc) : Resolving Unit := do
  let table ← get
  if (table.binding? (innermost path) name).isSome then throw (.duplicateParameter name loc)
  set (table.addBinding (innermost path) { name, kind := .parameter, loc := some loc })

def reference (path : List ScopeId) (name : String) (loc : Loc) : Resolving Occurrence := do
  let table ← get
  match table.lookup? name path with
  | some scope => return ⟨name, some (.variable scope)⟩
  | none =>
    if (table.methods.find? name).isSome then return ⟨name, some .method⟩
    else if kernelMethods.contains name then
      set { table with
        methods := table.methods ++ [{ name, kind := .function, loc := none : Binding }] }
      return ⟨name, some .method⟩
    else throw (.undefinedName name loc)

/-- A name that is assigned to; a new one becomes a variable of the innermost scope. -/
def assignment (path : List ScopeId) (name : String) (loc : Loc) : Resolving Occurrence := do
  let table ← get
  match table.lookup? name path with
  | some scope =>
    let inClosure := table.throughClosure path scope
    set (table.updateBinding scope name (·.written inClosure))
    return ⟨name, some (.variable scope)⟩
  | none =>
    let scope := innermost path
    let binding : Binding := { name, kind := .localVariable, loc := some loc }
    set (table.addBinding scope (binding.written false))
    return ⟨name, some (.variable scope)⟩

/-- A global that is read or, when `writing`, assigned to. -/
def global (name : String) (loc : Loc) (writing : Bool) : Resolving Unit := do
  let table ← get
  let globals : Bindings :=
    if (table.globals.find? name).isSome then table.globals
    else table.globals ++ [{ name, kind := .global, loc := some loc }]
  set { table with
    globals := if writing then globals.update name (·.written false) else globals }

mutual

def expr (path : List ScopeId) : PlainExpr → Resolving ResolvedExpr
  | .literal loc value => return .literal loc value
  | .symbol loc name => return .symbol loc name
  | .name loc name => return .name loc (← reference path name loc)
  | .global loc name => do
    global name loc false
    return .global loc name
  | .constant loc name => return .constant loc name
  | .array loc elements => return .array loc (← exprs path elements)
  | .splat loc value => return .splat loc (← expr path value)
  | .range loc start stop exclusive =>
    return .range loc (← expr path start) (← expr path stop) exclusive
  | .binary loc op left right => return .binary loc op (← expr path left) (← expr path right)
  | .unary loc op operand => return .unary loc op (← expr path operand)
  | .ternary loc condition thenValue elseValue =>
    return .ternary loc (← expr path condition) (← expr path thenValue) (← expr path elseValue)
  | .lambda loc _ parameters body => do
    let scope ← openScope .lambda path
    return .lambda loc scope (← params (scope :: path) parameters) (← stmts (scope :: path) body)
  | .call loc receiver method args block parens => do
    let receiver ← match receiver with
      | none => pure none
      | some receiver => pure (some (← expr path receiver))
    let args ← exprs path args
    let block ← match block with
      | none => pure none
      | some (.mk loc _ parameters body) => do
        let scope ← openScope .block path
        let parameters ← params (scope :: path) parameters
        pure (some (.mk loc scope parameters (← stmts (scope :: path) body)))
    return .call loc receiver method args block parens
  | .index loc value args => return .index loc (← expr path value) (← exprs path args)
  | .assign loc place value => return .assign loc (← target path place) (← expr path value)
  | .opAssign loc place op value =>
    return .opAssign loc (← target path place) op (← expr path value)
  | .multiAssign loc places values =>
    return .multiAssign loc (← targets path places) (← exprs path values)
  | .block (.mk loc _ parameters body) => do
    let scope ← openScope .block path
    let parameters ← params (scope :: path) parameters
    return .block (.mk loc scope parameters (← stmts (scope :: path) body))
  | .param _ => throw (.expressionKind "Param")
  | .stmt stmt => throw (.expressionKind stmt.label)

def exprs (path : List ScopeId) : List PlainExpr → Resolving (List ResolvedExpr)
  | [] => return []
  | first :: rest => return (← expr path first) :: (← exprs path rest)

def target (path : List ScopeId) : PlainExpr → Resolving ResolvedExpr
  | .name loc name => return .name loc (← assignment path name loc)
  | .global loc name => do
    global name loc true
    return .global loc name
  | .index loc value args => return .index loc (← expr path value) (← exprs path args)
  | place => throw (.assignmentTarget place.loc)

def targets (path : List ScopeId) : List PlainExpr → Resolving (List ResolvedExpr)
  | [] => return []
  | first :: rest => return (← target path first) :: (← targets path rest)

/-- Parameters; a default may refer to the parameters before it. -/
def params (path : List ScopeId) : List PlainParam → Resolving (List ResolvedParam)
  | [] => return []
  | .mk name loc none :: rest => do
    declareParameter path name loc
    return .mk name loc none :: (← params path rest)
  | .mk name loc (some value) :: rest => do
    let value ← expr path value
    declareParameter path name loc
    return .mk name loc (some value) :: (← params path rest)

def stmt (path : List ScopeId) : PlainStmt → Resolving ResolvedStmt
  | .define loc _ name parameters body => do
    let scope ← openScope .function path
    let parameters ← params (scope :: path) parameters
    return .define loc scope name parameters (← stmts (scope :: path) body)
  | .expression loc value => return .expression loc (← expr path value)
  | .conditional loc condition thenBody elseBody negated true elsif => do
    let thenBody ← stmts path thenBody
    let condition ← expr path condition
    return .conditional loc condition thenBody (← stmts path elseBody) negated true elsif
  | .conditional loc condition thenBody elseBody negated false elsif => do
    let condition ← expr path condition
    let thenBody ← stmts path thenBody
    return .conditional loc condition thenBody (← stmts path elseBody) negated false elsif
  | .whileLoop loc condition body =>
    return .whileLoop loc (← expr path condition) (← stmts path body)
  | .jump loc kind none => return .jump loc kind none
  | .jump loc kind (some value) => return .jump loc kind (some (← expr path value))
  | .bare value => throw (.statementKind value.label)

def stmts (path : List ScopeId) : List PlainStmt → Resolving (List ResolvedStmt)
  | [] => return []
  | first :: rest => return (← stmt path first) :: (← stmts path rest)

end

end Resolve

/-- A resolved program with its scopes. -/
structure Resolution where
  program : ResolvedProgram
  table : ScopeTable

def resolve (program : PlainProgram) : Except ScopeError Resolution := do
  let (resolved, table) ←
    (Resolve.stmts [0] program).run (ScopeTable.initial (definedMethods program))
  return ⟨resolved, table⟩

def erasing : Relabel Occurrence ScopeId String Unit :=
  { occurrence := Occurrence.name, scope := fun _ => () }

namespace Resolution

def blocks (resolution : Resolution) : List ResolvedBlock :=
  (walkStmts resolution.program).filterMap fun node => match node with
    | .block block => some block
    | _ => none

/-- The resolution with statements added to the body of the block of a scope. -/
def extendBlock (resolution : Resolution) (scope : ScopeId) (extra : List ResolvedStmt) :
    Resolution :=
  let tail (mark : ScopeId) : List ResolvedStmt := if mark == scope then extra else []
  { resolution with program := extendStmts tail resolution.program }

end Resolution

end Hoist
