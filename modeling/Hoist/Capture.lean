import Hoist.Scope.Resolve

/-!
Captures: the variables that a block uses and that are bound outside it.  A copy of the value is
enough for most; a variable is shared through a cell when the block or another closure assigns to
it, or when a closure inside the block, which may outlive the call, uses a variable that is assigned
more than once.
-/

namespace Hoist

inductive CaptureMode where
  | byValue
  | byCell
deriving DecidableEq, Repr

/-- A variable occurrence below some tree. -/
structure Reference where
  loc : Loc
  occurrence : Occurrence
  /-- Whether it is the target of an assignment. -/
  written : Bool
  /-- Whether it stands inside a closure of that tree. -/
  nested : Bool
deriving DecidableEq, Repr

mutual

/-- The variable occurrences of an expression, in reading order; `nested` tells whether it stands
inside a closure. -/
def Expr.references (nested : Bool) : ResolvedExpr → List Reference
  | .literal .. | .symbol .. | .global .. | .constant .. => []
  | .name loc occurrence => [⟨loc, occurrence, false, nested⟩]
  | .array _ elements => exprsReferences nested elements
  | .splat _ value => value.references nested
  | .range _ start stop _ => start.references nested ++ stop.references nested
  | .binary _ _ left right => left.references nested ++ right.references nested
  | .unary _ _ operand => operand.references nested
  | .ternary _ condition thenValue elseValue =>
    condition.references nested ++ thenValue.references nested ++ elseValue.references nested
  | .lambda _ _ params body => paramsReferences true params ++ stmtsReferences true body
  | .call _ receiver _ args block _ =>
    (match receiver with | none => [] | some receiver => receiver.references nested) ++
      exprsReferences nested args ++
      (match block with
        | none => []
        | some (.mk _ _ params body) => paramsReferences true params ++ stmtsReferences true body)
  | .index _ value args => value.references nested ++ exprsReferences nested args
  | .assign _ target value => target.targetReferences nested ++ value.references nested
  | .opAssign _ target _ value => target.targetReferences nested ++ value.references nested
  | .multiAssign _ targets values =>
    targetsReferences nested targets ++ exprsReferences nested values
  | .block (.mk _ _ params body) => paramsReferences true params ++ stmtsReferences true body
  | .param (.mk _ _ none) => []
  | .param (.mk _ _ (some value)) => value.references nested
  | .stmt stmt => stmt.references nested

def exprsReferences (nested : Bool) : List ResolvedExpr → List Reference
  | [] => []
  | first :: rest => first.references nested ++ exprsReferences nested rest

def Expr.targetReferences (nested : Bool) : ResolvedExpr → List Reference
  | .name loc occurrence => [⟨loc, occurrence, true, nested⟩]
  | .index _ value args => value.references nested ++ exprsReferences nested args
  | _ => []

def targetsReferences (nested : Bool) : List ResolvedExpr → List Reference
  | [] => []
  | first :: rest => first.targetReferences nested ++ targetsReferences nested rest

def paramsReferences (nested : Bool) : List ResolvedParam → List Reference
  | [] => []
  | .mk _ _ none :: rest => paramsReferences nested rest
  | .mk _ _ (some value) :: rest => value.references nested ++ paramsReferences nested rest

def Stmt.references (nested : Bool) : ResolvedStmt → List Reference
  | .define _ _ _ params body => paramsReferences nested params ++ stmtsReferences nested body
  | .expression _ value => value.references nested
  | .conditional _ condition thenBody elseBody _ modifier _ =>
    (if modifier then stmtsReferences nested thenBody ++ condition.references nested
      else condition.references nested ++ stmtsReferences nested thenBody) ++
      stmtsReferences nested elseBody
  | .whileLoop _ condition body => condition.references nested ++ stmtsReferences nested body
  | .jump _ _ none => []
  | .jump _ _ (some value) => value.references nested
  | .bare expr => expr.references nested

def stmtsReferences (nested : Bool) : List ResolvedStmt → List Reference
  | [] => []
  | first :: rest => first.references nested ++ stmtsReferences nested rest

end

def Block.references (block : ResolvedBlock) : List Reference :=
  paramsReferences false block.params ++ stmtsReferences false block.body

/-- A variable that a block captures: its name, its scope, and how it is passed. -/
structure Capture where
  name : String
  scope : ScopeId
  mode : CaptureMode
deriving DecidableEq, Repr

/-- The captures of a block, in the order of their first occurrence, with different names. -/
abbrev CaptureSet := List Capture

namespace CaptureSet

def find? (captures : CaptureSet) (name : String) : Option Capture :=
  List.find? (·.name == name) captures

def forVariable? (captures : CaptureSet) (scope : ScopeId) (name : String) : Option Capture :=
  (captures.find? name).filter (·.scope == scope)

/-- Adds a captured variable unless its name is there already; `shared` makes it a cell. -/
def note (captures : CaptureSet) (name : String) (scope : ScopeId) (shared : Bool) : CaptureSet :=
  if (captures.find? name).isSome then
    captures.map fun capture =>
      if capture.name == name && shared then { capture with mode := .byCell } else capture
  else captures ++ [⟨name, scope, if shared then .byCell else .byValue⟩]

end CaptureSet

/-- A name that scope resolution has not seen. -/
structure UnresolvedName where
  name : String
  loc : Loc
deriving DecidableEq, Repr

def UnresolvedName.message (unresolved : UnresolvedName) : String :=
  "cannot classify reference to '" ++ unresolved.name ++ "'"

def Reference.shares (table : ScopeTable) (reference : Reference) (scope : ScopeId) : Bool :=
  reference.written ||
    match table.binding? scope reference.occurrence.name with
    | some binding => binding.writtenInClosure || (reference.nested && binding.reassigned)
    | none => false

def captureStep (table : ScopeTable) (block : ScopeId) (captures : CaptureSet)
    (reference : Reference) : Except UnresolvedName CaptureSet :=
  match reference.occurrence.target with
  | none => .error ⟨reference.occurrence.name, reference.loc⟩
  | some .method => .ok captures
  | some (.variable scope) =>
    if table.within scope block then .ok captures
    else .ok (captures.note reference.occurrence.name scope (reference.shares table scope))

def captures (table : ScopeTable) (block : ResolvedBlock) : Except UnresolvedName CaptureSet :=
  block.references.foldlM (captureStep table block.scope) []

/-- The captures of all blocks and the variables that are held in cells. -/
structure CaptureAnalysis where
  /-- The captures of the block that opens a scope. -/
  captures : List (ScopeId × CaptureSet)
  /-- Variables that a hoisted block shares, by scope and name. -/
  cells : List (ScopeId × String)
deriving DecidableEq, Repr

namespace CaptureAnalysis

def capturesOf (analysis : CaptureAnalysis) (scope : ScopeId) : CaptureSet :=
  (analysis.captures.lookup scope).getD []

def isCell (analysis : CaptureAnalysis) (scope : ScopeId) (name : String) : Bool :=
  analysis.cells.contains (scope, name)

def cellNames (analysis : CaptureAnalysis) : List String :=
  (analysis.captures.flatMap fun (_, captures) =>
    (captures.filter fun capture => analysis.isCell capture.scope capture.name).map
      Capture.name).eraseDups

end CaptureAnalysis

/-- Analyses all blocks of a program.  A variable becomes a cell when a block that is going to be
hoisted captures it by cell. -/
def analyzeCaptures (resolution : Resolution) (hoisted : ScopeId → Bool) :
    Except UnresolvedName CaptureAnalysis := do
  let captureSets ← resolution.blocks.mapM fun block => do
    return (block.scope, ← captures resolution.table block)
  let cells := captureSets.flatMap fun (scope, captures) =>
    if hoisted scope then
      (captures.filter (·.mode == .byCell)).map fun capture => (capture.scope, capture.name)
    else []
  return ⟨captureSets, cells.eraseDups⟩

end Hoist
