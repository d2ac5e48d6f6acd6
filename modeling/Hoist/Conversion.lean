import Hoist.Closure
import Hoist.Log
import Hoist.TransformError

/-!
Conversion: a program in which every planned block is hoisted.  The call that carried the block
becomes a call of the helper with the closure.  A variable that is shared through a cell is read as
`x[0]` and written as `x[0] = …` wherever the cell is in scope, and the scope that owns it allocates
the cell at its start.
-/

namespace Hoist

/-- What is known of the program that is converted. -/
structure ConversionInput where
  table : ScopeTable
  analysis : CaptureAnalysis
  plan : Plan

/-- The innermost construct around some code to which `break` and `next` belong. -/
inductive Construct where
  | program
  | method
  | whileLoop
  | lambda
  | block
  | hoisted
deriving DecidableEq, Repr

/-- What holds at the code that is converted. -/
structure Site where
  construct : Construct
  /-- The captures of the innermost hoisted block around it. -/
  frame : Option CaptureSet
  /-- The scope whose parameter defaults it belongs to; they run before the scope's cells exist. -/
  defaultsOf : Option ScopeId

def Site.top : Site := ⟨.program, none, none⟩

/-- A helper in use. -/
structure UsedHelper where
  base : String
  name : String
  definition : PlainStmt

/-- What conversion has produced so far. -/
structure ConversionState where
  names : NameSupply
  closures : List HoistedClosure := []
  helpers : List UsedHelper := []
  /-- The stop marker, once it is needed. -/
  stop : Option String := none
  log : List LogEvent := []

namespace Conversion

abbrev Converting := ExceptT TransformError (StateM ConversionState)

def takeName (take : NameSupply → String × NameSupply) : Converting String := do
  let state ← get
  let (name, names) := take state.names
  set { state with names }
  return name

def stopMarker : Converting String := do
  match (← get).stop with
  | some stop => return stop
  | none =>
    let stop ← takeName (·.fixed "stop")
    modify fun state => { state with stop := some stop }
    return stop

/-- The name of the method that a helper became; it is made on first use. -/
def helperName (helper : Helper) : Converting String := do
  match (← get).helpers.find? (·.base == helper.base) with
  | some used => return used.name
  | none =>
    let name ← takeName (·.fixed helper.base)
    let stop ← stopMarker
    match helper.instantiate name stop with
    | .error error => throw (.helper error)
    | .ok definition =>
      modify fun state =>
        { state with helpers := state.helpers ++ [⟨helper.base, name, definition⟩] }
      return name

def isCellAt (input : ConversionInput) (site : Site) (scope : ScopeId) (name : String) : Bool :=
  if site.defaultsOf == some scope then false
  else match site.frame.bind (·.forVariable? scope name) with
    | some capture => capture.mode == .byCell
    | none => input.analysis.isCell scope name

def name (input : ConversionInput) (site : Site) (loc : Loc) (occurrence : Occurrence) :
    PlainExpr :=
  match occurrence.target with
  | some (.variable scope) =>
    if isCellAt input site scope occurrence.name then
      HoistedClosure.cellContent loc occurrence.name
    else .name loc occurrence.name
  | _ => .name loc occurrence.name

/-- The statements that allocate the cells of a scope.  A parameter's cell starts with its value. -/
def cellPrelude (input : ConversionInput) (scope : ScopeId) : List PlainStmt :=
  let bindings := match input.table.scope? scope with
    | some scope => scope.bindings
    | none => []
  bindings.filterMap fun binding =>
    if input.analysis.isCell scope binding.name then
      let loc := binding.loc.getD Loc.start
      let content : PlainExpr :=
        if binding.kind = .parameter then .name loc binding.name else .literal loc .nil
      some (.expression loc (.assign loc (.name loc binding.name) (.array loc [content])))
    else none

/-- A `break` or `next` in a hoisted block leaves its lambda, a `break` with the stop marker. -/
def jump (site : Site) (loc : Loc) (kind : JumpKind) (value : Option PlainExpr) :
    Converting PlainStmt := do
  if site.construct ≠ .hoisted then return .jump loc kind value
  match kind with
  | .returnJump => return .jump loc .returnJump value
  | .nextJump => return .jump loc .returnJump value
  | .breakJump =>
    let stop ← stopMarker
    let marked : PlainExpr :=
      .array loc [.symbol loc stop, value.getD (.literal loc .nil)]
    return .jump loc .returnJump (some marked)

def hoistedCall (input : ConversionInput) (site : Site) (loc : Loc)
    (receiver : Option PlainExpr) (helper : Helper) (blockLoc : Loc) (scope : ScopeId)
    (params : List PlainParam) (body : List PlainStmt) : Converting PlainExpr := do
  let captures := input.analysis.capturesOf scope
  let state ← get
  let ((closure, args), names) :=
    HoistedClosure.build state.names blockLoc captures params body helper.arity
      (isCellAt input site)
  set { state with
    names
    closures := state.closures ++ [closure]
    log := state.log ++ [LogEvent.hoisted closure.name blockLoc captures] }
  let closureCall : PlainExpr := .call blockLoc none closure.name args none true
  let receiver := if helper.hasReceiver then receiver.toList else []
  return .call loc none (← helperName helper) (receiver ++ [closureCall]) none true

mutual

def expr (input : ConversionInput) (site : Site) : ResolvedExpr → Converting PlainExpr
  | .literal loc value => return .literal loc value
  | .symbol loc symbol => return .symbol loc symbol
  | .name loc occurrence => return name input site loc occurrence
  | .global loc global => return .global loc global
  | .constant loc constant => return .constant loc constant
  | .array loc elements => return .array loc (← exprs input site elements)
  | .splat loc value => return .splat loc (← expr input site value)
  | .range loc start stop exclusive =>
    return .range loc (← expr input site start) (← expr input site stop) exclusive
  | .binary loc op left right =>
    return .binary loc op (← expr input site left) (← expr input site right)
  | .unary loc op operand => return .unary loc op (← expr input site operand)
  | .ternary loc condition thenValue elseValue =>
    return .ternary loc (← expr input site condition) (← expr input site thenValue)
      (← expr input site elseValue)
  | .lambda loc scope parameters body => do
    let inner := { site with construct := .lambda }
    let parameters ← params input { inner with defaultsOf := some scope } parameters
    return .lambda loc () parameters (cellPrelude input scope ++ (← stmts input inner body))
  | .call loc receiver method args block parens => do
    let receiver ← match receiver with
      | none => pure none
      | some receiver => pure (some (← expr input site receiver))
    let args ← exprs input site args
    match block with
    | none => return .call loc receiver method args none parens
    | some (.mk blockLoc scope parameters body) =>
      match input.plan.helper? scope with
      | none =>
        let inner := { site with construct := .block }
        let parameters ← params input { inner with defaultsOf := some scope } parameters
        let body := cellPrelude input scope ++ (← stmts input inner body)
        return .call loc receiver method args (some (.mk blockLoc () parameters body)) parens
      | some helper =>
        let inner := { site with
          construct := .hoisted, frame := some (input.analysis.capturesOf scope) }
        let parameters ← params input { inner with defaultsOf := some scope } parameters
        let body := cellPrelude input scope ++ (← stmts input inner body)
        hoistedCall input site loc receiver helper blockLoc scope parameters body
  | .index loc value args => return .index loc (← expr input site value) (← exprs input site args)
  | .assign loc target value =>
    return .assign loc (← expr input site target) (← expr input site value)
  | .opAssign loc target op value =>
    return .opAssign loc (← expr input site target) op (← expr input site value)
  | .multiAssign loc targets values =>
    return .multiAssign loc (← exprs input site targets) (← exprs input site values)
  | .block _ => throw (.expressionKind "BlockLiteral")
  | .param _ => throw (.expressionKind "Param")
  | .stmt stmt => throw (.expressionKind stmt.label)

def exprs (input : ConversionInput) (site : Site) :
    List ResolvedExpr → Converting (List PlainExpr)
  | [] => return []
  | first :: rest => return (← expr input site first) :: (← exprs input site rest)

def params (input : ConversionInput) (site : Site) :
    List ResolvedParam → Converting (List PlainParam)
  | [] => return []
  | .mk name loc none :: rest => return .mk name loc none :: (← params input site rest)
  | .mk name loc (some value) :: rest =>
    return .mk name loc (some (← expr input site value)) :: (← params input site rest)

def stmt (input : ConversionInput) (site : Site) : ResolvedStmt → Converting PlainStmt
  | .define loc scope name parameters body => do
    let inner := { site with construct := .method }
    let parameters ← params input { inner with defaultsOf := some scope } parameters
    let body := cellPrelude input scope ++ (← stmts input inner body)
    return .define loc () name parameters body
  | .expression loc value => return .expression loc (← expr input site value)
  | .conditional loc condition thenBody elseBody negated modifier elsif =>
    return .conditional loc (← expr input site condition) (← stmts input site thenBody)
      (← stmts input site elseBody) negated modifier elsif
  | .whileLoop loc condition body => do
    let condition ← expr input site condition
    return .whileLoop loc condition (← stmts input { site with construct := .whileLoop } body)
  | .jump loc kind none => jump site loc kind none
  | .jump loc kind (some value) => do jump site loc kind (some (← expr input site value))
  | .bare value => throw (.statementKind value.label)

def stmts (input : ConversionInput) (site : Site) :
    List ResolvedStmt → Converting (List PlainStmt)
  | [] => return []
  | first :: rest => return (← stmt input site first) :: (← stmts input site rest)

end

/-- The statements of a whole program, with the cells of the top level. -/
def program (input : ConversionInput) (statements : ResolvedProgram) :
    Converting PlainProgram :=
  return cellPrelude input 0 ++ (← stmts input Site.top statements)

end Conversion

/-- The converted program: helpers, closures, then the program's own statements. -/
def ConversionState.assemble (state : ConversionState) (emitHelpers : Bool)
    (body : PlainProgram) : PlainProgram :=
  (if emitHelpers then state.helpers.map UsedHelper.definition else []) ++
    state.closures.map HoistedClosure.definition ++ body

end Hoist
