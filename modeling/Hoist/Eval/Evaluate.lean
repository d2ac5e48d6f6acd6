import Hoist.Eval.Kernel
import Hoist.Eval.Send

/-!
Evaluation of programs.  Expressions and statements are evaluated by recursion on the tree; calls of
procs and methods go through the context, which is one level deeper for every call, so that endless
recursion ends in `Signal.tooDeep`.
-/

namespace Hoist

/-- The bounds that a run keeps to. -/
structure Limits where
  /-- How deeply calls may be nested. -/
  calls : Nat := 200
  /-- How deeply values may be nested when they are compared or written. -/
  nesting : Nat := 400
  /-- How many rounds a loop may take. -/
  rounds : Nat := 1000000000000000
  /-- The length of the longest text or array that memory holds. -/
  memory : Nat := Decimal.twoTo 36
deriving DecidableEq, Repr

namespace Evaluate

/-- Calls a method without a receiver: one of the program, or a kernel method. -/
def callFunction (context : Context) (name : String) (args : List Value)
    (block : Option Address) : Run Value := do
  match (← get).methods.lookup name with
  | some method => context.callMethod method args
  | none =>
    match Kernel.table.lookup name with
    | some builtin => builtin context () args block
    | none =>
      if args.isEmpty then
        Run.raise "NameError" ("undefined local variable or method '" ++ name ++ "' for main")
      else Run.raise "NoMethodError" ("undefined method '" ++ name ++ "' for main")

def nameValue (context : Context) (env : Environment) (name : String) : Run Value := do
  match (← get).valueOf? name env with
  | some value => return value
  | none => callFunction context name [] none

def globalValue (name : String) : Run Value := return ((← get).globals.lookup name).getD .nil

def setGlobal (name : String) (value : Value) : Run Unit :=
  modify fun store => { store with globals := assign name value store.globals }

def constantValue (name : String) : Run Value :=
  if (classTable.lookup name).isSome then return .classRef name .shared
  else Run.raise "NameError" ("uninitialized constant " ++ name)

def spread (context : Context) (value : Value) : Run (List Value) :=
  match value with
  | .array address => ArrayMethod.list address
  | .range start stop exclusive id => RangeObject.elements ⟨start, stop, exclusive, id⟩ context
  | .nil => return []
  | _ => return [value]

def isSplat : PlainExpr → Bool
  | .splat .. => true
  | _ => false

/-- The values that a multiple assignment hands out: a single array on the right is taken apart. -/
def assignedValues (exprs : List PlainExpr) (values : List Value) : Run (List Value) :=
  match exprs, values with
  | [expr], [.array address] =>
    if isSplat expr then return values else ArrayMethod.list address
  | _, _ => return values

def newBlock (closure : Closure) : Run Address :=
  modifyGet fun store =>
    (store.closures.size, { store with closures := store.closures.push closure })

/-- Runs a call that carries a block; a `break` in the block ends the call. -/
def catchBreak (call : Run Value) : Run Value :=
  tryCatch call fun signal => match signal with
    | .jump .breakJump value => return value
    | _ => throw signal

def loopBody (body : Run Value) : Run (Option Value) :=
  tryCatch (do let _ ← body; return none) fun signal => match signal with
    | .jump .nextJump _ => return none
    | .jump .breakJump value => return some value
    | _ => throw signal

mutual

def expr (context : Context) (env : Environment) : PlainExpr → Run Value
  | .literal loc value => return .ofLiteral loc value
  | .symbol loc name => Run.newSymbol (.written loc name)
  | .name _ name => nameValue context env name
  | .global _ name => globalValue name
  | .constant _ name => constantValue name
  | .array _ elements => do Run.newList (← exprs context env elements)
  | .splat .. => Run.raise "SyntaxError" "unexpected splat"
  | .range _ start stop exclusive => do
    let start ← expr context env start
    Run.newRange start (← expr context env stop) exclusive
  | .binary _ op left right => do
    let left ← expr context env left
    match op with
    | .logicalAnd | .keywordAnd => if left.truthy then expr context env right else return left
    | .logicalOr | .keywordOr => if left.truthy then return left else expr context env right
    | _ => Operator.binary context op left (← expr context env right)
  | .unary _ op operand => do Operator.unary op (← expr context env operand)
  | .ternary _ condition thenValue elseValue => do
    if (← expr context env condition).truthy then expr context env thenValue
    else expr context env elseValue
  | .lambda _ _ params body => Run.newProc { params, body, env, isLambda := true }
  | .call _ receiver method args block _ => do
    let block ← match block with
      | none => pure none
      | some (.mk _ _ params body) => some <$> newBlock { params, body, env, isLambda := false }
    let call ← match receiver with
      | none => do
        let args ← exprs context env args
        pure (callFunction context method args block)
      | some receiver => do
        let receiver ← expr context env receiver
        let args ← exprs context env args
        pure (send context receiver method args block)
    if block.isSome then catchBreak call else call
  | .index _ value args => do
    let receiver ← expr context env value
    send context receiver "[]" (← exprs context env args) none
  | .assign _ target value => do
    let value ← expr context env value
    assignTo context env value target
    return value
  | .opAssign _ (.index _ receiver args) op value => do
    let receiver ← expr context env receiver
    let args ← exprs context env args
    let current ← send context receiver "[]" args none
    let store (value : Value) : Run Value := do
      let _ ← send context receiver "[]=" (args ++ [value]) none
      return value
    let storeNew (value : Value) : Run Value :=
      if value.sameObject current then return value else store value
    match op with
    | .logicalOr =>
      if current.truthy then return current else storeNew (← expr context env value)
    | .logicalAnd =>
      if current.truthy then storeNew (← expr context env value) else return current
    | _ => store (← Operator.binary context op current (← expr context env value))
  | .opAssign _ target op value => do
    let current ← match target with
      | .name _ name => pure (((← get).valueOf? name env).getD .nil)
      | .global _ name => globalValue name
      | _ => expr context env target
    let value ← match op with
      | .logicalOr => if current.truthy then pure current else expr context env value
      | .logicalAnd => if current.truthy then expr context env value else pure current
      | _ => do Operator.binary context op current (← expr context env value)
    assignTo context env value target
    return value
  | .multiAssign _ targets values => do
    let assigned ← assignedValues values (← exprs context env values)
    assignAll context env targets assigned
    Run.newList assigned
  | .block _ => Run.fault (.expressionKind "BlockLiteral")
  | .param _ => Run.fault (.expressionKind "Param")
  | .stmt stmt => Run.fault (.expressionKind stmt.label)

def exprs (context : Context) (env : Environment) : List PlainExpr → Run (List Value)
  | [] => return []
  | .splat _ value :: rest => do
    let values ← spread context (← expr context env value)
    return values ++ (← exprs context env rest)
  | first :: rest => do
    let value ← expr context env first
    return value :: (← exprs context env rest)

def assignTo (context : Context) (env : Environment) (value : Value) : PlainExpr → Run Unit
  | .name _ name => Run.setVariable env name value
  | .global _ name => setGlobal name value
  | .index _ receiver args => do
    let receiver ← expr context env receiver
    let args ← exprs context env args
    let _ ← send context receiver "[]=" (args ++ [value]) none
    return ()
  | target => Run.fault (.targetKind target.label)

/-- Assigns values to targets in order; targets without a value become nil. -/
def assignAll (context : Context) (env : Environment) : List PlainExpr → List Value → Run Unit
  | [], _ => return ()
  | target :: rest, values => do
    assignTo context env (values.headD .nil) target
    assignAll context env rest values.tail

def stmt (context : Context) (env : Environment) : PlainStmt → Run Value
  | .define loc _ name params body => do
    modify fun store => { store with methods := assign name ⟨params, body⟩ store.methods }
    Run.newSymbol (.written loc name)
  | .expression _ value => expr context env value
  | .conditional _ condition thenBody elseBody negated _ _ => do
    let holds := (← expr context env condition).truthy
    if holds != negated then stmts context env .nil thenBody
    else stmts context env .nil elseBody
  | .whileLoop _ condition body =>
    let round : Run (Option Value) := do
      if (← expr context env condition).truthy then loopBody (stmts context env .nil body)
      else return some .nil
    Run.repeatUntil round context.rounds
  | .jump _ kind none => throw (.jump kind .nil)
  | .jump _ kind (some value) => do throw (.jump kind (← expr context env value))
  | .bare value => Run.fault (.statementKind value.label)

/-- Runs statements after one whose value was `last`; the last value is theirs. -/
def stmts (context : Context) (env : Environment) (last : Value) : List PlainStmt → Run Value
  | [] => return last
  | first :: rest => do
    let value ← stmt context env first
    stmts context env value rest

end

/-- Gives the parameters of a call their values, in a frame of their own.  A parameter without a
value takes its default; one without a default is nil when `fill` says so. -/
def bindParams (context : Context) (frame : FrameId) (env : Environment) (fill : Bool) :
    List PlainParam → List Value → Run Unit
  | [], _ => return ()
  | .mk name _ _ :: rest, value :: values => do
    Run.define frame name value
    bindParams context frame env fill rest values
  | .mk name _ (some default) :: rest, [] => do
    Run.define frame name (← expr context (frame :: env) default)
    bindParams context frame env fill rest []
  | .mk name _ none :: rest, [] => do
    if fill then Run.define frame name .nil
    bindParams context frame env fill rest []

def requiredCount (params : List PlainParam) : Nat :=
  (params.filter fun param => param.default.isNone).length

def checkCount (params : List PlainParam) (args : List Value) (expected : String) : Run Unit := do
  if args.length < requiredCount params ∨ params.length < args.length then
    Run.raise "ArgumentError" ("wrong number of arguments (given " ++ toString args.length ++
      ", expected " ++ expected ++ ")")

def catchReturn (body : Run Value) : Run Value :=
  tryCatch body fun signal => match signal with
    | .jump .returnJump value => return value
    | _ => throw signal

def callMethod (context : Context) (method : Method) (args : List Value) : Run Value := do
  let required := requiredCount method.params
  let most := method.params.length
  checkCount method.params args
    (if required = most then toString required else toString required ++ ".." ++ toString most)
  let frame ← Run.newFrame []
  bindParams context frame [] false method.params args
  catchReturn (stmts context [frame] .nil method.body)

/-- Runs the body of a lambda; every jump leaves it. -/
def catchJump (body : Run Value) : Run Value :=
  tryCatch body fun signal => match signal with
    | .jump _ value => return value
    | _ => throw signal

/-- Runs the body of a block, which `next` leaves. -/
def catchNext (body : Run Value) : Run Value :=
  tryCatch body fun signal => match signal with
    | .jump .nextJump value => return value
    | _ => throw signal

/-- The arguments that a block's parameters get: several parameters take a single array apart, and
what is too much is dropped. -/
def blockArgs (params : List PlainParam) (args : List Value) : Run (List Value) :=
  match args with
  | [.array address] =>
    if 1 < params.length then return (← ArrayMethod.list address).take params.length
    else return args.take params.length
  | _ => return args.take params.length

def callClosure (context : Context) (closure : Closure) (args : List Value) : Run Value := do
  if closure.isLambda then
    checkCount closure.params args (toString closure.params.length)
    let frame ← Run.newFrame []
    bindParams context frame closure.env false closure.params args
    catchJump (stmts context (frame :: closure.env) .nil closure.body)
  else
    let args ← blockArgs closure.params args
    let frame ← Run.newFrame []
    bindParams context frame closure.env true closure.params args
    catchNext (stmts context (frame :: closure.env) .nil closure.body)

def callProc (context : Context) (address : Address) (args : List Value) : Run Value := do
  match ← Run.closure? address with
  | some closure => callClosure context closure args
  | none => return .nil

/-- The context of code from which calls may still be nested `depth` deep. -/
def contextAt (limits : Limits) : (depth : Nat) → Context
  | 0 =>
    { callProc := fun _ _ => throw .tooDeep
      callMethod := fun _ _ => throw .tooDeep
      nesting := limits.nesting
      rounds := limits.rounds
      memory := limits.memory }
  | depth + 1 =>
    let inner := contextAt limits depth
    { callProc := callProc inner
      callMethod := callMethod inner
      nesting := limits.nesting
      rounds := limits.rounds
      memory := limits.memory }

end Evaluate

def Limits.context (limits : Limits) : Context := Evaluate.contextAt limits limits.calls

end Hoist
