import Hoist.Eval.Session
import Hoist.Proofs.Eval.Methods

/-!
Confinement of running code.  Whatever an expression, a statement or a call does, what is hidden
stays as it is and stays hidden.  In particular every store that a program reaches is closed: no
value leads to an array, and no closure to a frame, that does not exist.
-/

namespace Hoist

open List

open Run

/-- No value leads to an array that does not exist, and no closure to such a frame. -/
abbrev Store.Closed (store : Store) : Prop := store.Guards .none

variable {hidden : Hidden} {store after : Store} {context : Context} {out : JumpKind → Prop}

/-- Only a `return` gets out of an expression, and out of the call of a method or a lambda. -/
abbrev Outward (kind : JumpKind) : Prop := kind = .returnJump

/-- The calls that code can make are confined. -/
structure Context.Guarded (hidden : Hidden) (context : Context) : Prop where
  block : ∀ {store : Store} {address : Address} {args : List Value}, AllKnown hidden store args →
    Run.Knows hidden (· ≠ .nextJump) store (context.callProc address args)
  lambda : ∀ {store : Store} {address : Address} {isLambda : Bool} {args : List Value},
    (Value.proc address isLambda).Known hidden store → AllKnown hidden store args →
      Run.Knows hidden Outward store (context.callProc address args)
  method : ∀ {store : Store} {method : Method} {args : List Value},
    CodeContained hidden.blocks false method.params method.body → AllKnown hidden store args →
      Run.Knows hidden Outward store (context.callMethod method args)

theorem Context.Guarded.plain (guarded : context.Guarded hidden) :
    context.Confined hidden Outward none := ⟨fun _ => .raise _ _, guarded.lambda⟩

theorem Outward.not_next {kind : JumpKind} (outward : Outward kind) : kind ≠ .nextJump := by
  rintro rfl
  cases outward

theorem Context.Guarded.withBlock (guarded : context.Guarded hidden) (block : Address) :
    context.Confined hidden (· ≠ .nextJump) (some block) :=
  ⟨guarded.block, fun known args => (guarded.lambda known args).widen fun _ _ => Outward.not_next⟩

namespace Evaluate

variable {args : List Value} {run : Run Value}

section Calls

theorem confined_callFunction (guarded : context.Guarded hidden) {block : Option Address}
    (confined : context.Confined hidden out block) (returns : ∀ kind, Outward kind → out kind)
    {name : String} (allowed : hidden.blocks → name ≠ "proc") (known : AllKnown hidden store args) :
    Run.Knows hidden out store (callFunction context name args block) := by
  refine Confined.guarded fun guards => Confined.get ?_
  split
  next method found =>
    exact (guarded.method (guards.methods _ (mem_of_lookup found)) known).widen fun _ => returns
  split
  next builtin found =>
    exact Kernel.confined_table _ (mem_of_lookup found) allowed context store () args block confined
      trivial known
  next =>
    split
    · exact .raise _ _
    · exact .raise _ _

/-- A variable of an environment that code can see has a known value. -/
theorem known_valueOf? (guards : store.Guards hidden) {name : String} {env : Environment}
    (envKnown : Environment.Known hidden store env) {value : Value}
    (found : store.valueOf? name env = some value) : value.Known hidden store := by
  induction env with
  | nil => cases found
  | cons id rest ih =>
    rw [Store.valueOf?] at found
    split at found
    next inner isInner =>
      cases found
      exact guards.frames id (envKnown id mem_cons_self).2 _ (mem_of_lookup isInner)
    next =>
      exact ih (fun id member => envKnown id (mem_cons_of_mem _ member)) found

theorem confined_nameValue (guarded : context.Guarded hidden) {env : Environment}
    (envKnown : Environment.Known hidden store env) {name : String}
    (allowed : hidden.blocks → name ≠ "proc") :
    Run.Knows hidden Outward store (nameValue context env name) := by
  refine Confined.guarded fun guards => Confined.get ?_
  split
  next value found => exact .pure (known_valueOf? guards envKnown found)
  next => exact confined_callFunction guarded guarded.plain (fun _ => id) allowed allKnown_nil

theorem confined_globalValue (name : String) : Run.Knows hidden out store (globalValue name) := by
  refine Confined.guarded fun guards => Confined.get (.pure ?_)
  cases found : store.globals.lookup name with
  | none => trivial
  | some value => exact guards.globals _ (mem_of_lookup found)

theorem confined_setGlobal (name : String) {value : Value} (known : value.Known hidden store) :
    Run.Stays hidden out store (setGlobal name value) := by
  refine .ofModify (fun _ => .of_eq rfl rfl rfl) fun guards => ?_
  refine guards.of_eq rfl rfl rfl (fun _ => .inl) fun entry member => ?_
  rcases mem_assign member with rfl | member
  · exact .inr known
  · exact .inl member

theorem confined_constantValue (name : String) :
    Run.Knows hidden out store (constantValue name) := by
  unfold constantValue
  split
  · exact .pure trivial
  · exact .raise _ _

theorem confined_spread {value : Value} (known : value.Known hidden store) :
    Run.Confined hidden out (AllKnown hidden) store (spread context value) := by
  unfold spread
  split
  · exact (ArrayMethod.asks_list known.2).confined fun _ known => known
  · exact RangeMethod.confined_elements _ context
  · exact .pure allKnown_nil
  · exact .pure (forall_mem_singleton.2 known)

theorem asks_assignedValues (exprs : List PlainExpr) {values : List Value}
    (known : AllKnown hidden store values) :
    Asks hidden (AllKnown hidden store) store (assignedValues exprs values) := by
  unfold assignedValues
  split
  · split
    · exact .pure known
    · exact ArrayMethod.asks_list (allKnown_cons.1 known).1.2
  · exact .pure known

theorem confined_newBlock {closure : Closure} (known : closure.Known hidden store) :
    Run.Stays hidden out store (newBlock closure) :=
  .ofModifyGet (fun _ => Store.grows_pushClosure _) (fun guards => guards.pushClosure known)
    fun _ => trivial

/-- A handler that turns some jumps into their values and lets the others out. -/
theorem confined_catch {inner : JumpKind → Prop} {handler : Signal → Run Value}
    (handles : ∀ signal, handler signal = throw signal ∧
        (∀ kind value, signal = .jump kind value → inner kind → out kind) ∨
      ∃ kind value, signal = .jump kind value ∧ handler signal = pure value)
    (runs : Run.Knows hidden inner store run) :
    Run.Knows hidden out store (tryCatch run handler) := by
  refine runs.tryCatch fun after signal _ known => ?_
  obtain ⟨same, leaves⟩ | ⟨kind, value, rfl, same⟩ := handles signal
  · rw [same]
    refine .throw ?_
    cases signal with
    | jump kind value => exact ⟨known.1, fun hides => leaves kind value rfl (known.2 hides)⟩
    | _ => trivial
  · rw [same]
    exact .pure known.1

theorem confined_catchBreak (runs : Run.Knows hidden (· ≠ .nextJump) store run) :
    Run.Knows hidden Outward store (catchBreak run) := by
  refine confined_catch (fun signal => ?_) runs
  rcases signal with _ | ⟨_ | _ | _, value⟩
  case jump.breakJump => exact .inr ⟨_, _, rfl, rfl⟩
  all_goals exact .inl ⟨rfl, by rintro kind value ⟨⟩ <;> simp⟩

theorem confined_catchReturn (runs : Run.Knows hidden (JumpKind.Free false) store run) :
    Run.Knows hidden out store (catchReturn run) := by
  refine confined_catch (fun signal => ?_) runs
  rcases signal with _ | ⟨_ | _ | _, value⟩
  case jump.returnJump => exact .inr ⟨_, _, rfl, rfl⟩
  all_goals exact .inl ⟨rfl, by rintro kind value ⟨⟩ <;> simp [JumpKind.Free]⟩

theorem confined_catchJump {inner : JumpKind → Prop} (runs : Run.Knows hidden inner store run) :
    Run.Knows hidden out store (catchJump run) := by
  refine confined_catch (fun signal => ?_) runs
  cases signal with
  | jump => exact .inr ⟨_, _, rfl, rfl⟩
  | _ => exact .inl ⟨rfl, nofun⟩

theorem confined_catchNext (runs : Run.Knows hidden (JumpKind.Free true) store run) :
    Run.Knows hidden (· ≠ .nextJump) store (catchNext run) := by
  refine confined_catch (fun signal => ?_) runs
  rcases signal with _ | ⟨_ | _ | _, value⟩
  case jump.nextJump => exact .inr ⟨_, _, rfl, rfl⟩
  all_goals exact .inl ⟨rfl, by rintro kind value ⟨⟩ <;> simp⟩

theorem confined_loopBody {caught : Bool} {body : Run Value}
    (runs : Run.Knows hidden (JumpKind.Free true) store body) :
    Run.Confined hidden (JumpKind.Free caught) (fun after result => ∀ value, result = some value →
      value.Known hidden after) store (loopBody body) := by
  refine (runs.bind fun _ _ _ _ => .pure nofun).tryCatch fun after signal _ known => ?_
  rcases signal with _ | ⟨_ | _ | _, value⟩
  case jump.breakJump => exact .pure fun _ same => by cases same; exact known.1
  case jump.nextJump => exact .pure nofun
  case jump.returnJump => exact .throw ⟨known.1, fun _ => .inr rfl⟩
  all_goals exact .throw trivial

end Calls

section Updating

variable (guarded : context.Guarded hidden) {env : Environment} {op : BinaryOp}
  {value : PlainExpr}
  (values : ∀ after, store.Grows hidden after →
    Run.Knows hidden Outward after (expr context env value))

include guarded values in
theorem confined_updateElement {loc indexLoc : Loc} {receiver : PlainExpr} {args : List PlainExpr}
    (receivers : Run.Knows hidden Outward store (expr context env receiver))
    (arguments : ∀ after, store.Grows hidden after →
      Run.Confined hidden Outward (AllKnown hidden) after (exprs context env args)) :
    Run.Knows hidden Outward store
      (expr context env (.opAssign loc (.index indexLoc receiver args) op value)) := by
  refine receivers.bind fun first receiver grows receiverKnown => ?_
  refine (arguments first grows).bind fun second args grows' argsKnown => ?_
  refine (confined_send guarded.plain argsKnown (receiverKnown.mono grows') "[]").bind
    fun third current grows'' currentKnown => ?_
  have assigned := values third (grows.trans (grows'.trans grows''))
  have stores (last : Store) (value : Value) (later : third.Grows hidden last)
      (known : value.Known hidden last) : Run.Knows hidden Outward last (do
        let _ ← send context receiver "[]=" (args ++ [value]) none
        return value) := by
    refine (confined_send guarded.plain ((argsKnown.mono (grows''.trans later)).append
      (forall_mem_singleton.2 known))
      (receiverKnown.mono (grows'.trans (grows''.trans later))) "[]=").bind
      fun _ _ grows _ => .pure (known.mono grows)
  have storesNew (last : Store) (value : Value) (later : third.Grows hidden last)
      (known : value.Known hidden last) : Run.Knows hidden Outward last
        (if value.sameObject current then return value else do
          let _ ← send context receiver "[]=" (args ++ [value]) none
          return value) := by
    split
    · exact .pure known
    · exact stores last value later known
  dsimp only
  split
  · split
    · exact .pure currentKnown
    · exact assigned.bind fun last value later known => storesNew last value later known
  · split
    · exact assigned.bind fun last value later known => storesNew last value later known
    · exact .pure currentKnown
  · refine assigned.bind fun last value later known => ?_
    exact (Operator.confined_binary op (currentKnown.mono later) known).bind
      fun final result later' known => stores final result (later.trans later') known

include values in
theorem confined_updateVariable {current : Run Value} {target : PlainExpr}
    (currents : Run.Knows hidden Outward store current)
    (assigns : ∀ after value, store.Grows hidden after → value.Known hidden after →
      Run.Stays hidden Outward after (assignTo context env value target)) :
    Run.Knows hidden Outward store (do
      let current ← current
      let value ← match op with
        | .logicalOr => if current.truthy then pure current else expr context env value
        | .logicalAnd => if current.truthy then expr context env value else pure current
        | _ => do Operator.binary context op current (← expr context env value)
      assignTo context env value target
      return value) := by
  refine currents.bind fun first current grows currentKnown => ?_
  have finish (after : Store) (value : Value) (later : first.Grows hidden after)
      (known : value.Known hidden after) : Run.Knows hidden Outward after (do
        assignTo context env value target
        return value) :=
    (assigns after value (grows.trans later) known).bind fun _ _ later _ =>
      .pure (known.mono later)
  have assigned := values first grows
  dsimp only
  split
  · split
    · exact finish first current (.refl first) currentKnown
    · exact assigned.bind fun after value later known => finish after value later known
  · split
    · exact assigned.bind fun after value later known => finish after value later known
    · exact finish first current (.refl first) currentKnown
  · refine assigned.bind fun after value later known => ?_
    exact (Operator.confined_binary op (currentKnown.mono later) known).bind
      fun last value later' known => finish last value (later.trans later') known

end Updating

attribute [local simp] Node.children Node.exprs Node.stmts

mutual

theorem confined_expr (guarded : context.Guarded hidden) {env : Environment} {store : Store}
    (envKnown : Environment.Known hidden store env) {caught : Bool} : (tree : PlainExpr) →
    (Node.expr tree).Contained hidden.blocks caught →
      Run.Knows hidden Outward store (expr context env tree)
  | .literal _ value, _ => by
    refine .pure ?_
    cases value <;> trivial
  | .symbol .., _ => confined_newSymbol _
  | .name _ name, held => confined_nameValue guarded envKnown held.tame
  | .global _ name, _ => confined_globalValue name
  | .constant _ name, _ => confined_constantValue name
  | .array _ elements, held =>
    (confined_exprs guarded envKnown elements fun _ member => held.part (by simp [member])).bind
      fun _ _ _ known => confined_newList known
  | .splat .., _ => .raise _ _
  | .range _ start stop exclusive, held => by
    refine (confined_expr guarded envKnown start (held.part (by simp))).bind
      fun after start grows startKnown => ?_
    refine (confined_expr guarded (envKnown.mono grows) stop (held.part (by simp))).bind
      fun last stop grows' stopKnown => ?_
    exact confined_newRange (startKnown.mono grows') stopKnown exclusive
  | .binary _ op left right, held => by
    refine (confined_expr guarded envKnown left (held.part (by simp))).bind
      fun after left grows leftKnown => ?_
    have rightConfined := confined_expr guarded (envKnown.mono grows) right (held.part (by simp))
    split
    · split
      · exact rightConfined
      · exact .pure leftKnown
    · split
      · exact rightConfined
      · exact .pure leftKnown
    · split
      · exact .pure leftKnown
      · exact rightConfined
    · split
      · exact .pure leftKnown
      · exact rightConfined
    · exact rightConfined.bind fun last right grows' rightKnown =>
        Operator.confined_binary op (leftKnown.mono grows') rightKnown
  | .unary _ op operand, held =>
    (confined_expr guarded envKnown operand (held.part (by simp))).bind fun _ _ _ known =>
      Operator.confined_unary op known
  | .ternary _ condition thenValue elseValue, held => by
    refine (confined_expr guarded envKnown condition (held.part (by simp))).bind
      fun after value grows _ => ?_
    split
    · exact confined_expr guarded (envKnown.mono grows) thenValue (held.part (by simp))
    · exact confined_expr guarded (envKnown.mono grows) elseValue (held.part (by simp))
  | .lambda .., held => confined_newProc ⟨envKnown, held.code rfl⟩ rfl
  | .call _ none method args none _, held =>
    (confined_exprs guarded envKnown args fun _ member => held.part (by simp [member])).bind
      fun _ _ _ known => confined_callFunction guarded guarded.plain (fun _ => id) held.tame known
  | .call _ none method args (some (.mk _ _ params body)) _, held => by
    change Run.Knows hidden Outward store (do
      let block ← newBlock ⟨params, body, env, false⟩
      let args ← exprs context env args
      catchBreak (callFunction context method args (some block)))
    refine (confined_newBlock ⟨envKnown, held.block⟩).bind
      fun after block grows _ => ?_
    refine (confined_exprs guarded (envKnown.mono grows) args
      fun _ member => held.part (by simp [member])).bind fun _ _ _ known => ?_
    exact confined_catchBreak (confined_callFunction guarded (guarded.withBlock block)
      (fun _ => Outward.not_next) held.tame known)
  | .call _ (some receiver) method args none _, held => by
    refine (confined_expr guarded envKnown receiver (held.part (by simp))).bind
      fun after receiver grows receiverKnown => (confined_exprs guarded (envKnown.mono grows) args
        fun _ member => held.part (by simp [member])).bind fun _ _ grows' known => ?_
    exact confined_send guarded.plain known (receiverKnown.mono grows') method
  | .call _ (some receiver) method args (some (.mk _ _ params body)) _, held => by
    change Run.Knows hidden Outward store (do
      let block ← newBlock ⟨params, body, env, false⟩
      let receiver ← expr context env receiver
      let args ← exprs context env args
      catchBreak (send context receiver method args (some block)))
    refine (confined_newBlock ⟨envKnown, held.block⟩).bind
      fun middle block grows _ => ?_
    refine (confined_expr guarded (envKnown.mono grows) receiver (held.part (by simp))).bind
      fun after receiver grows' receiverKnown => (confined_exprs guarded
        (envKnown.mono (grows.trans grows')) args fun _ member => held.part (by simp [member])).bind
        fun _ _ grows' known => ?_
    exact confined_catchBreak
      (confined_send (guarded.withBlock block) known (receiverKnown.mono grows') method)
  | .index _ value args, held => by
    refine (confined_expr guarded envKnown value (held.part (by simp))).bind
      fun after receiver grows receiverKnown => (confined_exprs guarded (envKnown.mono grows) args
        fun _ member => held.part (by simp [member])).bind fun _ _ grows' known => ?_
    exact confined_send guarded.plain known (receiverKnown.mono grows') "[]"
  | .assign _ target value, held => by
    refine (confined_expr guarded envKnown value (held.part (by simp))).bind
      fun after value grows known => ?_
    refine (confined_assignTo guarded (envKnown.mono grows) known target
      (held.child .target (by simp))).bind fun _ _ grows _ => .pure (known.mono grows)
  | .opAssign _ target op value, held => by
    have values (after : Store) (grows : store.Grows hidden after) :=
      confined_expr guarded (envKnown.mono grows) value (held.part (by simp))
    have heldTarget := held.child .target (by simp : (_, Node.expr target) ∈ _)
    cases target with
    | index _ receiver args =>
      exact confined_updateElement guarded values
        (confined_expr guarded envKnown receiver (heldTarget.part (by simp)))
        fun after grows => confined_exprs guarded (envKnown.mono grows) args
          fun _ member => heldTarget.part (by simp [member])
    | name loc name =>
      have assigns (after : Store) (value : Value) (grows : store.Grows hidden after)
          (known : value.Known hidden after) : Run.Stays hidden Outward after
            (assignTo context env value (.name loc name)) :=
        confined_setVariable (envKnown.mono grows) name known
      have reads : Run.Knows hidden Outward store
          (do return ((← get).valueOf? name env).getD .nil) := by
        refine Confined.guarded fun guards => Confined.get (.pure ?_)
        cases found : store.valueOf? name env with
        | none => trivial
        | some value => exact known_valueOf? guards envKnown found
      exact confined_updateVariable values reads assigns
    | global _ name =>
      exact confined_updateVariable values (confined_globalValue name)
        fun after value grows known =>
        confined_setGlobal name known
    | _ =>
      exact confined_updateVariable values (confined_expr guarded envKnown _ heldTarget)
        fun after value grows known => .fault _
  | .multiAssign _ targets values, held => by
    refine (confined_exprs guarded envKnown values fun _ member =>
      held.part (by simp [member])).bind
      fun after values grows known => ?_
    refine (asks_assignedValues _ known).bind fun assigned known => ?_
    refine (confined_assignAll guarded (envKnown.mono grows) known targets
      fun _ member => held.child .target (by simp [member])).bind
      fun _ _ grows _ => confined_newList (known.mono grows)
  | .block _, _ | .param _, _ | .stmt _, _ => .fault _

theorem confined_exprs (guarded : context.Guarded hidden) {env : Environment} {store : Store}
    (envKnown : Environment.Known hidden store env) {caught : Bool} : (trees : List PlainExpr) →
    (∀ tree ∈ trees, (Node.expr tree).Contained hidden.blocks caught) →
      Run.Confined hidden Outward (AllKnown hidden) store (exprs context env trees)
  | [], _ => .pure allKnown_nil
  | first :: rest, held => by
    obtain ⟨heldFirst, heldRest⟩ := forall_mem_cons.1 held
    have others (after : Store) (grows : store.Grows hidden after) :=
      confined_exprs guarded (envKnown.mono grows) rest heldRest
    have values := confined_expr guarded envKnown first heldFirst
    cases first with
    | splat _ value =>
      refine (confined_expr guarded envKnown value (heldFirst.part (by simp))).bind
        fun after value grows known => ?_
      refine (confined_spread known).bind fun last values grows' known => ?_
      exact (others last (grows.trans grows')).bind fun _ _ later others =>
        .pure ((known.mono later).append others)
    | _ =>
      exact values.bind fun after value grows known => (others after grows).bind
        fun _ _ later others => .pure (allKnown_cons.2 ⟨known.mono later, others⟩)

theorem confined_assignTo (guarded : context.Guarded hidden) {env : Environment}
    {store : Store} {value : Value} (envKnown : Environment.Known hidden store env)
    (known : value.Known hidden store) {caught : Bool} (tree : PlainExpr)
    (held : (Node.expr tree).Contained hidden.blocks caught) :
    Run.Stays hidden Outward store (assignTo context env value tree) := by
  cases tree with
  | name _ name => exact confined_setVariable envKnown name known
  | global _ name => exact confined_setGlobal name known
  | index _ receiver args =>
    refine (confined_expr guarded envKnown receiver (held.part (by simp))).bind
      fun after receiver grows receiverKnown => ?_
    refine (confined_exprs guarded (envKnown.mono grows) args
      fun _ member => held.part (by simp [member])).bind fun last args grows' argsKnown => ?_
    have all := argsKnown.append (forall_mem_singleton.2 (known.mono (grows.trans grows')))
    exact (confined_send guarded.plain all (receiverKnown.mono grows') "[]=").bind
      fun _ _ _ _ => .pure trivial
  | _ => exact .fault _

theorem confined_assignAll (guarded : context.Guarded hidden) {env : Environment}
    {store : Store} {values : List Value} (envKnown : Environment.Known hidden store env)
    (known : AllKnown hidden store values) {caught : Bool} : (trees : List PlainExpr) →
    (∀ tree ∈ trees, (Node.expr tree).Contained hidden.blocks caught) →
      Run.Stays hidden Outward store (assignAll context env trees values)
  | [], _ => .pure trivial
  | target :: rest, held => by
    have headKnown : (values.headD .nil).Known hidden store := by
      cases values with
      | nil => trivial
      | cons first others => exact (allKnown_cons.1 known).1
    obtain ⟨heldTarget, heldRest⟩ := forall_mem_cons.1 held
    refine (confined_assignTo guarded envKnown headKnown target heldTarget).bind
      fun after _ grows _ => ?_
    exact confined_assignAll guarded (envKnown.mono grows)
      ((known.subset fun _ => mem_of_mem_tail).mono grows) rest heldRest

theorem confined_stmt (guarded : context.Guarded hidden) {env : Environment} {store : Store}
    (envKnown : Environment.Known hidden store env) {caught : Bool} : (tree : PlainStmt) →
    (Node.stmt tree).Contained hidden.blocks caught →
      Run.Knows hidden (JumpKind.Free caught) store (stmt context env tree)
  | .define loc _ name params body, held => by
    refine (Confined.ofModify (fun _ => .of_eq rfl rfl rfl) fun guards => ?_).bind
      fun _ _ _ _ => confined_newSymbol _
    refine guards.of_eq rfl rfl rfl (fun entry member => ?_) fun _ => .inl
    rcases mem_assign member with rfl | member
    · exact .inr (held.code rfl)
    · exact .inl member
  | .expression _ value, held =>
    (confined_expr guarded envKnown value (held.part (by simp))).widen fun _ _ => .inr
  | .conditional _ condition thenBody elseBody negated modifier _, held => by
    have heldCondition : (Node.expr condition).Contained hidden.blocks caught :=
      held.part (by cases modifier <;> simp)
    have heldThen (tree : PlainStmt) (member : tree ∈ thenBody) :
        (Node.stmt tree).Contained hidden.blocks caught :=
      held.part (by cases modifier <;> simp [member])
    have heldElse (tree : PlainStmt) (member : tree ∈ elseBody) :
        (Node.stmt tree).Contained hidden.blocks caught :=
      held.part (by cases modifier <;> simp [member])
    refine ((confined_expr guarded envKnown condition heldCondition).widen fun _ _ => .inr).bind
      fun after value grows _ => ?_
    dsimp only
    split
    · exact confined_stmts guarded (envKnown.mono grows) .nil trivial thenBody heldThen
    · exact confined_stmts guarded (envKnown.mono grows) .nil trivial elseBody heldElse
  | .whileLoop _ condition body, held => by
    refine confined_repeatUntil (fun after grows => ?_) _
    refine ((confined_expr guarded (envKnown.mono grows) condition (held.part (by simp))).widen
      fun _ _ => .inr).bind fun last value grows' _ => ?_
    split
    · exact confined_loopBody (confined_stmts guarded (envKnown.mono (grows.trans grows')) .nil
        trivial body fun _ member => held.child .loop (by simp [member]))
    · exact .pure fun _ same => by cases same; trivial
  | .jump _ kind none, held => .throw ⟨trivial, held.tame⟩
  | .jump _ kind (some value), held =>
    ((confined_expr guarded envKnown value (held.part (by simp))).widen fun _ _ => .inr).bind
      fun _ _ _ known => .throw ⟨known, held.tame⟩
  | .bare _, _ => .fault _

theorem confined_stmts (guarded : context.Guarded hidden) {env : Environment} {store : Store}
    (envKnown : Environment.Known hidden store env) (last : Value)
    (known : last.Known hidden store) {caught : Bool} : (trees : List PlainStmt) →
    (∀ tree ∈ trees, (Node.stmt tree).Contained hidden.blocks caught) →
      Run.Knows hidden (JumpKind.Free caught) store (stmts context env last trees)
  | [], _ => .pure known
  | first :: rest, held =>
    (confined_stmt guarded envKnown first (held first mem_cons_self)).bind
      fun _ value grows known => confined_stmts guarded (envKnown.mono grows) value known rest
        fun tree member => held tree (mem_cons_of_mem _ member)

end

section Calling

variable (guarded : context.Guarded hidden) {caught : Bool}

include guarded in
theorem confined_bindParams {frame : FrameId} (shown : ¬hidden.frames frame) (env : Environment)
    (fill : Bool) (params : List PlainParam)
    (held : ∀ param ∈ params, (Node.param param).Contained hidden.blocks caught)
    (envKnown : Environment.Known hidden store (frame :: env))
    (known : AllKnown hidden store args) :
    Run.Stays hidden Outward store (bindParams context frame env fill params args) := by
  induction params generalizing store args with
  | nil => exact .pure trivial
  | cons param rest ih =>
    obtain ⟨name, loc, default?⟩ := param
    obtain ⟨heldParam, heldRest⟩ := forall_mem_cons.1 held
    have others (after : Store) (grows : store.Grows hidden after) {args : List Value}
        (known : AllKnown hidden store args) :=
      ih heldRest (envKnown.mono grows) (known.mono grows)
    cases args with
    | cons value values =>
      obtain ⟨valueKnown, valuesKnown⟩ := allKnown_cons.1 known
      exact (confined_define shown name valueKnown).bind fun after _ grows _ =>
        others after grows valuesKnown
    | nil =>
      cases default? with
      | some default =>
        refine (confined_expr guarded envKnown default (heldParam.part (by simp))).bind
          fun after value grows known => ?_
        exact (confined_define shown name known).bind fun last _ grows' _ =>
          others last (grows.trans grows') allKnown_nil
      | none =>
        unfold bindParams
        dsimp only
        split
        · have nilKnown : Value.nil.Known hidden store := trivial
          exact (confined_define shown name nilKnown).bind fun after _ grows _ =>
            others after grows allKnown_nil
        · exact others store (.refl store) allKnown_nil

theorem asks_checkCount (params : List PlainParam) (args : List Value) (expected : String) :
    Asks hidden (fun _ => True) store (checkCount params args expected) := by
  unfold checkCount
  split
  · exact .raise _ _
  · exact .pure trivial

include guarded in
theorem confined_activation {params : List PlainParam} {body : List PlainStmt} {env : Environment}
    (fill : Bool) {catching : Run Value → Run Value} (returns : ∀ kind, Outward kind → out kind)
    (held : CodeContained hidden.blocks caught params body)
    (envKnown : Environment.Known hidden store env) (known : AllKnown hidden store args)
    (catches : ∀ {after : Store} {run : Run Value},
      Run.Knows hidden (JumpKind.Free caught) after run →
        Run.Knows hidden out after (catching run)) :
    Run.Knows hidden out store (do
      let frame ← Run.newFrame []
      bindParams context frame env fill params args
      catching (stmts context (frame :: env) .nil body)) := by
  refine confined_newFrame.bind fun after frame grows isFrame => ?_
  have frames : Environment.Known hidden after (frame :: env) :=
    forall_mem_cons.2 ⟨isFrame, envKnown.mono grows⟩
  refine ((confined_bindParams guarded isFrame.2 env fill params held.params frames
    (known.mono grows)).widen fun _ => returns).bind fun last _ grows' _ => ?_
  exact catches (confined_stmts guarded (frames.mono grows') .nil trivial body held.body)

include guarded in
theorem confined_callMethod {method : Method}
    (held : CodeContained hidden.blocks false method.params method.body)
    (known : AllKnown hidden store args) :
    Run.Knows hidden Outward store (callMethod context method args) :=
  (asks_checkCount _ _ _).bind fun _ _ => confined_activation guarded false (fun _ => id) held
    (forall_mem_nil _) known confined_catchReturn

theorem asks_blockArgs (params : List PlainParam) (known : AllKnown hidden store args) :
    Asks hidden (AllKnown hidden store) store (blockArgs params args) := by
  have taken {args : List Value} (known : AllKnown hidden store args) :
      AllKnown hidden store (args.take params.length) :=
    known.subset fun _ => mem_of_mem_take
  unfold blockArgs
  split
  · split
    · exact (ArrayMethod.asks_list (allKnown_cons.1 known).1.2).then fun _ known =>
        .pure (taken known)
    · exact .pure (taken known)
  · exact .pure (taken known)

section Closures

variable {closure : Closure} (closureKnown : closure.Known hidden store)
  (known : AllKnown hidden store args)
include guarded closureKnown known

theorem confined_callLambda (isLambda : closure.isLambda = true) :
    Run.Knows hidden Outward store (callClosure context closure args) := by
  unfold callClosure
  rw [if_pos isLambda]
  exact (asks_checkCount _ _ _).bind fun _ _ => confined_activation guarded false (fun _ => id)
    closureKnown.code closureKnown.env known confined_catchJump

theorem confined_callClosure :
    Run.Knows hidden (· ≠ .nextJump) store (callClosure context closure args) := by
  cases isLambda : closure.isLambda with
  | true =>
    exact (confined_callLambda guarded closureKnown known isLambda).widen fun _ _ =>
      Outward.not_next
  | false =>
    unfold callClosure
    rw [isLambda]
    exact (asks_blockArgs _ known).bind fun _ known => confined_activation guarded true
      (fun _ => Outward.not_next) closureKnown.code closureKnown.env known confined_catchNext

end Closures

end Calling

/-- Calls are confined however deeply they are nested. -/
theorem guarded_contextAt (hidden : Hidden) (limits : Limits) (depth : Nat) :
    (contextAt limits depth).Guarded hidden := by
  induction depth with
  | zero => exact ⟨fun _ => .throw trivial, fun _ _ => .throw trivial, fun _ _ => .throw trivial⟩
  | succ depth ih =>
    refine ⟨fun known => ?_, fun isKnown known => ?_, confined_callMethod ih⟩
    · refine (asks_closure? _).bind fun closure? closureKnown => ?_
      split
      next closure => exact confined_callClosure ih (closureKnown.2 closure rfl) known
      next => exact .pure trivial
    · refine (asks_closure? _).bind fun closure? closureKnown => ?_
      split
      next closure =>
        by_cases hides : hidden.blocks
        · obtain ⟨code, found, isLambda⟩ := isKnown hides
          cases closureKnown.1.trans found
          exact confined_callLambda ih (closureKnown.2 closure rfl) known isLambda
        · exact (confined_callClosure ih (closureKnown.2 closure rfl) known).widen fun isHidden =>
            absurd isHidden hides
      next => exact .pure trivial

end Evaluate

theorem Store.guards_initial (blocks : Prop) :
    Store.initial.Guards ⟨fun _ => False, fun _ => False, blocks⟩ where
  arrays address _ item member := absurd member (by simp [Store.initial, Heap.items])
  frames id _ entry member := by
    rcases id with _ | id
    · exact absurd member not_mem_nil
    · exact absurd member (by simp [Store.initial])
  closures closure member := absurd member (Array.not_mem_empty _)
  methods entry member := absurd member not_mem_nil
  globals entry member := absurd member not_mem_nil
  hiddenArrays _ isHidden := isHidden.elim
  hiddenFrames _ isHidden := isHidden.elim

end Hoist
