import Hoist.Proofs.Eval.Reach

/-!
The steps that built-in methods are made of are confined: what they look at, what they make, and
the loops that they run.
-/

namespace Hoist

open List

variable {hidden : Hidden} {store after : Store} {out : JumpKind → Prop} {α β σ : Type}

namespace Run

variable {post : Store → α → Prop} {address : Address}

section Asking

variable {holds : α → Prop}

theorem Asks.pure {value : α} (isTrue : holds value) : Asks hidden holds store (pure value) :=
  fun _ => ⟨.ok value, isTrue, rfl⟩

theorem Asks.throw {signal : Signal} (plain : signal.Plain) :
    Asks hidden holds store (throw signal : Run α) :=
  fun _ => ⟨.error signal, plain, rfl⟩

theorem Asks.raise (className : String) (message : Text) :
    Asks hidden holds store (Run.raise className message : Run α) := .throw trivial

theorem Asks.fault (fault : Fault) :
    Asks hidden holds store (Run.fault fault : Run α) := .throw trivial

theorem Asks.then {last : β → Prop} {run : Run α} {next : α → Run β}
    (asks : Asks hidden holds store run)
    (rest : ∀ value, holds value → Asks hidden last store (next value)) :
    Asks hidden last store (run >>= next) := by
  intro guards
  obtain ⟨signal | value, given, ran⟩ := asks guards
  · exact ⟨.error signal, given, steps_bind_error ran⟩
  · obtain ⟨result, gives, ranRest⟩ := rest value given guards
    exact ⟨result, gives, (steps_bind ran).trans ranRest⟩

/-- A check that may end a run before the rest of it. -/
theorem Asks.guard {last : Store → β → Prop} {condition : Prop} [Decidable condition]
    {refuse : Run PUnit} {next : PUnit → Run β} (refuses : Asks hidden (fun _ => True) store refuse)
    (rest : Confined hidden out last store (next ⟨⟩)) :
    Confined hidden out last store (if condition then refuse >>= next else next ⟨⟩) := by
  split
  · exact refuses.bind fun _ _ => rest
  · exact rest

theorem ofExcept_eq (result : Except Signal α) (store : Store) :
    ofExcept result store = (result, store) := by
  cases result <;> rfl

theorem asks_ofExcept {result : Except Signal α} (gives : Gives Signal.Plain holds result) :
    Asks hidden holds store (ofExcept result) :=
  fun _ => ⟨result, gives, ofExcept_eq result store⟩

theorem asks_reading {compute : Heap → Except Signal α}
    (gives : store.Guards hidden → Gives Signal.Plain holds (compute store.arrays)) :
    Asks hidden holds store (reading compute) :=
  fun guards => ⟨compute store.arrays, gives guards, ofExcept_eq _ store⟩

theorem asks_items (shown : ¬hidden.arrays address) :
    Asks hidden (fun items => ∀ item ∈ items, item.Known hidden store) store (items address) :=
  fun guards => ⟨.ok (store.arrays.items address), guards.arrays address shown, rfl⟩

theorem asks_contents : Asks hidden (fun _ => True) store (items address) :=
  fun _ => ⟨.ok (store.arrays.items address), trivial, rfl⟩

theorem asks_size : Asks hidden (fun _ => True) store (size address) :=
  asks_contents.then fun _ _ => .pure trivial

theorem asks_item? (shown : ¬hidden.arrays address) (place : Nat) :
    Asks hidden (fun item => ∀ value, item = some value → value.Known hidden store) store
      (item? address place) :=
  (asks_items shown).then fun _ known => .pure fun value found =>
    known value (Array.mem_of_getElem? found)

theorem asks_arg {args : List Value} (known : AllKnown hidden store args) (place : Nat) :
    Asks hidden (Value.Known hidden store) store (arg args place) := by
  unfold arg
  split
  next value found => exact .pure (known value (mem_of_getElem? found))
  next => exact .fault _

theorem asks_checkArity (args : List Value) (low high : Nat) :
    Asks hidden (fun _ => True) store (checkArity args low high) := by
  unfold checkArity
  split
  · exact .raise _ _
  · exact .pure trivial

theorem asks_checkSize (context : Context) (size : Nat) :
    Asks hidden (fun _ => True) store (context.checkSize size) := by
  intro _
  by_cases holds : context.Holds size
  · exact ⟨.ok (), trivial, Context.checkSize_ok holds store⟩
  · obtain ⟨fault, refused⟩ := Context.checkSize_refused holds
    exact ⟨.error (.fault fault), trivial, refused store⟩

theorem asks_truncate (x : Float) : Asks hidden (fun _ => True) store (truncate x) := by
  unfold truncate
  split
  · exact .pure trivial
  · exact .fault _

theorem asks_intArg (value : Value) : Asks hidden (fun _ => True) store (intArg value) := by
  unfold intArg
  split
  · exact .pure trivial
  · exact asks_truncate _
  · exact .raise _ _

theorem asks_closure? (address : Address) :
    Asks hidden (fun closure? => closure? = store.closures[address]? ∧ ∀ closure,
      closure? = some closure → closure.Known hidden store) store (closure? address) :=
  fun guards => ⟨.ok store.closures[address]?, ⟨rfl, fun closure found =>
    guards.closures closure (Array.mem_of_getElem? found)⟩, rfl⟩

end Asking

theorem asks_rangeEnd (value : Value) :
    Asks hidden (fun _ => True) store (Index.rangeEnd value) := by
  unfold Index.rangeEnd
  split
  case h_4 => exact .raise _ _
  all_goals exact .pure trivial

theorem asks_select (length : Nat) (args : List Value) :
    Asks hidden (fun _ => True) store (Index.select length args) := by
  unfold Index.select
  split
  · exact (asks_intArg _).then fun _ _ => (asks_intArg _).then fun _ _ => .pure trivial
  · exact (asks_rangeEnd _).then fun _ _ => (asks_rangeEnd _).then fun _ _ => .pure trivial
  · refine (asks_intArg _).then fun _ _ => ?_
    split
    · exact .pure trivial
    · exact .pure trivial
  · exact .raise _ _

section Making

variable {change : Store → α × Store} {value : Value}

theorem Confined.ofModifyGet (grows : store.Guards hidden → store.Grows hidden (change store).2)
    (guarded : store.Guards hidden → (change store).2.Guards hidden)
    (holds : store.Guards hidden → post (change store).2 (change store).1) :
    Confined hidden out post store (modifyGet change) :=
  fun guards => ⟨grows guards, guarded guards, holds guards⟩

theorem Confined.ofModify {change : Store → Store}
    (grows : store.Guards hidden → store.Grows hidden (change store))
    (guarded : store.Guards hidden → (change store).Guards hidden) :
    Stays hidden out store (modify change) := .ofModifyGet grows guarded fun _ => trivial

theorem confined_newArray {items : Array Value} (known : ∀ item ∈ items, item.Known hidden store) :
    Knows hidden out store (newArray items) :=
  .ofModifyGet (fun guards => guards.grows_pushArray items) (fun guards => guards.pushArray known)
    fun guards => ⟨by simp, fun isHidden => (guards.hiddenArrays _ isHidden).false⟩

theorem confined_newList {items : List Value} (known : AllKnown hidden store items) :
    Knows hidden out store (newList items) :=
  confined_newArray fun item member => known item (mem_toArray.1 member)

/-- A step that changes only what code has no references in. -/
theorem Confined.quiet (arrays : (change store).2.arrays = store.arrays)
    (frames : (change store).2.frames = store.frames)
    (closures : (change store).2.closures = store.closures)
    (methods : (change store).2.methods = store.methods)
    (globals : (change store).2.globals = store.globals)
    (holds : post (change store).2 (change store).1) :
    Confined hidden out post store (modifyGet change) :=
  .ofModifyGet (fun _ => .of_eq arrays frames closures)
    (fun guards => guards.of_eq arrays frames closures (by rw [methods]; exact fun _ => .inl)
      (by rw [globals]; exact fun _ => .inl))
    fun _ => holds

theorem confined_newIdentity : Stays hidden out store newIdentity :=
  .quiet rfl rfl rfl rfl rfl trivial

theorem confined_print (text : Text) : Stays hidden out store (print text) :=
  .quiet rfl rfl rfl rfl rfl trivial

theorem confined_newInt (value : Int) : Knows hidden out store (newInt value) := by
  unfold newInt
  split
  · exact .pure trivial
  · exact confined_newIdentity.bind fun _ _ _ _ => .pure trivial

theorem confined_newFloat (value : Float) : Knows hidden out store (newFloat value) :=
  confined_newIdentity.bind fun _ _ _ _ => .pure trivial

theorem confined_newText (draft : Draft) : Stays hidden out store (newText draft) := by
  unfold newText
  split
  · exact .pure trivial
  · exact confined_newIdentity.bind fun _ _ _ _ => .pure trivial

theorem confined_newString (draft : Draft) : Knows hidden out store (newString draft) :=
  (confined_newText draft).bind fun _ _ _ _ => .pure trivial

theorem confined_newSymbol (name : TextObject) : Knows hidden out store (newSymbol name) :=
  confined_newIdentity.bind fun _ _ _ _ => .pure trivial

theorem confined_newRange {start stop : Value} (startKnown : start.Known hidden store)
    (stopKnown : stop.Known hidden store) (exclusive : Bool) :
    Knows hidden out store (newRange start stop exclusive) :=
  confined_newIdentity.bind fun _ _ grows _ => .pure ⟨startKnown.mono grows, stopKnown.mono grows⟩

theorem confined_newError {className : String} (raisable : isException className = true)
    (message : TextObject) : Knows hidden out store (newError className message) :=
  confined_newIdentity.bind fun _ _ _ _ => .pure raisable

theorem confined_newNumber {left : Value} (known : left.Known hidden store) (computed : Computed) :
    Knows hidden out store (newNumber left computed) := by
  cases computed with
  | int => exact confined_newInt _
  | float => exact confined_newFloat _
  | left => exact .pure known
  | undefined => exact .pure trivial
  | complex => exact confined_newIdentity.bind fun _ _ _ _ => .pure trivial

theorem confined_modifyArray (shown : ¬hidden.arrays address) {change : Array Value → Array Value}
    (known : store.Guards hidden → ∀ item ∈ change (store.arrays.items address), item.Known hidden
      store) : Stays hidden out store (modifyArray address change) :=
  .ofModify (fun _ => Store.grows_modifyArray shown change)
    fun guards => guards.modifyArray shown (known guards)

theorem confined_newFrame :
    Confined hidden out (fun after id => id < after.frames.size ∧ ¬hidden.frames id) store
      (newFrame []) :=
  .ofModifyGet (fun guards => guards.grows_pushFrame [])
    (fun guards => guards.pushFrame (forall_mem_nil _))
    fun guards => ⟨by simp, fun isHidden => (guards.hiddenFrames _ isHidden).false⟩

theorem confined_define {id : FrameId} (shown : ¬hidden.frames id) (name : String)
    (known : value.Known hidden store) : Stays hidden out store (define id name value) :=
  .ofModify (fun _ => Store.grows_modifyFrame shown _) fun guards => guards.define shown known

theorem confined_newProc {closure : Closure} (known : closure.Known hidden store)
    (isLambda : closure.isLambda = true) : Knows hidden out store (newProc closure) :=
  .ofModifyGet (fun _ => Store.grows_pushClosure closure) (fun guards => guards.pushClosure known)
    fun _ _ => ⟨closure, Array.getElem?_push_size, isLambda⟩

theorem confined_setVariable {env : Environment} (envKnown : Environment.Known hidden store env)
    (name : String) (known : value.Known hidden store) :
    Stays hidden out store (setVariable env name value) := by
  have owned (id : FrameId) (isOwner : store.owner? name env = some id) : id ∈ env := by
    clear envKnown
    induction env with
    | nil => cases isOwner
    | cons first rest ih =>
      rw [Store.owner?] at isOwner
      split at isOwner
      · cases isOwner
        exact mem_cons_self
      · exact mem_cons_of_mem _ (ih isOwner)
  refine Confined.get ?_
  split
  next id isOwner => exact confined_define (envKnown id (owned id isOwner)).2 name known
  next id _ _ => exact confined_define (envKnown id mem_cons_self).2 name known
  next => exact .pure trivial

end Making

section Looping

/-- What holds of a value of a run goes on to hold. -/
def Lasting (hidden : Hidden) (post : Store → α → Prop) : Prop :=
  ∀ store after value, Store.Grows hidden store after → post store value → post after value

variable {items : List α}

theorem confined_mapM {P : Store → β → Prop} (lasting : Lasting hidden P) {compute : α → Run β}
    (each : ∀ item ∈ items, ∀ after, store.Grows hidden after → Confined hidden out P after (compute
      item)) :
    Confined hidden out (fun after results => ∀ result ∈ results, P after result) store
      (items.mapM compute) := by
  induction items generalizing store with
  | nil => exact .pure (forall_mem_nil _)
  | cons item rest ih =>
    obtain ⟨first, others⟩ := forall_mem_cons.1 each
    rw [mapM_cons]
    refine (first store (.refl store)).bind fun after result grows holds => ?_
    refine (ih fun item member later grows' =>
      others item member later (grows.trans grows')).bind fun last results grows' hold => ?_
    exact .pure (forall_mem_cons.2 ⟨lasting _ _ _ grows' holds, hold⟩)

theorem confined_forM {compute : α → Run PUnit}
    (each : ∀ item ∈ items, ∀ after, store.Grows hidden after →
      Stays hidden out after (compute item)) : Stays hidden out store (items.forM compute) := by
  induction items generalizing store with
  | nil => exact .pure trivial
  | cons item rest ih =>
    obtain ⟨first, others⟩ := forall_mem_cons.1 each
    refine (first store (.refl store)).bind fun after _ grows _ => ?_
    exact ih fun item member later grows' =>
      others item member later (grows.trans grows')

theorem confined_filterM {test : α → Run Bool}
    (each : ∀ item ∈ items, ∀ after, store.Grows hidden after →
      Stays hidden out after (test item)) :
    Confined hidden out (fun _ kept => ∀ item ∈ kept, item ∈ items) store (items.filterM test) := by
  have kept (remaining seen : List α) (store : Store)
      (among : ∀ item ∈ remaining, item ∈ items) (seenAmong : ∀ item ∈ seen, item ∈ items)
      (each : ∀ item ∈ remaining, ∀ after, store.Grows hidden after →
        Stays hidden out after (test item)) :
      Confined hidden out (fun _ kept => ∀ item ∈ kept, item ∈ items) store
        (remaining.filterAuxM test seen) := by
    induction remaining generalizing seen store with
    | nil => exact .pure seenAmong
    | cons item rest ih =>
      obtain ⟨first, others⟩ := forall_mem_cons.1 each
      obtain ⟨firstAmong, othersAmong⟩ := forall_mem_cons.1 among
      rw [filterAuxM]
      refine (first store (.refl store)).bind fun after passes grows _ => ?_
      refine ih _ _ othersAmong ?_ fun item member later grows' =>
        others item member later (grows.trans grows')
      cases passes with
      | true => exact forall_mem_cons.2 ⟨firstAmong, seenAmong⟩
      | false => exact seenAmong
  refine (kept items [] store (fun _ => id) (forall_mem_nil _) each).bind
    fun after kept _ among => ?_
  exact .pure fun item member => among item (mem_reverse.1 member)

theorem confined_firstPassing? {test : Value → Run Bool} {items : List Value}
    (known : AllKnown hidden store items)
    (each : ∀ item after, store.Grows hidden after → item.Known hidden after →
      Stays hidden out after (test item)) :
    Confined hidden out (fun after found => (found.getD .nil).Known hidden after) store
      (firstPassing? test items) := by
  induction items generalizing store with
  | nil => exact .pure trivial
  | cons item rest ih =>
    obtain ⟨itemKnown, restKnown⟩ := allKnown_cons.1 known
    refine (each item store (.refl store) itemKnown).bind fun after passes grows _ => ?_
    split
    · exact .pure (itemKnown.mono grows)
    · exact ih (restKnown.mono grows) fun item later grows' =>
        each item later (grows.trans grows')

theorem confined_repeatUntil {step : Run (Option α)}
    (each : ∀ after, store.Grows hidden after → Confined hidden out
      (fun last result => ∀ value, result
      = some value → post last value) after step) (rounds : Nat) :
    Confined hidden out post store (repeatUntil step rounds) := by
  induction rounds generalizing store with
  | zero => exact .throw trivial
  | succ rounds ih =>
    refine (each store (.refl store)).bind fun after result grows holds => ?_
    cases result with
    | some value => exact .pure (holds value rfl)
    | none => exact ih fun later grows' => each later (grows.trans grows')

/-- What a step over an array gives: a state to go on with, or a result. -/
def StepPost (state : Store → σ → Prop) (post : Store → α → Prop) (store : Store) :
    σ ⊕ α → Prop
  | .inl next => state store next
  | .inr result => post store result

theorem confined_overLive {P : Store → σ → Prop} {step : σ → Nat → Value → Run (σ ⊕ α)}
    {final : σ → α} (shown : ¬hidden.arrays address)
    (each : ∀ state place item after, store.Grows hidden after → P after state → item.Known hidden
      after → Confined hidden out (StepPost P post) after (step state place item))
    (ends : ∀ state after, store.Grows hidden after → P after state → post after (final state))
    (rounds place : Nat) (state : σ) (starts : P store state) :
    Confined hidden out post store (overLive address step final rounds place state) := by
  induction rounds generalizing store place state with
  | zero => exact .throw trivial
  | succ rounds ih =>
    refine (asks_item? shown place).bind fun item? known => ?_
    split
    · exact .pure (ends state store (.refl store) starts)
    next item =>
      refine (each state place item store (.refl store) starts (known item rfl)).bind
        fun after result grows holds => ?_
      cases result with
      | inl next =>
        exact ih
          (fun state place item later grows' => each state place item later (grows.trans grows'))
          (fun state later grows' => ends state later (grows.trans grows')) _ _ holds
      | inr result => exact .pure holds

end Looping

end Run

end Hoist
