import Hoist.Proofs.Eval.Computed
import Hoist.Proofs.Syntax.Jumps

/-!
What running code can reach.  Some arrays and frames of a store may be hidden: no value that code
can get at leads to them.  Code that starts in such a store leaves what is hidden as it is and does
not come by a way to it.  With nothing hidden this says that no value ever leads to an array that
does not exist.  Blocks may be hidden as well; then values lead to lambdas only, and each `break`
and `next` stays within what it is to leave.
-/

namespace Hoist

/-- The arrays and frames that code is to have no way to, and whether it has one to blocks. -/
structure Hidden where
  arrays : Address → Prop
  frames : FrameId → Prop
  blocks : Prop := False

/-- Nothing is hidden. -/
def Hidden.none : Hidden := ⟨fun _ => False, fun _ => False, False⟩

variable {hidden : Hidden} {store after : Store} {out : JumpKind → Prop} {α β σ : Type}

/-- The arrays that a value leads to exist and are not hidden, and an error is of a class that can
be raised. -/
def Value.Known (hidden : Hidden) (store : Store) : Value → Prop
  | .array address => address < store.arrays.size ∧ ¬hidden.arrays address
  | .range start stop _ _ => start.Known hidden store ∧ stop.Known hidden store
  | .proc address _ => hidden.blocks →
      ∃ code, store.closures[address]? = some code ∧ code.isLambda = true
  | .error className _ _ => isException className = true
  | _ => True

def AllKnown (hidden : Hidden) (store : Store) (values : List Value) : Prop :=
  ∀ value ∈ values, value.Known hidden store

def Environment.Known (hidden : Hidden) (store : Store) (env : Environment) : Prop :=
  ∀ id ∈ env, id < store.frames.size ∧ ¬hidden.frames id

/-- What a closure refers to is known, and its code is contained. -/
structure Closure.Known (hidden : Hidden) (store : Store) (closure : Closure) : Prop where
  env : Environment.Known hidden store closure.env
  code : CodeContained hidden.blocks true closure.params closure.body

/-- The value of a jump is known, and the jump may get out. -/
def Signal.Known (hidden : Hidden) (out : JumpKind → Prop) (store : Store) : Signal → Prop
  | .jump kind value => value.Known hidden store ∧ (hidden.blocks → out kind)
  | _ => True

theorem Signal.Plain.known {signal : Signal} (plain : signal.Plain) :
    signal.Known hidden out store := by
  cases signal with
  | jump => exact plain.elim
  | _ => trivial

/-- What code can get at leads neither to something hidden nor to something that does not exist. -/
structure Store.Guards (hidden : Hidden) (store : Store) : Prop where
  arrays : ∀ address, ¬hidden.arrays address →
    ∀ item ∈ store.arrays.items address, item.Known hidden store
  frames : ∀ id, ¬hidden.frames id →
    ∀ entry ∈ store.frames.getD id [], entry.2.Known hidden store
  closures : ∀ closure ∈ store.closures, closure.Known hidden store
  methods : ∀ entry ∈ store.methods,
    CodeContained hidden.blocks false entry.2.params entry.2.body
  globals : ∀ entry ∈ store.globals, entry.2.Known hidden store
  hiddenArrays : ∀ address, hidden.arrays address → address < store.arrays.size
  hiddenFrames : ∀ id, hidden.frames id → id < store.frames.size

/-- A later store: nothing is gone, and what is hidden is as it was. -/
structure Store.Grows (hidden : Hidden) (store after : Store) : Prop where
  arrays : ∀ address, hidden.arrays address →
    after.arrays.items address = store.arrays.items address
  frames : ∀ id, hidden.frames id → after.frames.getD id [] = store.frames.getD id []
  arraysSize : store.arrays.size ≤ after.arrays.size
  framesSize : store.frames.size ≤ after.frames.size
  closures : ∀ (address : Address) (closure : Closure), store.closures[address]? = some closure →
    after.closures[address]? = some closure

theorem Store.Grows.refl (store : Store) : store.Grows hidden store :=
  ⟨fun _ _ => rfl, fun _ _ => rfl, le_rfl, le_rfl, fun _ _ found => found⟩

theorem Store.Grows.trans {last : Store} (first : store.Grows hidden after)
    (second : after.Grows hidden last) : store.Grows hidden last where
  arrays address isHidden := (second.arrays address isHidden).trans (first.arrays address isHidden)
  frames id isHidden := (second.frames id isHidden).trans (first.frames id isHidden)
  arraysSize := first.arraysSize.trans second.arraysSize
  framesSize := first.framesSize.trans second.framesSize
  closures address closure found := second.closures address closure
    (first.closures address closure found)

variable {value : Value} {values : List Value}

theorem Value.Known.of_le (known : value.Known hidden store)
    (le : store.arrays.size ≤ after.arrays.size)
    (closures : ∀ (address : Address) (closure : Closure), store.closures[address]? = some closure →
      after.closures[address]? = some closure) : value.Known hidden after := by
  induction value with
  | array address => exact ⟨known.1.trans_le le, known.2⟩
  | range start stop _ _ startKnown stopKnown => exact ⟨startKnown known.1, stopKnown known.2⟩
  | proc address =>
    intro hides
    obtain ⟨code, found, isLambda⟩ := known hides
    exact ⟨code, closures address code found, isLambda⟩
  | error => exact known
  | _ => trivial

theorem Value.Known.mono (grows : store.Grows hidden after)
    (known : value.Known hidden store) : value.Known hidden after :=
  known.of_le grows.arraysSize grows.closures

theorem AllKnown.mono (grows : store.Grows hidden after)
    (known : AllKnown hidden store values) : AllKnown hidden after values :=
  fun value member => (known value member).mono grows

theorem Environment.Known.mono {env : Environment} (grows : store.Grows hidden after)
    (known : Environment.Known hidden store env) : Environment.Known hidden after env :=
  fun id member => ⟨(known id member).1.trans_le grows.framesSize, (known id member).2⟩

@[simp] theorem allKnown_nil : AllKnown hidden store [] := fun _ member => nomatch member

@[simp] theorem allKnown_cons : AllKnown hidden store (value :: values) ↔
      value.Known hidden store ∧ AllKnown hidden store values := List.forall_mem_cons

theorem AllKnown.append {left right : List Value} (leftKnown : AllKnown hidden store left)
    (rightKnown : AllKnown hidden store right) : AllKnown hidden store (left ++ right) :=
  List.forall_mem_append.2 ⟨leftKnown, rightKnown⟩

theorem AllKnown.subset {others : List Value} (known : AllKnown hidden store values)
    (subset : ∀ value ∈ others, value ∈ values) : AllKnown hidden store others :=
  fun value member => known value (subset value member)

theorem AllKnown.getD (known : AllKnown hidden store values)
    {value? : Option Value} (member : ∀ value, value? = some value → value ∈ values) :
    (value?.getD .nil).Known hidden store := by
  cases value? with
  | none => trivial
  | some value => exact known value (member value rfl)

/-- How a run from a store ends. -/
structure Run.Ended (hidden : Hidden) (out : JumpKind → Prop) (post : Store → α → Prop)
    (store : Store) (result : Except Signal α × Store) : Prop where
  grows : store.Grows hidden result.2
  guards : result.2.Guards hidden
  outcome : Gives (Signal.Known hidden out result.2) (post result.2) result.1

/-- A run from a store that guards what is hidden leaves it hidden, and only some jumps get out of
it; `post` holds of its value. -/
def Run.Confined (hidden : Hidden) (out : JumpKind → Prop) (post : Store → α → Prop) (store : Store)
    (run : Run α) : Prop :=
  store.Guards hidden → Run.Ended hidden out post store (run store)

/-- A confined run whose value is known. -/
abbrev Run.Knows (hidden : Hidden) (out : JumpKind → Prop) (store : Store) (run : Run Value) :
    Prop :=
  Run.Confined hidden out (Value.Known hidden) store run

abbrev Run.Stays (hidden : Hidden) (out : JumpKind → Prop) (store : Store) (run : Run α) : Prop :=
  Run.Confined hidden out (fun _ _ => True) store run

/-- A run that only looks at the store. -/
def Run.Asks (hidden : Hidden) (post : α → Prop) (store : Store) (run : Run α) : Prop :=
  store.Guards hidden → ∃ result, Gives Signal.Plain post result ∧ run store = (result, store)

namespace Run

variable {post : Store → α → Prop} {run : Run α} {next : α → Run β} {last : Store → β → Prop}

theorem Confined.pure {value : α} (holds : post store value) :
    Confined hidden out post store (pure value) := fun guards => ⟨.refl store, guards, holds⟩

theorem Confined.throw {signal : Signal} (known : signal.Known hidden out store) :
    Confined hidden out post store (throw signal : Run α) :=
  fun guards => ⟨.refl store, guards, known⟩

theorem Confined.raise (className : String) (message : Text) :
    Confined hidden out post store (raise className message : Run α) := .throw trivial

theorem Confined.fault (fault : Fault) :
    Confined hidden out post store (Run.fault fault : Run α) := .throw trivial

theorem Confined.bind (first : Confined hidden out post store run)
    (rest : ∀ after value, store.Grows hidden after → post after value →
      Confined hidden out last after (next value)) :
    Confined hidden out last store (run >>= next) := by
  intro guards
  obtain ⟨grows, guarded, outcome⟩ := first guards
  rcases ran : run store with ⟨signal | value, after⟩
  · rw [ran] at grows guarded outcome
    rw [steps_bind_error ran]
    exact ⟨grows, guarded, outcome⟩
  · rw [ran] at grows guarded outcome
    obtain ⟨further, guardedLast, ending⟩ := rest after value grows outcome guarded
    rw [steps_bind ran]
    exact ⟨grows.trans further, guardedLast, ending⟩

theorem Confined.guarded (confined : store.Guards hidden → Confined hidden out post store run) :
    Confined hidden out post store run := fun guards => confined guards guards

theorem Confined.widen {inner : JumpKind → Prop} (confined : Confined hidden inner post store run)
    (wider : hidden.blocks → ∀ kind, inner kind → out kind) :
    Confined hidden out post store run := by
  intro guards
  obtain ⟨grows, guarded, outcome⟩ := confined guards
  refine ⟨grows, guarded, outcome.mono (fun _ => id) fun signal known => ?_⟩
  cases signal with
  | jump kind => exact ⟨known.1, fun hides => wider hides kind (known.2 hides)⟩
  | _ => trivial

theorem Confined.get {next : Store → Run β}
    (confined : Confined hidden out last store (next store)) :
    Confined hidden out last store (get >>= next) := confined

theorem Asks.confined {holds : α → Prop} (asks : Asks hidden holds store run)
    (gives : ∀ value, holds value → post store value) : Confined hidden out post store run := by
  intro guards
  obtain ⟨result, given, ran⟩ := asks guards
  rw [ran]
  refine ⟨.refl store, guards, ?_⟩
  cases result with
  | ok value => exact gives value given
  | error signal => exact Signal.Plain.known given

theorem Asks.bind {holds : α → Prop} (asks : Asks hidden holds store run)
    (rest : ∀ value, holds value → Confined hidden out last store (next value)) :
    Confined hidden out last store (run >>= next) := by
  refine (asks.confined fun _ holds => ⟨rfl, holds⟩ : Confined hidden out
    (fun after value => after = store ∧ holds value) store run).bind fun after value _ holds => ?_
  rw [holds.1]
  exact rest value holds.2

theorem Confined.tryCatch {inner : JumpKind → Prop} {handler : Signal → Run α}
    (first : Confined hidden inner post store run)
    (rest : ∀ after signal, store.Grows hidden after → signal.Known hidden inner after →
      Confined hidden out post after (handler signal)) :
    Confined hidden out post store (MonadExcept.tryCatch run handler) := by
  intro guards
  obtain ⟨grows, guarded, outcome⟩ := first guards
  rcases ran : run store with ⟨signal | value, after⟩
  · rw [ran] at grows guarded outcome
    obtain ⟨further, guardedLast, ending⟩ := rest after signal grows outcome guarded
    have isNext := @steps_tryCatch_error _ _ _ _ _ _ handler _ ran
    rw [isNext]
    exact ⟨grows.trans further, guardedLast, ending⟩
  · rw [ran] at grows guarded outcome
    have isEnd := @steps_tryCatch_ok _ _ _ _ _ _ handler _ ran
    rw [isEnd]
    exact ⟨grows, guarded, outcome⟩

end Run

theorem Heap.items_push (heap : Heap) (items : Array Value) (address : Address) :
    Heap.items (heap.push items) address =
      if address = heap.size then items else heap.items address := by
  unfold Heap.items
  rw [Array.getD_eq_getD_getElem?, Array.getD_eq_getD_getElem?, Array.getElem?_push]
  split <;> rfl

theorem Heap.items_modify (heap : Heap) (change : Array Value → Array Value)
    (address other : Address) :
    Heap.items (heap.modify address change) other =
      if address = other ∧ address < heap.size then change (heap.items other)
      else heap.items other := by
  unfold Heap.items
  rw [Array.getD_eq_getD_getElem?, Array.getD_eq_getD_getElem?, Array.getElem?_modify]
  by_cases same : address = other
  · subst same
    by_cases exists' : address < heap.size
    · simp [exists']
    · simp [exists']
  · simp [same]

theorem frames_push (frames : Array Frame) (frame : Frame) (id : FrameId) :
    (frames.push frame).getD id [] = if id = frames.size then frame else frames.getD id [] := by
  rw [Array.getD_eq_getD_getElem?, Array.getD_eq_getD_getElem?, Array.getElem?_push]
  split <;> rfl

theorem frames_modify (frames : Array Frame) (change : Frame → Frame) (id other : FrameId) :
    (frames.modify id change).getD other [] =
      if id = other ∧ id < frames.size then change (frames.getD other [])
      else frames.getD other [] := by
  rw [Array.getD_eq_getD_getElem?, Array.getD_eq_getD_getElem?, Array.getElem?_modify]
  by_cases same : id = other
  · subst same
    by_cases exists' : id < frames.size
    · simp [exists']
    · simp [exists']
  · simp [same]

/-- What is assigned is the new value or was there before. -/
theorem mem_assign {key : String} {value : α} {entries : List (String × α)} {entry : String × α}
    (member : entry ∈ assign key value entries) : entry = (key, value) ∨ entry ∈ entries := by
  induction entries with
  | nil => exact .inl (List.mem_singleton.1 member)
  | cons first rest ih =>
    obtain ⟨other, old⟩ := first
    rw [assign] at member
    split at member
    · rcases List.mem_cons.1 member with rfl | member
      · exact .inl rfl
      · exact .inr (List.mem_cons_of_mem _ member)
    · rcases List.mem_cons.1 member with rfl | member
      · exact .inr List.mem_cons_self
      · exact (ih member).imp id (List.mem_cons_of_mem _)

theorem Store.Guards.grow (guards : store.Guards hidden) (grows : store.Grows hidden after)
    (arrays : ∀ address, ¬hidden.arrays address → ∀ item ∈ after.arrays.items address,
      item ∈ store.arrays.items address ∨ item.Known hidden store)
    (frames : ∀ id, ¬hidden.frames id → ∀ entry ∈ after.frames.getD id [],
      entry ∈ store.frames.getD id [] ∨ entry.2.Known hidden store)
    (closures : ∀ closure ∈ after.closures,
      closure ∈ store.closures ∨ closure.Known hidden store)
    (methods : ∀ entry ∈ after.methods, entry ∈ store.methods ∨
      CodeContained hidden.blocks false entry.2.params entry.2.body)
    (globals : ∀ entry ∈ after.globals, entry ∈ store.globals ∨ entry.2.Known hidden store) :
    after.Guards hidden where
  arrays address shown item member := (arrays address shown item member).elim
    (fun old => (guards.arrays address shown item old).mono grows) (·.mono grows)
  frames id shown entry member := (frames id shown entry member).elim
    (fun old => (guards.frames id shown entry old).mono grows) (·.mono grows)
  closures closure member :=
    have known := (closures closure member).elim (guards.closures closure) id
    ⟨known.env.mono grows, known.code⟩
  methods entry member := (methods entry member).elim (guards.methods entry) id
  globals entry member := (globals entry member).elim
    (fun old => (guards.globals entry old).mono grows) (·.mono grows)
  hiddenArrays address isHidden := (guards.hiddenArrays address isHidden).trans_le grows.arraysSize
  hiddenFrames id isHidden := (guards.hiddenFrames id isHidden).trans_le grows.framesSize

section Changes

variable (guards : store.Guards hidden)

include guards in
theorem Store.Guards.grows_pushArray (items : Array Value) :
    store.Grows hidden { store with arrays := store.arrays.push items } where
  arrays address isHidden := by
    rw [Heap.items_push, if_neg (guards.hiddenArrays address isHidden).ne]
  frames _ _ := rfl
  arraysSize := by simp
  framesSize := le_rfl
  closures _ _ found := found

include guards in
theorem Store.Guards.pushArray {items : Array Value}
    (known : ∀ item ∈ items, item.Known hidden store) :
    Guards hidden { store with arrays := store.arrays.push items } := by
  refine guards.grow (guards.grows_pushArray items) (fun address _ item member => ?_)
    (fun _ _ _ => .inl) (fun _ => .inl) (fun _ => .inl) fun _ => .inl
  rw [Heap.items_push] at member
  split at member
  · exact .inr (known item member)
  · exact .inl member

theorem Store.grows_modifyArray {address : Address} (shown : ¬hidden.arrays address)
    (change : Array Value → Array Value) :
    store.Grows hidden { store with arrays := store.arrays.modify address change } where
  arrays other isHidden := by
    rw [Heap.items_modify, if_neg]
    rintro ⟨rfl, -⟩
    exact shown isHidden
  frames _ _ := rfl
  arraysSize := by simp
  framesSize := le_rfl
  closures _ _ found := found

include guards in
theorem Store.Guards.modifyArray {address : Address} (shown : ¬hidden.arrays address)
    {change : Array Value → Array Value}
    (known : ∀ item ∈ change (store.arrays.items address), item.Known hidden store) :
    Guards hidden { store with arrays := store.arrays.modify address change } := by
  refine guards.grow (grows_modifyArray shown change) (fun other _ item member => ?_)
    (fun _ _ _ => .inl) (fun _ => .inl) (fun _ => .inl) fun _ => .inl
  rw [Heap.items_modify] at member
  split at member
  next same =>
    obtain ⟨rfl, -⟩ := same
    exact .inr (known item member)
  next => exact .inl member

include guards in
theorem Store.Guards.grows_pushFrame (frame : Frame) :
    store.Grows hidden { store with frames := store.frames.push frame } where
  arrays _ _ := rfl
  frames id isHidden := by
    rw [frames_push, if_neg (guards.hiddenFrames id isHidden).ne]
  arraysSize := le_rfl
  framesSize := by simp
  closures _ _ found := found

include guards in
theorem Store.Guards.pushFrame {frame : Frame}
    (known : ∀ entry ∈ frame, entry.2.Known hidden store) :
    Guards hidden { store with frames := store.frames.push frame } := by
  refine guards.grow (guards.grows_pushFrame frame) (fun _ _ _ => .inl)
    (fun id _ entry member => ?_) (fun _ => .inl) (fun _ => .inl) fun _ => .inl
  rw [frames_push] at member
  split at member
  · exact .inr (known entry member)
  · exact .inl member

theorem Store.grows_modifyFrame {id : FrameId} (shown : ¬hidden.frames id)
    (change : Frame → Frame) :
    store.Grows hidden { store with frames := store.frames.modify id change } where
  arrays _ _ := rfl
  frames other isHidden := by
    rw [frames_modify, if_neg]
    rintro ⟨rfl, -⟩
    exact shown isHidden
  arraysSize := le_rfl
  framesSize := by simp
  closures _ _ found := found

include guards in
theorem Store.Guards.define {id : FrameId} (shown : ¬hidden.frames id) {name : String}
    {value : Value} (known : value.Known hidden store) :
    Guards hidden { store with frames := store.frames.modify id (assign name value) } := by
  refine guards.grow (grows_modifyFrame shown _) (fun _ _ _ => .inl)
    (fun other _ entry member => ?_) (fun _ => .inl) (fun _ => .inl) fun _ => .inl
  rw [frames_modify] at member
  split at member
  · rcases mem_assign member with rfl | member
    · exact .inr known
    · exact .inl member
  · exact .inl member

theorem Store.grows_pushClosure (closure : Closure) :
    store.Grows hidden { store with closures := store.closures.push closure } where
  arrays _ _ := rfl
  frames _ _ := rfl
  arraysSize := le_rfl
  framesSize := le_rfl
  closures address found isFound := by
    rw [Array.getElem?_push, if_neg (Array.getElem?_eq_some_iff.1 isFound).1.ne]
    exact isFound

include guards in
theorem Store.Guards.pushClosure {closure : Closure}
    (known : closure.Known hidden store) :
    Guards hidden { store with closures := store.closures.push closure } := by
  refine guards.grow (grows_pushClosure closure) (fun _ _ _ => .inl) (fun _ _ _ => .inl)
    (fun other member => ?_) (fun _ => .inl) fun _ => .inl
  rcases Array.mem_push.1 member with member | rfl
  · exact .inl member
  · exact .inr known

/-- Changes of what code has no references in. -/
theorem Store.Grows.of_eq (arrays : after.arrays = store.arrays)
    (frames : after.frames = store.frames) (closures : after.closures = store.closures) :
    store.Grows hidden after where
  arrays _ _ := by rw [arrays]
  frames _ _ := by rw [frames]
  arraysSize := by rw [arrays]
  framesSize := by rw [frames]
  closures _ _ found := by rw [closures]; exact found

include guards in
theorem Store.Guards.of_eq (arrays : after.arrays = store.arrays)
    (frames : after.frames = store.frames) (closures : after.closures = store.closures)
    (methods : ∀ entry ∈ after.methods, entry ∈ store.methods ∨
      CodeContained hidden.blocks false entry.2.params entry.2.body)
    (globals : ∀ entry ∈ after.globals, entry ∈ store.globals ∨ entry.2.Known hidden store) :
    after.Guards hidden :=
  guards.grow (.of_eq arrays frames closures) (by rw [arrays]; exact fun _ _ _ => .inl)
    (by rw [frames]; exact fun _ _ _ => .inl) (by rw [closures]; exact fun _ => .inl) methods
    globals

end Changes

end Hoist
