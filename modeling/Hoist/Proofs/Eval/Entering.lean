import Hoist.Closure
import Hoist.Proofs.Eval.Frames

/-!
How the parameters of a block get their values.  A block binds them itself and takes a single array
apart; the lambda of a hoisted block does the same with a generated parameter and assignments in
front of the body.  Both hand out the same values.  Only defaults are lost: where a block evaluates
the default of a parameter that gets no value, the parameter of the lambda is nil.
-/

namespace Hoist

open List

namespace Store

variable {store : Store} {name other : String} {value : Value} {id : FrameId} {env : Environment}

theorem valueOf?_define_of_ne (differs : other ≠ name) :
    (store.define id name value).valueOf? other env = store.valueOf? other env := by
  induction env with
  | nil => rfl
  | cons first rest ih =>
    have same : ((store.define id name value).frames.getD first []).lookup other =
        (store.frames.getD first []).lookup other := by
      rw [define, frames_modify]
      split
      · rw [lookup_assign, if_neg differs]
      · rfl
    rw [valueOf?, valueOf?, same, ih]

theorem valueOf?_congr {after : Store}
    (alike : ∀ id ∈ env, after.slot? id name = store.slot? id name) :
    after.valueOf? name env = store.valueOf? name env := by
  induction env with
  | nil => rfl
  | cons first rest ih =>
    obtain ⟨here, others⟩ := forall_mem_cons.1 alike
    rw [valueOf?, valueOf?, ← slot?, ← slot?, here, ih others]

theorem valueOf?_cons_of_slot? (found : store.slot? id name = some value) :
    store.valueOf? name (id :: env) = some value := by
  rw [valueOf?, ← slot?, found]

/-- The frame that holds a variable exists, and an assignment there is what the name means then. -/
theorem owner?_spec (owned : store.owner? name env = some id) : id ∈ env ∧ id < store.frames.size ∧
      (store.define id name value).valueOf? name env = some value := by
  induction env with
  | nil => cases owned
  | cons first rest ih =>
    rw [owner?] at owned
    split at owned
    next there =>
      cases owned
      have exists' : id < store.frames.size := by
        by_contra missing
        rw [Array.getD_eq_getD_getElem?, Array.getElem?_eq_none (not_lt.1 missing)] at there
        cases there
      refine ⟨mem_cons_self, exists', valueOf?_cons_of_slot? ?_⟩
      rw [slot?_define exists', if_pos rfl]
    next absent =>
      obtain ⟨member, exists', found⟩ := ih owned
      refine ⟨mem_cons_of_mem _ member, exists', ?_⟩
      rw [valueOf?]
      split
      next inner isInner =>
        -- the first frame has the name only if it is the one that is assigned to
        rw [define, frames_modify] at isInner
        split at isInner
        · rw [lookup_assign, if_pos rfl] at isInner
          exact isInner.symm
        · rw [isInner] at absent
          exact absurd rfl absent
      next => exact found

end Store

namespace Evaluate

variable {context : Context} {store : Store} {frame : FrameId} {env : Environment}

/-- What an assignment to a variable does to what names mean. -/
theorem setVariable_reads (exists' : frame < store.frames.size) (env : Environment)
    (name : String) (value : Value) :
    ∃ after, Run.setVariable (frame :: env) name value store = (.ok (), after) ∧
      after.frames.size = store.frames.size ∧ ∀ other, after.valueOf? other (frame :: env) =
        if other = name then some value else store.valueOf? other (frame :: env) := by
  have assigned (id : FrameId)
      (found : (store.define id name value).valueOf? name (frame :: env) = some value) :
      (store.define id name value).frames.size = store.frames.size ∧
        ∀ other, (store.define id name value).valueOf? other (frame :: env) =
          if other = name then some value else store.valueOf? other (frame :: env) := by
    refine ⟨by simp [Store.define], fun other => ?_⟩
    split
    next same => rw [same, found]
    next differs => exact Store.valueOf?_define_of_ne differs
  unfold Run.setVariable
  rw [steps_get]
  cases owned : store.owner? name (frame :: env) with
  | some id => exact ⟨_, rfl, assigned id (Store.owner?_spec owned).2.2⟩
  | none =>
    refine ⟨_, rfl, assigned frame (Store.valueOf?_cons_of_slot? ?_)⟩
    rw [Store.slot?_define exists', if_pos rfl]

/-- The value that a name gets when names are given values in order; a name without a value is nil,
and the last one counts. -/
def handed : List String → List Value → String → Option Value
  | [], _, _ => none
  | first :: rest, values, name =>
    (handed rest values.tail name).or (if name = first then some (values.headD .nil) else none)

theorem exists_handed {params : List PlainParam} {param : PlainParam} (member : param ∈ params)
    (values : List Value) :
    ∃ value, handed (params.map Param.name) values param.name = some value := by
  induction params generalizing values with
  | nil => cases member
  | cons first rest ih =>
    rw [map_cons, handed]
    rcases mem_cons.1 member with rfl | inRest
    · cases handed (rest.map Param.name) values.tail param.name with
      | some value => exact ⟨value, rfl⟩
      | none => exact ⟨values.headD .nil, if_pos rfl⟩
    · obtain ⟨value, isValue⟩ := ih inRest values.tail
      exact ⟨value, by rw [isValue, Option.some_or]⟩

theorem handed_or_step {first : String} {rest : List String} {values : List Value} {name : String}
    {old new : Option Value} (step : new = if name = first then some (values.headD .nil) else old) :
    (handed rest values.tail name).or new = (handed (first :: rest) values name).or old := by
  rw [handed, Option.or_assoc, step]
  split <;> rfl

theorem assignAll_reads (params : List PlainParam) (values : List Value)
    (exists' : frame < store.frames.size) :
    ∃ after, assignAll context (frame :: env)
        (params.map fun param => .name param.loc param.name) values store = (.ok (), after) ∧
      ∀ name, after.valueOf? name (frame :: env) =
        (handed (params.map Param.name) values name).or (store.valueOf? name (frame :: env)) := by
  induction params generalizing store values with
  | nil => exact ⟨store, rfl, fun _ => rfl⟩
  | cons param rest ih =>
    obtain ⟨middle, ran, size, reads⟩ :=
      setVariable_reads exists' env param.name (values.headD .nil)
    obtain ⟨after, ranRest, readsRest⟩ := ih values.tail (exists'.trans_eq size.symm)
    exact ⟨after, (steps_bind ran).trans ranRest, fun name =>
      (readsRest name).trans (handed_or_step (reads name))⟩

theorem assignNil_reads (loc : Loc) (params : List PlainParam) (last : Value)
    (exists' : frame < store.frames.size) :
    ∃ value after, stmts context (frame :: env) last (params.map fun param =>
        .expression loc (.assign loc (.name loc param.name) (.literal loc .nil))) store =
        (.ok value, after) ∧
      ∀ name, after.valueOf? name (frame :: env) =
        (handed (params.map Param.name) [] name).or (store.valueOf? name (frame :: env)) := by
  induction params generalizing store last with
  | nil => exact ⟨last, store, rfl, fun _ => rfl⟩
  | cons param rest ih =>
    obtain ⟨middle, ran, size, reads⟩ := setVariable_reads exists' env param.name .nil
    obtain ⟨value, after, ranRest, readsRest⟩ := ih .nil (exists'.trans_eq size.symm)
    have assigned : stmt context (frame :: env)
        (.expression loc (.assign loc (.name loc param.name) (.literal loc .nil))) store =
        (.ok .nil, middle) := (steps_bind ran).trans rfl
    exact ⟨value, after, (steps_bind assigned).trans ranRest, fun name =>
      (readsRest name).trans (@handed_or_step _ _ [] _ _ _ (reads name))⟩

/-- Binding parameters when no default is needed. -/
theorem bindParams_reads (params : List PlainParam) (args : List Value)
    (supplied : ∀ param ∈ params.drop args.length, param.default = none)
    (exists' : frame < store.frames.size) :
    ∃ after, bindParams context frame env true params args store = (.ok (), after) ∧
      ∀ name, after.slot? frame name =
        (handed (params.map Param.name) args name).or (store.slot? frame name) := by
  induction params generalizing store args with
  | nil => exact ⟨store, rfl, fun _ => rfl⟩
  | cons param rest ih =>
    obtain ⟨name, loc, default?⟩ := param
    have supplies : ∀ param ∈ rest.drop args.tail.length, param.default = none := by
      cases args with
      | nil => exact fun param member => supplied param (mem_cons_of_mem _ member)
      | cons => exact supplied
    have defines : bindParams context frame env true (.mk name loc default? :: rest) args = (do
        Run.define frame name (args.headD .nil)
        bindParams context frame env true rest args.tail) := by
      cases args with
      | cons => rfl
      | nil =>
        have plain : default? = none := supplied _ mem_cons_self
        cases plain
        rfl
    have size : (store.define frame name (args.headD .nil)).frames.size = store.frames.size := by
      simp [Store.define]
    obtain ⟨after, ran, reads⟩ := ih args.tail supplies (exists'.trans_eq size.symm)
    refine ⟨after, ?_, fun other => (reads other).trans (handed_or_step ?_)⟩
    · rw [defines]
      exact (steps_bind rfl).trans ran
    · exact Store.slot?_define exists' ..

/-- What a closure does with its arguments before its body runs: it makes a frame in which its
parameters have values. -/
def enter (context : Context) (closure : Closure) (args : List Value) : Run FrameId := do
  if closure.isLambda then
    checkCount closure.params args (toString closure.params.length)
    let frame ← Run.newFrame []
    bindParams context frame closure.env false closure.params args
    return frame
  else
    let args ← blockArgs closure.params args
    let frame ← Run.newFrame []
    bindParams context frame closure.env true closure.params args
    return frame

/-- The body of a closure runs in the frame that has been entered. -/
theorem callClosure_eq_enter (context : Context) (closure : Closure) (args : List Value) :
    callClosure context closure args = (do
      let frame ← enter context closure args
      let body := stmts context (frame :: closure.env) .nil closure.body
      if closure.isLambda then catchJump body else catchNext body) := by
  unfold callClosure enter
  split <;> simp only [bind_assoc, pure_bind]

/-- The values that the parameters of a block get from the arguments of a call. -/
def received (store : Store) (params : List PlainParam) (args : List Value) : List Value :=
  match args with
  | [.array address] =>
    if 1 < params.length then (store.arrays.items address).toList.take params.length
    else args.take params.length
  | _ => args.take params.length

theorem blockArgs_eq (params : List PlainParam) (args : List Value) (store : Store) :
    blockArgs params args store = (.ok (received store params args), store) := by
  match args with
  | [] => rfl
  | value :: rest =>
    cases value with
    | array address =>
      cases rest with
      | nil =>
        unfold blockArgs received
        dsimp only
        split <;> rfl
      | cons => rfl
    | _ => rfl

theorem handed_take (names : List String) (values : List Value) (name : String) :
    handed names (values.take names.length) name = handed names values name := by
  induction names generalizing values with
  | nil => rfl
  | cons first rest ih =>
    cases values with
    | nil => rfl
    | cons value others => simp [handed, ih]

theorem enter_block (params : List PlainParam) (body : List PlainStmt) (env : Environment)
    (args : List Value)
    (supplied : ∀ param ∈ params.drop (received store params args).length, param.default = none) :
    ∃ frame after, enter context ⟨params, body, env, false⟩ args store = (.ok frame, after) ∧
      ∀ param ∈ params, after.valueOf? param.name (frame :: env) =
        handed (params.map Param.name) (received store params args) param.name := by
  let start : Store := { store with frames := store.frames.push [] }
  have exists' : store.frames.size < start.frames.size := by simp [start]
  have made : Run.newFrame [] store = (.ok store.frames.size, start) := rfl
  obtain ⟨after, ran, reads⟩ := @bindParams_reads context start _ env params _ supplied exists'
  refine ⟨store.frames.size, after, ?_, fun param member => ?_⟩
  · refine (steps_bind (blockArgs_eq params args store)).trans ?_
    exact (steps_bind made).trans ((steps_bind ran).trans rfl)
  · obtain ⟨value, isValue⟩ := exists_handed member (received store params args)
    rw [isValue]
    refine Store.valueOf?_cons_of_slot? ((reads param.name).trans ?_)
    rw [isValue, Option.some_or]

/-- Entering a lambda with one parameter. -/
theorem enter_single (name : String) (loc : Loc) (default? : Option PlainExpr)
    (body : List PlainStmt) (env : Environment) (value : Value) :
    ∃ entered, enter context ⟨[.mk name loc default?], body, env, true⟩ [value] store =
        (.ok store.frames.size, entered) ∧ entered.arrays = store.arrays ∧
      store.frames.size < entered.frames.size ∧
      entered.valueOf? name (store.frames.size :: env) = some value := by
  let start : Store := { store with frames := store.frames.push [] }
  have exists' : store.frames.size < start.frames.size := by simp [start]
  refine ⟨start.define store.frames.size name value, ?_, rfl, ?_, ?_⟩
  · cases default? <;> rfl
  · simpa [Store.define] using exists'
  · refine Store.valueOf?_cons_of_slot? ?_
    rw [Store.slot?_define exists', if_pos rfl]

/-- Several variables that take the elements of an array, or a single value, from another. -/
theorem spread_reads (loc : Loc) (argument : String) {params : List PlainParam}
    (several : 1 < params.length) {value : Value} (exists' : frame < store.frames.size)
    (found : store.valueOf? argument (frame :: env) = some value) :
    ∃ result after, stmts context (frame :: env) .nil [.expression loc (.multiAssign loc
        (params.map fun param => .name param.loc param.name) [.name loc argument])] store =
        (.ok result, after) ∧
      ∀ param ∈ params, after.valueOf? param.name (frame :: env) =
        handed (params.map Param.name) (received store params [value]) param.name := by
  have read : expr context (frame :: env) (.name loc argument) store = (.ok value, store) := by
    rw [expr, nameValue, steps_get, found]
    rfl
  obtain ⟨values, assigned, isReceived⟩ : ∃ values,
      assignedValues [.name loc argument] [value] store = (.ok values, store) ∧
        received store params [value] = values.take params.length := by
    cases value with
    | array address => exact ⟨_, rfl, if_pos several⟩
    | _ => exact ⟨_, rfl, rfl⟩
  obtain ⟨after, ran, reads⟩ := @assignAll_reads context store frame env params values exists'
  have evaluated : stmt context (frame :: env) (.expression loc (.multiAssign loc
      (params.map fun param => .name param.loc param.name) [.name loc argument])) store =
      (.ok (.array after.arrays.size),
        { after with arrays := after.arrays.push values.toArray }) :=
    (steps_bind (exprs_single rfl read)).trans ((steps_bind assigned).trans (steps_bind ran))
  refine ⟨_, _, (steps_bind evaluated).trans rfl, fun param member => ?_⟩
  obtain ⟨given, isGiven⟩ := exists_handed member values
  have length : params.length = (params.map Param.name).length := (length_map _).symm
  rw [isReceived, length, handed_take]
  have kept := @Store.valueOf?_congr after param.name (frame :: env)
    { after with arrays := after.arrays.push values.toArray } fun _ _ => rfl
  refine kept.trans ((reads param.name).trans ?_)
  rw [isGiven, Option.some_or]

end Evaluate

open Evaluate

/-- The lambda of a hoisted block, entered with an argument or without one, gives the block's
parameters the values that the block takes from the arguments. -/
theorem innerParams_reads (context : Context) (names : NameSupply) (params : List PlainParam)
    (loc : Loc) (body : List PlainStmt) (env : Environment) (store : Store) {args : List Value}
    (few : args.length ≤ 1) :
    ∃ frame entered last after,
      enter context ⟨(HoistedClosure.innerParams names params args.length loc).1.1, body, env, true⟩
        args store = (.ok frame, entered) ∧
      stmts context (frame :: env) .nil
        (HoistedClosure.innerParams names params args.length loc).1.2 entered = (.ok last, after) ∧
      ∀ param ∈ params, after.valueOf? param.name (frame :: env) =
        handed (params.map Param.name) (received store params args) param.name := by
  rcases args with _ | ⟨value, _ | ⟨other, rest⟩⟩
  · let entered : Store := { store with frames := store.frames.push [] }
    have exists' : store.frames.size < entered.frames.size := by simp [entered]
    obtain ⟨last, after, ran, reads⟩ := @assignNil_reads context _ _ env loc params .nil exists'
    refine ⟨store.frames.size, entered, last, after, rfl, ran, fun param member => ?_⟩
    obtain ⟨given, isGiven⟩ := exists_handed member []
    have nothing : received store params [] = [] := take_nil
    rw [nothing, isGiven, reads, isGiven, Option.some_or]
  · rcases params with _ | ⟨⟨name, paramLoc, default?⟩, _ | ⟨second, rest⟩⟩
    · obtain ⟨entered, ran, -⟩ :=
        @enter_single context store (names.fresh "arg").1 loc none body env
        value
      exact ⟨_, entered, .nil, entered, ran, rfl, forall_mem_nil _⟩
    · obtain ⟨entered, ran, -, -, found⟩ := @enter_single context store name paramLoc default? body
        env value
      refine ⟨_, entered, .nil, entered, ran, rfl, forall_mem_singleton.2 (found.trans ?_)⟩
      cases value <;> simp [handed, received, Param.name]
    · obtain ⟨entered, ran, arrays, exists', found⟩ := @enter_single context store
        (names.fresh "arg").1 loc none body env value
      obtain ⟨last, after, ranFront, reads⟩ := @spread_reads context _ _ env loc _
        (.mk name paramLoc default? :: second :: rest) (by simp) value exists' found
      have same : received entered (.mk name paramLoc default? :: second :: rest) [value] =
          received store (.mk name paramLoc default? :: second :: rest) [value] := by
        unfold received
        rw [arrays]
      exact ⟨_, entered, last, after, ran, ranFront, same ▸ reads⟩
  · simp at few

/-- The lambda of a hoisted block gives the block's parameters the values that the block takes from
the arguments, and nil where there is none.  The block binds its parameters to the same values
unless one that gets no value has a default. -/
theorem build_binds_params (context : Context) (names : NameSupply) (loc : Loc)
    (captures : CaptureSet) (params : List PlainParam) (body : List PlainStmt)
    (isCell : ScopeId → String → Bool) (args : List Value) (few : args.length ≤ 1) :
    ∃ name inner front,
      (HoistedClosure.build names loc captures params body args.length isCell).1.1.definition =
        .define loc () name (captures.map fun capture => .mk capture.name loc none)
          [.expression loc (.lambda loc () inner (front ++ body))] ∧
      ∀ (store : Store) (env : Environment), ∃ frame entered last after,
        enter context ⟨inner, front ++ body, env, true⟩ args store = (.ok frame, entered) ∧
        stmts context (frame :: env) .nil front entered = (.ok last, after) ∧
        (∀ param ∈ params, after.valueOf? param.name (frame :: env) =
          handed (params.map Param.name) (received store params args) param.name) ∧
        ∀ (blockBody : List PlainStmt) (blockEnv : Environment),
          (∀ param ∈ params.drop (received store params args).length, param.default = none) →
          ∃ blockFrame bound,
            enter context ⟨params, blockBody, blockEnv, false⟩ args store =
              (.ok blockFrame, bound) ∧
            ∀ param ∈ params, ∃ value,
              bound.valueOf? param.name (blockFrame :: blockEnv) = some value ∧
              after.valueOf? param.name (frame :: env) = some value := by
  refine ⟨_, _, _, rfl, fun store env => ?_⟩
  obtain ⟨frame, entered, last, after, ran, ranFront, reads⟩ :=
    innerParams_reads context (names.fresh "block").2 params loc _ env store few
  refine ⟨frame, entered, last, after, ran, ranFront, reads, fun blockBody blockEnv supplied => ?_⟩
  obtain ⟨blockFrame, bound, ranBlock, blockReads⟩ :=
    @enter_block context store params blockBody blockEnv args supplied
  refine ⟨blockFrame, bound, ranBlock, fun param member => ?_⟩
  obtain ⟨value, isValue⟩ := exists_handed member (received store params args)
  exact ⟨value, (blockReads param member).trans isValue, (reads param member).trans isValue⟩

/-- Two parameters that take an array of one element apart. -/
theorem build_binds_params_short : ∃ name inner front frame entered last after blockFrame bound,
      (HoistedClosure.build { start := "_lift" } Loc.start []
        [.mk "a" Loc.start none, .mk "b" Loc.start none] [] 1 fun _ _ => false).1.1.definition =
        .define Loc.start () name []
          [.expression Loc.start (.lambda Loc.start () inner (front ++ []))] ∧
      enter (contextAt {} 0) ⟨inner, front ++ [], [], true⟩ [.array 0]
        { arrays := #[#[.bool true]] } = (.ok frame, entered) ∧
      stmts (contextAt {} 0) [frame] .nil front entered = (.ok last, after) ∧
      enter (contextAt {} 0) ⟨[.mk "a" Loc.start none, .mk "b" Loc.start none], [], [], false⟩
        [.array 0] { arrays := #[#[.bool true]] } = (.ok blockFrame, bound) ∧
      bound.valueOf? "b" [blockFrame] = some .nil ∧ after.valueOf? "b" [frame] = some .nil := by
  obtain ⟨name, inner, front, isDefinition, binds⟩ := build_binds_params (contextAt {} 0)
    { start := "_lift" } Loc.start [] [.mk "a" Loc.start none, .mk "b" Loc.start none] []
    (fun _ _ => false) [.array 0] le_rfl
  obtain ⟨frame, entered, last, after, ran, ranFront, reads, agrees⟩ :=
    binds { arrays := #[#[.bool true]] } []
  obtain ⟨blockFrame, bound, ranBlock, same⟩ := agrees [] [] (forall_mem_singleton.2 rfl)
  have isNil : after.valueOf? "b" [frame] = some .nil := reads (.mk "b" Loc.start none) (by simp)
  obtain ⟨value, isBound, isValue⟩ := same (.mk "b" Loc.start none) (by simp)
  exact ⟨name, inner, front, frame, entered, last, after, blockFrame, bound, isDefinition, ran,
    ranFront, ranBlock, isBound.trans (isValue.symm.trans isNil), isNil⟩

end Hoist
