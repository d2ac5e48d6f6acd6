import Hoist.Proofs.Conversion.Image
import Hoist.Proofs.NameSupply
import Hoist.Proofs.Steps

/-!
Names on request.  A supply may be asked for fresh and for fixed names in any order: what it has
issued stays free of repetitions and of the names it keeps off.  Conversion touches its supply in no
other way.  This holds of every tree and every helper table, also when conversion fails halfway.
-/

namespace Hoist

/-- What a supply can be asked for. -/
inductive NameRequest where
  | fresh (hint : String)
  | fixed (base : String)
deriving DecidableEq, Repr

def NameRequest.take (supply : NameSupply) : NameRequest → String × NameSupply
  | .fresh hint => supply.fresh hint
  | .fixed base => supply.fixed base

namespace NameSupply

variable {supply : NameSupply}

/-- The names given for some requests, one after the other, and the supply that is left. -/
def serve (supply : NameSupply) : List NameRequest → List String × NameSupply
  | [] => ([], supply)
  | request :: rest =>
    let (name, next) := request.take supply
    let (names, last) := next.serve rest
    (name :: names, last)

theorem serve_append (supply : NameSupply) (first second : List NameRequest) :
    (supply.serve (first ++ second)).2 = ((supply.serve first).2.serve second).2 := by
  induction first generalizing supply with
  | nil => rfl
  | cons request rest ih => exact ih _

/-- A name is given, and nothing but the counters and the issued names changes. -/
structure Gives (supply : NameSupply) (name : String) (next : NameSupply) : Prop where
  free : supply.taken name = false
  start : next.start = supply.start
  reserved : next.reserved = supply.reserved
  issued : next.issued = supply.issued ++ [name]

theorem gives_fresh (supply : NameSupply) (hint : String) :
    supply.Gives (supply.fresh hint).1 (supply.fresh hint).2 :=
  ⟨firstFree_not_taken supply hint (supply.counter hint + 1), rfl, rfl, rfl⟩

theorem gives_take (supply : NameSupply) (request : NameRequest) :
    supply.Gives (request.take supply).1 (request.take supply).2 := by
  cases request with
  | fresh hint => exact gives_fresh supply hint
  | fixed base =>
    simp only [NameRequest.take, NameSupply.fixed]
    split
    · exact gives_fresh supply base
    · next free => exact ⟨by simpa using free, rfl, rfl, rfl⟩

theorem Gives.sound {name : String} {next : NameSupply} (gives : supply.Gives name next)
    (sound : supply.Sound) : next.Sound := by
  obtain ⟨unreserved, distinct⟩ := sound.issue gives.free
  exact ⟨by rwa [gives.issued, gives.reserved], by rwa [gives.issued]⟩

theorem serve_start (supply : NameSupply) (requests : List NameRequest) :
    (supply.serve requests).2.start = supply.start := by
  induction requests generalizing supply with
  | nil => rfl
  | cons request rest ih => exact (ih _).trans (gives_take supply request).start

theorem serve_reserved (supply : NameSupply) (requests : List NameRequest) :
    (supply.serve requests).2.reserved = supply.reserved := by
  induction requests generalizing supply with
  | nil => rfl
  | cons request rest ih => exact (ih _).trans (gives_take supply request).reserved

/-- What is issued is what was given. -/
theorem serve_issued (supply : NameSupply) (requests : List NameRequest) :
    (supply.serve requests).2.issued = supply.issued ++ (supply.serve requests).1 := by
  induction requests generalizing supply with
  | nil => exact (List.append_nil _).symm
  | cons request rest ih =>
    calc (supply.serve (request :: rest)).2.issued
        = (request.take supply).2.issued ++ ((request.take supply).2.serve rest).1 :=
          ih _
      _ = supply.issued ++ (supply.serve (request :: rest)).1 := by
          rw [(gives_take supply request).issued, List.append_assoc]
          rfl

theorem issued_subset_serve (supply : NameSupply) (requests : List NameRequest) :
    supply.issued ⊆ (supply.serve requests).2.issued := by
  rw [serve_issued]
  exact List.subset_append_left _ _

theorem Sound.serve (sound : supply.Sound) (requests : List NameRequest) :
    (supply.serve requests).2.Sound := by
  induction requests generalizing supply with
  | nil => exact sound
  | cons request rest ih => exact ih ((gives_take supply request).sound sound)

theorem sound_reset (supply : NameSupply) (reserved : List String) :
    (supply.reset reserved).Sound := ⟨nofun, List.nodup_nil⟩

theorem Sound.verified (sound : supply.Sound) :
    verifyNames [] supply.reserved supply.issued = .ok () :=
  verifyNames_ok sound.unreserved (fun _ _ => List.not_mem_nil) sound.distinct

@[simp] theorem counter_setCounter (supply : NameSupply) (hint other : String) (number : Nat) :
    (supply.setCounter hint number).counter other =
      if other = hint then number else supply.counter other := by
  unfold counter setCounter
  rw [List.lookup_cons]
  split
  · next same => rw [if_pos (eq_of_beq same)]; rfl
  · next differs =>
    have different : other ≠ hint := ne_of_beq_false differs
    rw [if_neg different]
    congr 1
    induction supply.counters with
    | nil => rfl
    | cons entry rest ih =>
      obtain ⟨key, old⟩ := entry
      by_cases replaced : key = hint
      · rw [List.filter_cons_of_neg (by simpa using replaced), ih, List.lookup_cons,
          replaced, differs]
      · rw [List.filter_cons_of_pos (by simpa using replaced), List.lookup_cons, ih,
          List.lookup_cons]

/-- A fresh name for a hint: the numbered one with the least number above the hint's counter that is
free, found in at most one try more than there are taken names. -/
structure Numbers (supply : NameSupply) (hint : String) (number : Nat)
    (given : String × NameSupply) : Prop extends supply.Gives given.1 given.2 where
  name : given.1 = supply.start ++ hint ++ "_" ++ toString number
  above : supply.counter hint < number
  least : ∀ other, supply.counter hint < other → other < number →
    supply.numbered hint other ∈ supply.reserved ++ supply.issued
  bound : number ≤ supply.counter hint + (supply.reserved ++ supply.issued).toFinset.card + 1
  /-- More tries do not change what is found. -/
  ends : ∀ tries, (supply.reserved ++ supply.issued).toFinset.card ≤ tries →
    supply.firstFree hint tries (supply.counter hint + 1) = number
  counters : ∀ other, given.2.counter other = if other = hint then number else supply.counter other

theorem numbers_fresh (supply : NameSupply) (hint : String) :
    ∃ number, supply.Numbers hint number (supply.fresh hint) := by
  let start := supply.counter hint + 1
  let found := supply.firstFree hint (supply.reserved.length + supply.issued.length) start
  obtain ⟨above, -, passed, -⟩ := supply.firstFree_passes hint
    (supply.reserved.length + supply.issued.length) start
  have free : supply.taken (supply.numbered hint found) = false :=
    firstFree_free supply.card_taken_le start
  -- both ends are free, and each search passes over taken names only
  have ends (tries : Nat) (enough : (supply.reserved ++ supply.issued).toFinset.card ≤ tries) :
      supply.firstFree hint tries start = found := by
    obtain ⟨above', -, passed', -⟩ := supply.firstFree_passes hint tries start
    rcases lt_trichotomy (supply.firstFree hint tries start) found with less | same | more
    · cases (passed _ above' less).symm.trans (firstFree_free enough start)
    · exact same
    · cases (passed' found above more).symm.trans free
  refine ⟨found, supply.gives_fresh hint, rfl, above,
    fun other least below => taken_iff.1 (passed other least below), ?_, ends,
    fun other => counter_setCounter ..⟩
  have below :=
    (supply.firstFree_passes hint (supply.reserved ++ supply.issued).toFinset.card start).2.1
  rw [ends _ le_rfl] at below
  omega

/-- Counters never go back. -/
theorem counter_le_take (supply : NameSupply) (request : NameRequest) (hint : String) :
    supply.counter hint ≤ (request.take supply).2.counter hint := by
  have fresh (asked : String) : supply.counter hint ≤ (supply.fresh asked).2.counter hint := by
    obtain ⟨number, numbers⟩ := supply.numbers_fresh asked
    rw [numbers.counters]
    split
    · next same => exact same ▸ numbers.above.le
    · exact le_rfl
  cases request with
  | fresh asked => exact fresh asked
  | fixed base =>
    simp only [NameRequest.take, NameSupply.fixed]
    split
    · exact fresh base
    · exact le_rfl

theorem counter_le_serve (supply : NameSupply) (requests : List NameRequest) (hint : String) :
    supply.counter hint ≤ (supply.serve requests).2.counter hint := by
  induction requests generalizing supply with
  | nil => exact le_rfl
  | cons request rest ih => exact (counter_le_take supply request hint).trans (ih _)

/-- Asking for a fresh name gives the least free number, and a later one a larger number, whatever
is asked for in between. -/
theorem fresh_least (supply : NameSupply) (hint : String) :
    ∃ number, supply.Numbers hint number (supply.fresh hint) ∧
      ∀ requests : List NameRequest, ∃ later > number,
        let between := ((supply.fresh hint).2.serve requests).2
        between.Numbers hint later (between.fresh hint) := by
  obtain ⟨number, numbers⟩ := supply.numbers_fresh hint
  refine ⟨number, numbers, fun requests => ?_⟩
  obtain ⟨later, again⟩ := ((supply.fresh hint).2.serve requests).2.numbers_fresh hint
  refine ⟨later, ?_, again⟩
  calc number = (supply.fresh hint).2.counter hint := by rw [numbers.counters, if_pos rfl]
    _ ≤ _ := counter_le_serve _ requests hint
    _ < later := again.above

end NameSupply

/-- The names of what conversion has produced: closures, helpers and the stop marker. -/
def ConversionState.generated (state : ConversionState) : List String :=
  state.closures.map HoistedClosure.name ++ state.helpers.map UsedHelper.name ++ state.stop.toList

namespace Conversion

variable {α β : Type}

/-- One state leads to another: the supply was only asked for names, and what has come has names
from it. -/
structure Leads (before after : ConversionState) : Prop where
  served : ∃ requests, after.names = (before.names.serve requests).2
  named : before.generated ⊆ before.names.issued → after.generated ⊆ after.names.issued

theorem Leads.trans {first second third : ConversionState} (leads : Leads first second)
    (leadsOn : Leads second third) : Leads first third := by
  obtain ⟨requests, served⟩ := leads.served
  obtain ⟨more, servedMore⟩ := leadsOn.served
  refine ⟨⟨requests ++ more, ?_⟩, leadsOn.named ∘ leads.named⟩
  rw [servedMore, served, NameSupply.serve_append]

theorem Leads.refl (state : ConversionState) : Leads state state := ⟨⟨[], rfl⟩, id⟩

theorem Leads.issued {before after : ConversionState} (leads : Leads before after) :
    before.names.issued ⊆ after.names.issued := by
  obtain ⟨requests, served⟩ := leads.served
  rw [served]
  exact NameSupply.issued_subset_serve _ _

theorem leads_of_serve {before after : ConversionState} {requests : List NameRequest}
    (served : after.names = (before.names.serve requests).2)
    (generated : ∀ name ∈ after.generated, name ∈ before.generated ∨ name ∈ after.names.issued) :
    Leads before after := by
  refine ⟨⟨requests, served⟩, fun named name member => ?_⟩
  rcases generated name member with old | new
  · rw [served]
    exact NameSupply.issued_subset_serve _ _ (named old)
  · exact new

/-- From a state, a step only asks the supply for names, and does not complain about them. -/
structure AsksAt (state : ConversionState) (run : Converting α) : Prop where
  leads : Leads state (run state).2
  noCollision : ∀ collision, (run state).1 ≠ .error (.collision collision)

@[inherit_doc AsksAt]
abbrev Asks (run : Converting α) : Prop := ∀ state, AsksAt state run

theorem asks_pure (value : α) : Asks (pure value) := fun state => ⟨.refl state, nofun⟩

theorem asks_throw {error : TransformError} (apart : ∀ collision, error ≠ .collision collision) :
    Asks (throw error : Converting α) :=
  fun state => ⟨.refl state, fun collision same => apart collision (Except.error.inj same)⟩

/-- The state may take up what has a name from the supply. -/
theorem asksAt_modify {state : ConversionState} {change : ConversionState → ConversionState}
    (names : (change state).names = state.names) (generated : ∀ name ∈ (change state).generated,
      name ∈ state.generated ∨ name ∈ state.names.issued) :
    AsksAt state (modify change : Converting Unit) :=
  ⟨@leads_of_serve state _ [] names (names.symm ▸ generated), nofun⟩

theorem AsksAt.bind {state : ConversionState} {first : Converting α} {next : α → Converting β}
    (asked : AsksAt state first)
    (step : ∀ value middle, Leads state middle → AsksAt middle (next value)) :
    AsksAt state (first >>= next) := by
  obtain ⟨leads, noCollision⟩ := asked
  rcases ran : first state with ⟨error | value, middle⟩
  · rw [ran] at leads noCollision
    refine ⟨by rwa [steps_bind_error ran], ?_⟩
    rw [steps_bind_error ran]
    exact fun collision same => noCollision collision (by rw [Except.error.inj same])
  · rw [ran] at leads
    obtain ⟨leadsOn, noCollision⟩ := step value middle leads
    refine ⟨?_, by rwa [steps_bind ran]⟩
    rw [steps_bind ran]
    exact leads.trans leadsOn

theorem Asks.bind {first : Converting α} {next : α → Converting β} (asked : Asks first)
    (step : ∀ value, Asks (next value)) : Asks (first >>= next) :=
  fun state => (asked state).bind fun value middle _ => step value middle

theorem asks_get {next : ConversionState → Converting β}
    (step : ∀ state, AsksAt state (next state)) : Asks (get >>= next) :=
  fun state => ⟨(step state).leads, (step state).noCollision⟩

theorem asks_takeName (request : NameRequest) {next : String → Converting β}
    (step : ∀ name state, name ∈ state.names.issued → AsksAt state (next name)) :
    Asks (takeName (fun supply => request.take supply) >>= next) := by
  intro state
  have issued : (request.take state.names).1 ∈ (request.take state.names).2.issued := by
    rw [(state.names.gives_take request).issued]
    exact List.mem_append_right _ List.mem_cons_self
  let taken : ConversionState := { state with names := (request.take state.names).2 }
  have leads : Leads state taken := @leads_of_serve state taken [request] rfl fun _ => .inl
  exact ⟨leads.trans (step _ taken issued).leads, (step _ taken issued).noCollision⟩

theorem asks_stopMarker : Asks stopMarker := by
  refine asks_get fun state => ?_
  split
  · exact asks_pure _ state
  · refine asks_takeName (.fixed "stop") (fun stop state issued => ?_) state
    refine (asksAt_modify rfl fun name member => ?_).bind fun _ middle _ => asks_pure stop middle
    rcases List.mem_append.1 member with old | new
    · exact .inl (List.mem_append_left _ old)
    · rw [List.mem_singleton.1 new]
      exact .inr issued

theorem asks_helperName (helper : Helper) : Asks (helperName helper) := by
  refine asks_get fun state => ?_
  split
  · exact asks_pure _ state
  · refine asks_takeName (.fixed helper.base) (fun given state issued => ?_) state
    refine (asks_stopMarker state).bind fun stop middle leads => ?_
    split
    · refine asks_throw ?_ middle
      exact nofun
    · refine (asksAt_modify rfl fun name member => ?_).bind fun _ last _ => asks_pure given last
      simp only [ConversionState.generated, List.map_append, List.map_cons, List.map_nil,
        List.mem_append, List.mem_singleton] at member ⊢
      rcases member with (old | old | rfl) | old
      · exact .inl (.inl (.inl old))
      · exact .inl (.inl (.inr old))
      · exact .inr (leads.issued issued)
      · exact .inl (.inr old)

theorem asks_jump (site : Site) (loc : Loc) (kind : JumpKind) (value : Option PlainExpr) :
    Asks (jump site loc kind value) := by
  unfold jump
  split
  · exact asks_pure _
  · cases kind with
    | returnJump => exact asks_pure _
    | nextJump => exact asks_pure _
    | breakJump => exact asks_stopMarker.bind fun _ => asks_pure _

/-- A closure takes a name for itself, and one for its argument unless it has a single parameter or
gets none. -/
theorem build_serves (names : NameSupply) (loc : Loc) (captures : CaptureSet)
    (params : List PlainParam) (body : List PlainStmt) (arity : Nat)
    (isCell : ScopeId → String → Bool) :
    let built := HoistedClosure.build names loc captures params body arity isCell
    (∃ requests, built.2 = (names.serve (.fresh "block" :: requests)).2) ∧
      ∃ inner front, built.1.1.definition = .define loc () built.1.1.name
          (captures.map fun capture => .mk capture.name loc none)
          [.expression loc (.lambda loc () inner (front ++ body))] ∧
        ∀ param ∈ inner, param ∈ params ∨ param.name ∈ built.2.issued := by
  simp only [HoistedClosure.build, HoistedClosure.innerParams]
  split
  · exact ⟨⟨[], rfl⟩, _, _, rfl, nofun⟩
  · split
    · exact ⟨⟨[], rfl⟩, _, _, rfl, fun _ => .inl⟩
    all_goals
      refine ⟨⟨[.fresh "arg"], rfl⟩, _, _, rfl, List.forall_mem_singleton.2 (.inr ?_)⟩
      exact List.mem_append_right _ List.mem_cons_self

theorem build_name (names : NameSupply) (loc : Loc) (captures : CaptureSet)
    (params : List PlainParam) (body : List PlainStmt) (arity : Nat)
    (isCell : ScopeId → String → Bool) :
    (HoistedClosure.build names loc captures params body arity isCell).1.1.name =
      (names.fresh "block").1 := rfl

theorem asks_hoistedCall (input : ConversionInput) (site : Site) (loc : Loc)
    (receiver : Option PlainExpr) (helper : Helper) (blockLoc : Loc) (scope : ScopeId)
    (params : List PlainParam) (body : List PlainStmt) :
    Asks (hoistedCall input site loc receiver helper blockLoc scope params body) := by
  refine asks_get fun state => ?_
  obtain ⟨⟨requests, served⟩, -⟩ := build_serves state.names blockLoc
    (input.analysis.capturesOf scope) params body helper.arity (isCellAt input site)
  have named := build_name state.names blockLoc (input.analysis.capturesOf scope) params body
    helper.arity (isCellAt input site)
  revert served named
  rcases HoistedClosure.build state.names blockLoc (input.analysis.capturesOf scope) params
    body helper.arity (isCellAt input site) with ⟨⟨closure, args⟩, names⟩
  rintro rfl named
  have calls (closureCall : PlainExpr) (front : List PlainExpr) :
      Asks (do
        return Expr.call loc none (← helperName helper) (front ++ [closureCall]) none true) :=
    (asks_helperName helper).bind fun _ => asks_pure _
  obtain ⟨leads, noCollision⟩ := calls _ _ { state with
    names := (state.names.serve (.fresh "block" :: requests)).2
    closures := state.closures ++ [closure]
    log := state.log ++ [LogEvent.hoisted closure.name blockLoc (input.analysis.capturesOf scope)] }
  refine ⟨(leads_of_serve rfl fun name member => ?_).trans leads, noCollision⟩
  simp only [ConversionState.generated, List.map_append, List.map_cons, List.map_nil,
    List.mem_append, List.mem_singleton] at member ⊢
  rcases member with ((old | rfl) | old) | old
  · exact .inl (.inl (.inl old))
  · right
    rw [named, NameSupply.serve_issued]
    exact List.mem_append_right _ List.mem_cons_self
  · exact .inl (.inl (.inr old))
  · exact .inl (.inr old)

/-- A property of runs that conversion has at good places, once its steps have it. -/
structure Closed (input : ConversionInput) (good : Site → Prop)
    (holds : (α : Type) → Converting α → Prop) : Prop where
  pure {α : Type} (value : α) : holds α (Pure.pure value)
  bind {α β : Type} {first : Converting α} {next : α → Converting β} (has : holds α first)
    (step : ∀ value, holds β (next value)) : holds β (first >>= next)
  throw {α : Type} {error : TransformError} (apart : ∀ collision, error ≠ .collision collision) :
    holds α (MonadExcept.throw error)
  step {site : Site} (isGood : good site) (step : Step ScopeId) : good (step.site input site)
  jump {site : Site} (isGood : good site) (loc : Loc) (kind : JumpKind)
    (value : Option PlainExpr) : holds PlainStmt (jump site loc kind value)
  hoistedCall {site : Site} (isGood : good site) {scope : ScopeId} {helper : Helper}
    (planned : input.plan.helper? scope = some helper) (loc : Loc) (receiver : Option PlainExpr)
    (blockLoc : Loc) (params : List PlainParam) (body : List PlainStmt) :
    holds PlainExpr (hoistedCall input site loc receiver helper blockLoc scope params body)

section Closed

variable {input : ConversionInput} {good : Site → Prop} {holds : (α : Type) → Converting α → Prop}

theorem Closed.blockCall (closed : Closed input good holds) {parameters : List ResolvedParam}
    {body : List ResolvedStmt}
    (ofParams : ∀ site, good site → holds _ (params input site parameters))
    (ofBody : ∀ site, good site → holds _ (stmts input site body)) {site : Site}
    (isGood : good site) (loc : Loc) (receiver : Option PlainExpr) (method : String)
    (args : List PlainExpr) (blockLoc : Loc) (scope : ScopeId) (parens : Bool) :
    holds _ (match input.plan.helper? scope with
      | none => do
        let inner := { site with construct := .block }
        let parameters ← params input { inner with defaultsOf := some scope } parameters
        let body := cellPrelude input scope ++ (← stmts input inner body)
        return .call loc receiver method args (some (.mk blockLoc () parameters body)) parens
      | some helper => do
        let inner := { site with
          construct := .hoisted, frame := some (input.analysis.capturesOf scope) }
        let parameters ← params input { inner with defaultsOf := some scope } parameters
        let body := cellPrelude input scope ++ (← stmts input inner body)
        Conversion.hoistedCall input site loc receiver helper blockLoc scope parameters body) := by
  have defaults := ofParams _ (closed.step isGood (.defaults .block scope))
  have inner := ofBody _ (closed.step isGood (.body .block scope))
  simp only [Step.site, ConversionInput.scopeSite, ConversionInput.blockSite] at defaults inner
  cases planned : input.plan.helper? scope with
  | none =>
    rw [planned] at defaults inner
    exact closed.bind defaults fun _ => closed.bind inner fun _ => closed.pure _
  | some helper =>
    rw [planned] at defaults inner
    exact closed.bind defaults fun _ => closed.bind inner fun _ =>
      closed.hoistedCall isGood planned ..

mutual

theorem Closed.expr (closed : Closed input good holds) {site : Site} (isGood : good site) :
    (tree : ResolvedExpr) → holds _ (expr input site tree)
  | .literal _ _ | .symbol _ _ | .name _ _ | .global _ _ | .constant _ _ => closed.pure _
  | .array _ elements => closed.bind (closed.exprs isGood elements) fun _ => closed.pure _
  | .splat _ value => closed.bind (closed.expr isGood value) fun _ => closed.pure _
  | .range _ start stop _ =>
    closed.bind (closed.expr isGood start) fun _ =>
      closed.bind (closed.expr isGood stop) fun _ => closed.pure _
  | .binary _ _ left right =>
    closed.bind (closed.expr isGood left) fun _ =>
      closed.bind (closed.expr isGood right) fun _ => closed.pure _
  | .unary _ _ operand => closed.bind (closed.expr isGood operand) fun _ => closed.pure _
  | .ternary _ condition thenValue elseValue =>
    closed.bind (closed.expr isGood condition) fun _ =>
      closed.bind (closed.expr isGood thenValue) fun _ =>
        closed.bind (closed.expr isGood elseValue) fun _ => closed.pure _
  | .lambda _ scope parameters body =>
    closed.bind (closed.params (closed.step isGood (.defaults .lambda scope)) parameters) fun _ =>
      closed.bind (closed.stmts (closed.step isGood (.body .lambda scope)) body) fun _ =>
        closed.pure _
  | .call _ none _ args none _ =>
    closed.bind (closed.pure none) fun _ =>
      closed.bind (closed.exprs isGood args) fun _ => closed.pure _
  | .call _ (some receiver) _ args none _ =>
    closed.bind (closed.expr isGood receiver) fun _ => closed.bind (closed.pure _) fun _ =>
      closed.bind (closed.exprs isGood args) fun _ => closed.pure _
  | .call _ none _ args (some (.mk _ _ parameters body)) _ =>
    closed.bind (closed.pure none) fun _ => closed.bind (closed.exprs isGood args) fun _ =>
      closed.blockCall (fun _ isGood => closed.params isGood parameters)
        (fun _ isGood => closed.stmts isGood body) isGood ..
  | .call _ (some receiver) _ args (some (.mk _ _ parameters body)) _ =>
    closed.bind (closed.expr isGood receiver) fun _ => closed.bind (closed.pure _) fun _ =>
      closed.bind (closed.exprs isGood args) fun _ =>
        closed.blockCall (fun _ isGood => closed.params isGood parameters)
          (fun _ isGood => closed.stmts isGood body) isGood ..
  | .index _ value args =>
    closed.bind (closed.expr isGood value) fun _ =>
      closed.bind (closed.exprs isGood args) fun _ => closed.pure _
  | .assign _ target value | .opAssign _ target _ value =>
    closed.bind (closed.expr isGood target) fun _ =>
      closed.bind (closed.expr isGood value) fun _ => closed.pure _
  | .multiAssign _ targets values =>
    closed.bind (closed.exprs isGood targets) fun _ =>
      closed.bind (closed.exprs isGood values) fun _ => closed.pure _
  | .block _ | .param _ | .stmt _ => closed.throw nofun

theorem Closed.exprs (closed : Closed input good holds) {site : Site} (isGood : good site) :
    (trees : List ResolvedExpr) → holds _ (exprs input site trees)
  | [] => closed.pure _
  | first :: rest =>
    closed.bind (closed.expr isGood first) fun _ =>
      closed.bind (closed.exprs isGood rest) fun _ => closed.pure _

theorem Closed.params (closed : Closed input good holds) {site : Site} (isGood : good site) :
    (trees : List ResolvedParam) → holds _ (params input site trees)
  | [] => closed.pure _
  | .mk _ _ none :: rest => closed.bind (closed.params isGood rest) fun _ => closed.pure _
  | .mk _ _ (some value) :: rest =>
    closed.bind (closed.expr isGood value) fun _ =>
      closed.bind (closed.params isGood rest) fun _ => closed.pure _

theorem Closed.stmt (closed : Closed input good holds) {site : Site} (isGood : good site) :
    (tree : ResolvedStmt) → holds _ (stmt input site tree)
  | .define _ scope _ parameters body =>
    closed.bind (closed.params (closed.step isGood (.defaults .function scope)) parameters) fun _ =>
      closed.bind (closed.stmts (closed.step isGood (.body .function scope)) body) fun _ =>
        closed.pure _
  | .expression _ value => closed.bind (closed.expr isGood value) fun _ => closed.pure _
  | .conditional _ condition thenBody elseBody _ _ _ =>
    closed.bind (closed.expr isGood condition) fun _ =>
      closed.bind (closed.stmts isGood thenBody) fun _ =>
        closed.bind (closed.stmts isGood elseBody) fun _ => closed.pure _
  | .whileLoop _ condition body =>
    closed.bind (closed.expr isGood condition) fun _ =>
      closed.bind (closed.stmts (closed.step isGood .loop) body) fun _ => closed.pure _
  | .jump loc kind none => closed.jump isGood loc kind none
  | .jump loc kind (some value) =>
    closed.bind (closed.expr isGood value) fun value => closed.jump isGood loc kind (some value)
  | .bare _ => closed.throw nofun

theorem Closed.stmts (closed : Closed input good holds) {site : Site} (isGood : good site) :
    (trees : List ResolvedStmt) → holds _ (stmts input site trees)
  | [] => closed.pure _
  | first :: rest =>
    closed.bind (closed.stmt isGood first) fun _ =>
      closed.bind (closed.stmts isGood rest) fun _ => closed.pure _

end

theorem Closed.program (closed : Closed input good holds) (top : good .top)
    (statements : ResolvedProgram) : holds _ (program input statements) :=
  closed.bind (closed.stmts top statements) fun _ => closed.pure _

end Closed

/-- Conversion of a whole program only asks its supply for names. -/
theorem asks_program (input : ConversionInput) (statements : ResolvedProgram) :
    Asks (program input statements) := by
  have closed : Closed input (fun _ => True) @Asks :=
    { pure := asks_pure
      bind := .bind
      throw := asks_throw
      step := fun _ _ => trivial
      jump := fun _ => asks_jump _
      hoistedCall := fun _ _ _ _ _ _ _ _ _ => asks_hoistedCall _ _ _ _ _ _ _ _ _ }
  exact closed.program trivial statements

end Conversion

end Hoist
