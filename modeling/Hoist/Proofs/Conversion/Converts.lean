import Hoist.Proofs.Conversion.Image
import Hoist.Proofs.Helper.Instantiate
import Hoist.Proofs.Scope.Resolved

/-!
Conversion gives images.  Started with a sound supply of names, the conversion of a well-formed
resolved tree succeeds.  The names that it takes belong to the stop marker, to a helper or to a
hoisted block, and under every naming that agrees with them its result is the image of the tree and
the closures that it adds are those of the hoisted blocks.
-/

namespace Hoist

open List

open Lexeme

variable {α β : Type}

/-- The names that a hoisted block was given. -/
structure Given where
  scope : ScopeId
  closure : String
  argument : Option String

def Given.names (given : Given) : List String := given.closure :: given.argument.toList

/-- A helper that is in use has the definition of a helper of the table. -/
def UsedHelper.Made (used : UsedHelper) (stop : Option String) : Prop :=
  ∃ helper iteration, (helper, iteration) ∈ Helper.iterations ∧ used.base = helper.base ∧
    ∃ marker ∈ stop, helper.instantiate used.name marker = .ok used.definition

/-- What holds of a state between the steps of conversion.  The issued names are those of the stop
marker and the helpers, and some others. -/
structure ConversionState.Ready (reserved others : List String) (state : ConversionState) :
    Prop where
  names : state.names.Ready
  reserved : state.names.reserved = reserved
  named : ∀ name ∈ state.names.issued, isName name = true
  issued : state.names.issued.Perm
    (state.stop.toList ++ state.helpers.map UsedHelper.name ++ others)
  made : ∀ used ∈ state.helpers, used.Made state.stop
  bases : (state.helpers.map UsedHelper.base).Nodup

/-- What has a name keeps it. -/
structure ConversionState.Extends (before after : ConversionState) : Prop where
  stop : ∀ marker ∈ before.stop, marker ∈ after.stop
  helpers : before.helpers ⊆ after.helpers

theorem ConversionState.Ready.take {reserved others : List String} {state : ConversionState}
    (ready : state.Ready reserved others) {taken : String × NameSupply}
    (issues : state.names.Issues taken) :
    ({ state with names := taken.2 } : ConversionState).Ready reserved (others ++ [taken.1]) where
  names := issues.ready
  reserved := issues.reserved.trans ready.reserved
  named := by
    rw [issues.issued]
    exact forall_mem_append.2 ⟨ready.named, forall_mem_singleton.2 issues.named⟩
  issued := by
    rw [issues.issued, ← append_assoc]
    exact ready.issued.append_right _
  made := ready.made
  bases := ready.bases

theorem ConversionState.Extends.refl (state : ConversionState) : state.Extends state :=
  ⟨fun _ => id, fun _ => id⟩

theorem ConversionState.Extends.trans {first second third : ConversionState}
    (left : first.Extends second) (right : second.Extends third) : first.Extends third :=
  ⟨fun marker known => right.stop marker (left.stop marker known),
    fun _ known => right.helpers (left.helpers known)⟩

/-- A naming that uses the names that were given. -/
structure Naming.Agrees (naming : Naming) (state : ConversionState) (given : List Given) :
    Prop where
  stop : ∀ marker ∈ state.stop, naming.stop = marker
  helpers : ∀ used ∈ state.helpers, naming.helper used.base = used.name
  given : ∀ entry ∈ given, naming.closure entry.scope = entry.closure ∧
    ∀ name ∈ entry.argument, naming.argument entry.scope = name

theorem Naming.Agrees.mono {naming : Naming} {before after : ConversionState}
    {given more : List Given} (agrees : naming.Agrees after more) (extended : before.Extends after)
    (within : given ⊆ more) : naming.Agrees before given where
  stop marker known := agrees.stop marker (extended.stop marker known)
  helpers used known := agrees.helpers used (extended.helpers known)
  given entry member := agrees.given entry (within member)

/-- The plan uses helpers of the table. -/
def ConversionInput.Standard (input : ConversionInput) : Prop :=
  ∀ scope helper, input.plan.helper? scope = some helper →
    ∃ iteration, (helper, iteration) ∈ Helper.iterations

theorem Helper.isHint_base {helper : Helper} {iteration : Iteration}
    (member : (helper, iteration) ∈ Helper.iterations) : isHint helper.base = true := by
  have every : (Helper.iterations.map Prod.fst).all (fun helper => isHint helper.base) = true := by
    decide +kernel
  exact all_eq_true.1 every helper (mem_map.2 ⟨_, member, rfl⟩)

namespace Conversion

/-- Where a step of conversion arrives.  It hoists `blocks` and adds `closures` for them. -/
structure Reaches (reserved others : List String) (state : ConversionState)
    (blocks : List HoistedBlock) (closures : Naming → List HoistedClosure) (image : Naming → α)
    (value : α) (next : ConversionState) (more : List Given) : Prop where
  ready : next.Ready reserved (others ++ more.flatMap Given.names)
  extended : state.Extends next
  scopes : (more.map Given.scope).Perm (blocks.map HoistedBlock.scope)
  helpers : ∀ hoisted ∈ blocks, ∃ used ∈ next.helpers, used.base = hoisted.helper.base
  used : ∀ used ∈ next.helpers, used ∈ state.helpers ∨
    ∃ hoisted ∈ blocks, used.base = hoisted.helper.base
  value : ∀ naming : Naming, naming.Agrees next more → value = image naming
  closures : ∀ naming : Naming, naming.Agrees next more →
    next.closures.Perm (state.closures ++ closures naming)

/-- A step of conversion that succeeds, with a result that depends on the names alone. -/
def Converts (blocks : List HoistedBlock) (closures : Naming → List HoistedClosure)
    (image : Naming → α) (run : Converting α) : Prop :=
  ∀ ⦃reserved others state⦄, state.Ready reserved others →
    ∃ value next more, run state = (.ok value, next) ∧
      Reaches reserved others state blocks closures image value next more

theorem converts_pure (value : α) : Converts [] (fun _ => []) (fun _ => value) (pure value) := by
  intro reserved others state ready
  refine ⟨value, state, [], rfl, ?_⟩
  exact {
    ready := by rwa [flatMap_nil, append_nil]
    extended := .refl state
    scopes := .nil
    helpers := nofun
    used := fun _ => .inl
    value := fun _ _ => rfl
    closures := fun _ _ => by rw [append_nil] }

section Bind

variable {blocks moreBlocks : List HoistedBlock} {closures : Naming → List HoistedClosure}
  {image : Naming → α} {first : Converting α}

theorem Converts.bind {next : α → Converting β} {moreClosures : α → Naming → List HoistedClosure}
    {moreImage : α → Naming → β} (converts : Converts blocks closures image first)
    (step : ∀ value, Converts moreBlocks (moreClosures value) (moreImage value) (next value)) :
    Converts (blocks ++ moreBlocks)
      (fun naming => closures naming ++ moreClosures (image naming) naming)
      (fun naming => moreImage (image naming) naming) (first >>= next) := by
  intro reserved others state ready
  obtain ⟨value, middle, early, ran, reaches⟩ := converts ready
  obtain ⟨result, last, late, ranMore, reachesMore⟩ := step value reaches.ready
  refine ⟨result, last, early ++ late, (steps_bind ran).trans ranMore, ?_⟩
  have agreesEarly : ∀ naming : Naming, naming.Agrees last (early ++ late) →
      naming.Agrees middle early := fun naming agrees =>
    agrees.mono reachesMore.extended (subset_append_left early late)
  have agreesLate : ∀ naming : Naming, naming.Agrees last (early ++ late) →
      naming.Agrees last late := fun naming agrees =>
    agrees.mono (.refl last) (subset_append_right early late)
  exact {
    ready := by
      rw [flatMap_append, ← append_assoc]
      exact reachesMore.ready
    extended := reaches.extended.trans reachesMore.extended
    scopes := by
      rw [map_append, map_append]
      exact reaches.scopes.append reachesMore.scopes
    helpers := fun hoisted member => by
      rcases mem_append.1 member with member | member
      · obtain ⟨used, known, same⟩ := reaches.helpers hoisted member
        exact ⟨used, reachesMore.extended.helpers known, same⟩
      · exact reachesMore.helpers hoisted member
    used := fun used known => by
      rcases reachesMore.used used known with known | ⟨hoisted, member, same⟩
      · rcases reaches.used used known with known | ⟨hoisted, member, same⟩
        · exact .inl known
        · exact .inr ⟨hoisted, mem_append_left _ member, same⟩
      · exact .inr ⟨hoisted, mem_append_right _ member, same⟩
    value := fun naming agrees => by
      rw [reachesMore.value naming (agreesLate naming agrees),
        reaches.value naming (agreesEarly naming agrees)]
    closures := fun naming agrees => by
      rw [← reaches.value naming (agreesEarly naming agrees), ← append_assoc]
      exact (reachesMore.closures naming (agreesLate naming agrees)).trans
        ((reaches.closures naming (agreesEarly naming agrees)).append_right _) }

theorem Converts.congr {otherClosures : Naming → List HoistedClosure}
    (converts : Converts blocks closures image first) (sameBlocks : blocks.Perm moreBlocks)
    (sameClosures : ∀ naming, (closures naming).Perm (otherClosures naming)) :
    Converts moreBlocks otherClosures image first := by
  intro reserved others state ready
  obtain ⟨value, next, more, ran, reaches⟩ := converts ready
  refine ⟨value, next, more, ran, ?_⟩
  exact { reaches with
    scopes := reaches.scopes.trans (sameBlocks.map _)
    helpers := fun hoisted member => reaches.helpers hoisted (sameBlocks.mem_iff.2 member)
    used := fun used known => (reaches.used used known).imp_right fun ⟨hoisted, member, same⟩ =>
      ⟨hoisted, sameBlocks.mem_iff.1 member, same⟩
    closures := fun naming agrees =>
      (reaches.closures naming agrees).trans ((sameClosures naming).append_left _) }

end Bind

section Names

theorem run_takeName {state : ConversionState} (take : NameSupply → String × NameSupply) :
    takeName take state =
      (.ok (take state.names).1, { state with names := (take state.names).2 }) := rfl

variable {reserved others : List String} {state : ConversionState}

theorem stopMarker_run (ready : state.Ready reserved others) :
    ∃ marker next, stopMarker state = (.ok marker, next) ∧ next.Ready reserved others ∧
      state.Extends next ∧ marker ∈ next.stop ∧ next.helpers = state.helpers ∧
      next.closures = state.closures := by
  cases known : state.stop with
  | some marker =>
    refine ⟨marker, state, ?_, ready, .refl state, known, rfl, rfl⟩
    rw [stopMarker, steps_get, known]
    rfl
  | none =>
    have taken := ready.take (ready.names.fixed (show isHint "stop" = true by decide +kernel))
    refine ⟨(state.names.fixed "stop").1, { state with
      names := (state.names.fixed "stop").2, stop := some (state.names.fixed "stop").1 },
      ?_, ?_, ⟨?_, fun _ => id⟩, rfl, rfl, rfl⟩
    · rw [stopMarker, steps_get, known]
      rfl
    · exact { taken with
        issued := by
          have issued := taken.issued
          simp only [known, Option.toList_none, nil_append] at issued
          refine issued.trans ?_
          rw [← append_assoc]
          exact perm_append_singleton _ _
        made := fun used member => by
          obtain ⟨helper, iteration, there, same, marker, named, -⟩ := ready.made used member
          rw [known] at named
          exact absurd named (by simp) }
    · rw [known]
      exact nofun

theorem helperName_run {helper : Helper} {iteration : Iteration}
    (standard : (helper, iteration) ∈ Helper.iterations) (ready : state.Ready reserved others) :
    ∃ name next, helperName helper state = (.ok name, next) ∧ next.Ready reserved others ∧
      state.Extends next ∧ next.closures = state.closures ∧
      (∀ used ∈ next.helpers, used ∈ state.helpers ∨ used.base = helper.base) ∧
      ∃ used ∈ next.helpers, used.base = helper.base ∧ used.name = name := by
  cases known : state.helpers.find? (·.base == helper.base) with
  | some used =>
    refine ⟨used.name, state, ?_, ready, .refl state, rfl, fun _ => .inl, used,
      mem_of_find?_eq_some known, by simpa using find?_some known, rfl⟩
    rw [helperName, steps_get, known]
    rfl
  | none =>
    have issues := ready.names.fixed (Helper.isHint_base standard)
    obtain ⟨marker, middle, ran, readyMiddle, extended, hasMarker, sameHelpers, sameClosures⟩ :=
      stopMarker_run (ready.take issues)
    have markerNamed : isName marker = true :=
      readyMiddle.named marker (readyMiddle.issued.mem_iff.2 (by simp [Option.mem_def.1 hasMarker]))
    obtain ⟨definition, instantiated, -⟩ :=
      Helper.instantiate_reparsed standard issues.named markerNamed fun _ => True
    let used : UsedHelper := ⟨helper.base, (state.names.fixed helper.base).1, definition⟩
    refine ⟨used.name, { middle with helpers := middle.helpers ++ [used] }, ?_, ?_,
      ⟨extended.stop, ?_⟩, sameClosures, ?_, used, by simp, rfl, rfl⟩
    · rw [helperName, steps_get, known]
      refine (steps_bind (run_takeName _)).trans ?_
      rw [steps_bind ran, instantiated]
      rfl
    · have fresh : helper.base ∉ state.helpers.map UsedHelper.base := by
        intro member
        obtain ⟨other, there, same⟩ := mem_map.1 member
        exact find?_eq_none.1 known other there (by simpa using same)
      exact { readyMiddle with
        issued := by
          refine readyMiddle.issued.trans ?_
          rw [map_append, append_assoc, append_assoc, append_assoc]
          exact (perm_append_comm.append_left _).append_left _
        made := forall_mem_append.2 ⟨readyMiddle.made, forall_mem_singleton.2
          ⟨helper, iteration, standard, rfl, marker, hasMarker, instantiated⟩⟩
        bases := by
          rw [map_append, sameHelpers]
          exact ready.bases.append (nodup_singleton _) (by simpa using fresh) }
    · exact fun _ there => mem_append_left _ (extended.helpers there)
    · rw [sameHelpers]
      exact forall_mem_append.2 ⟨fun _ => .inl, forall_mem_singleton.2 (.inr rfl)⟩

theorem converts_stopMarker : Converts [] (fun _ => []) (fun naming => naming.stop) stopMarker := by
  intro reserved others state ready
  obtain ⟨marker, next, ran, readyNext, extended, hasMarker, sameHelpers, sameClosures⟩ :=
    stopMarker_run ready
  refine ⟨marker, next, [], ran, ?_⟩
  exact {
    ready := by rwa [flatMap_nil, append_nil]
    extended
    scopes := .nil
    helpers := nofun
    used := fun _ known => .inl (sameHelpers ▸ known)
    value := fun naming agrees => (agrees.stop marker hasMarker).symm
    closures := fun _ _ => by rw [sameClosures, append_nil] }

theorem converts_jump (site : Site) (loc : Loc) (kind : JumpKind) (value : Option PlainExpr) :
    Converts [] (fun _ => []) (fun naming => Image.jump naming site loc kind value)
      (jump site loc kind value) := by
  unfold jump Image.jump
  split
  · exact converts_pure _
  · cases kind with
    | returnJump | nextJump => exact converts_pure _
    | breakJump => exact converts_stopMarker.bind fun marker => converts_pure _

theorem build_run (ready : state.Ready reserved others) (loc : Loc) (captures : CaptureSet)
    (params : List PlainParam) (body : List PlainStmt) (arity : Nat)
    (isCell : ScopeId → String → Bool) :
    ∃ name argument names, ({ state with names } : ConversionState).Ready reserved
        (others ++ (name :: Option.toList argument)) ∧
      ∀ word, (∀ given ∈ argument, word = given) →
        HoistedClosure.build state.names loc captures params body arity isCell =
          ((Image.closure name word captures arity (.mk loc () params body),
            captures.map (HoistedClosure.argument loc isCell)), names) := by
  have readyName := ready.take (ready.names.fresh (show isHint "block" = true by decide +kernel))
  have readyArgument := readyName.take (readyName.names.fresh
    (show isHint "arg" = true by decide +kernel))
  rw [append_assoc] at readyArgument
  unfold HoistedClosure.build HoistedClosure.innerParams Image.closure Image.lambdaParams
  simp only [Block.params, Block.loc, Block.body]
  split
  · exact ⟨_, none, _, readyName, fun _ _ => rfl⟩
  · rcases params with _ | ⟨first, _ | ⟨second, rest⟩⟩
    · exact ⟨_, some _, _, readyArgument, fun word same => by rw [same _ rfl]⟩
    · exact ⟨_, none, _, readyName, fun _ _ => rfl⟩
    · exact ⟨_, some _, _, readyArgument, fun word same => by rw [same _ rfl]⟩

theorem converts_hoistedCall {input : ConversionInput} {site : Site} {helper : Helper}
    {iteration : Iteration} (standard : (helper, iteration) ∈ Helper.iterations) (loc : Loc)
    (receiver : Option PlainExpr) (block : ResolvedBlock) (params : List PlainParam)
    (body : List PlainStmt) :
    Converts [⟨site, helper, block⟩]
      (fun naming => [Image.closure (naming.closure block.scope) (naming.argument block.scope)
        (input.analysis.capturesOf block.scope) helper.arity (.mk block.loc () params body)])
      (fun naming => Image.hoistedCall input naming site loc receiver helper block.loc block.scope)
      (hoistedCall input site loc receiver helper block.loc block.scope params body) := by
  intro reserved others state ready
  let captures := input.analysis.capturesOf block.scope
  obtain ⟨name, argument, names, readyBuilt, built⟩ := build_run ready block.loc captures params
    body helper.arity (isCellAt input site)
  let closure : String → HoistedClosure := fun word =>
    Image.closure name word captures helper.arity (.mk block.loc () params body)
  let word := argument.getD ""
  have isWord : ∀ given ∈ argument, word = given := fun given member => by
    simp [word, Option.mem_def.1 member]
  let middle : ConversionState := { state with
    names
    closures := state.closures ++ [closure word]
    log := state.log ++ [LogEvent.hoisted name block.loc captures] }
  have readyMiddle : middle.Ready reserved (others ++ (name :: argument.toList)) :=
    { readyBuilt with }
  obtain ⟨helperName, next, ran, readyNext, extended, sameClosures, added, used, there, sameBase,
    sameName⟩ := helperName_run standard readyMiddle
  let closureCall : PlainExpr := .call block.loc none name
    (captures.map (HoistedClosure.argument block.loc (isCellAt input site))) none true
  refine ⟨.call loc none helperName
    ((if helper.hasReceiver then receiver.toList else []) ++ [closureCall]) none true, next,
    [⟨block.scope, name, argument⟩], ?_, ?_⟩
  · rw [hoistedCall, steps_get, built word isWord]
    exact steps_bind ran
  · exact {
      ready := by rwa [flatMap_singleton]
      extended := ⟨extended.stop, extended.helpers⟩
      scopes := .refl _
      helpers := forall_mem_singleton.2 ⟨used, there, sameBase⟩
      used := fun used known => (added used known).imp_right fun same =>
        ⟨_, mem_singleton_self _, same⟩
      value := fun naming agrees => by
        have named := agrees.helpers used there
        rw [sameBase, sameName] at named
        simp only [Image.hoistedCall, Image.closureCall, named,
          (agrees.given _ (mem_singleton_self _)).1]
        rfl
      closures := fun naming agrees => by
        obtain ⟨given, argued⟩ := agrees.given _ (mem_singleton_self _)
        have same : closure word = closure (naming.argument block.scope) :=
          congrArg (fun result => result.1.1)
            ((built word isWord).symm.trans (built (naming.argument block.scope) argued))
        have added : middle.closures = state.closures ++ [closure (naming.argument block.scope)] :=
          congrArg (fun last => state.closures ++ [last]) same
        rw [sameClosures, given, added] }

end Names

section Parts

variable {input : ConversionInput} {site : Site} {parts moreParts : List Part} {image : Naming → α}
  {first : Converting α}

/-- A step that converts some parts of a tree. -/
def ConvertsParts (input : ConversionInput) (parts : List Part) (image : Naming → α)
    (run : Converting α) : Prop :=
  Converts (hoistedBlocks input parts)
    (fun naming => (hoistedBlocks input parts).map (·.closure input naming)) image run

theorem convertsParts_pure (value : α) : ConvertsParts input [] (fun _ => value) (pure value) :=
  converts_pure value

theorem ConvertsParts.congr (converts : ConvertsParts input parts image first)
    (same : parts.Perm moreParts) : ConvertsParts input moreParts image first :=
  Converts.congr converts (same.filterMap _) fun _ => (same.filterMap _).map _

theorem ConvertsParts.bind {next : α → Converting β} {moreImage : α → Naming → β}
    (converts : ConvertsParts input parts image first)
    (step : ∀ value, ConvertsParts input moreParts (moreImage value) (next value)) :
    ConvertsParts input (parts ++ moreParts) (fun naming => moreImage (image naming) naming)
      (first >>= next) := by
  unfold ConvertsParts hoistedBlocks
  simp only [filterMap_append, map_append]
  exact Converts.bind converts step

theorem ConvertsParts.map (change : α → β) (converts : ConvertsParts input parts image first) :
    ConvertsParts input parts (fun naming => change (image naming))
      (first >>= fun value => pure (change value)) := by
  have bound := converts.bind fun value => convertsParts_pure (change value)
  rwa [append_nil] at bound

theorem ConvertsParts.pure_bind {value : β} {next : β → Converting α}
    (converts : ConvertsParts input parts image (next value)) :
    ConvertsParts input parts image (pure value >>= next) := converts

/-- The other parts are not hoisted themselves. -/
theorem ConvertsParts.expr {tree : ResolvedExpr}
    (converts : ConvertsParts input parts image first) :
    ConvertsParts input (⟨site, .expr tree⟩ :: parts) image first := converts

theorem ConvertsParts.param {tree : ResolvedParam}
    (converts : ConvertsParts input parts image first) :
    ConvertsParts input (⟨site, .param tree⟩ :: parts) image first := converts

theorem ConvertsParts.stmt {tree : ResolvedStmt}
    (converts : ConvertsParts input parts image first) :
    ConvertsParts input (⟨site, .stmt tree⟩ :: parts) image first := converts

theorem convertsParts_blockCall (standard : input.Standard) {parameters : List ResolvedParam}
    {body : List ResolvedStmt}
    (convertsParams : ∀ site, ConvertsParts input (paramsParts input site parameters)
      (fun naming => Image.params input naming site parameters) (params input site parameters))
    (convertsBody : ∀ site, ConvertsParts input (stmtsParts input site body)
      (fun naming => Image.stmts input naming site body) (stmts input site body))
    (site : Site) (loc : Loc) (receiver : Option PlainExpr) (method : String)
    (args : List PlainExpr) (blockLoc : Loc) (scope : ScopeId) (parens : Bool) :
    ConvertsParts input (blockParts input site (some (.mk blockLoc scope parameters body)))
      (fun naming => match input.plan.helper? scope with
        | none => .call loc receiver method args
          (some (Image.block input naming site (.mk blockLoc scope parameters body))) parens
        | some helper => Image.hoistedCall input naming site loc receiver helper blockLoc scope)
      (match input.plan.helper? scope with
        | none => do
          let inner := { site with construct := .block }
          let parameters ← params input { inner with defaultsOf := some scope } parameters
          let body := cellPrelude input scope ++ (← stmts input inner body)
          return .call loc receiver method args (some (.mk blockLoc () parameters body)) parens
        | some helper => do
          let inner := { site with
            construct := .hoisted, frame := some (input.analysis.capturesOf scope) }
          let parameters ← params input { inner with defaultsOf := some scope } parameters
          let body := cellPrelude input scope ++ (← stmts input inner body)
          hoistedCall input site loc receiver helper blockLoc scope parameters body) := by
  cases planned : input.plan.helper? scope with
  | none =>
    have inner : input.blockSite site scope = site.inside .block := by
      simp only [ConversionInput.blockSite, planned]
    have left : Part.hoisted? input ⟨site, .block (.mk blockLoc scope parameters body)⟩ = none := by
      simp [Part.hoisted?, Block.scope, planned]
    simp only [Image.block, blockParts, inner]
    unfold ConvertsParts hoistedBlocks
    rw [filterMap_cons_none left]
    exact (convertsParams _).bind fun _ => (convertsBody _).map _
  | some helper =>
    obtain ⟨iteration, member⟩ := standard scope helper planned
    let block : ResolvedBlock := .mk blockLoc scope parameters body
    let inner : Site := input.blockSite site scope
    have isInner : inner = { site with
        construct := .hoisted, frame := some (input.analysis.capturesOf scope) } := by
      simp only [inner, ConversionInput.blockSite, planned]
    have hoists : hoistedBlocks input (blockParts input site (some block)) =
        ⟨site, helper, block⟩ :: (hoistedBlocks input
          (paramsParts input (inner.defaultsIn scope) parameters) ++
          hoistedBlocks input (stmtsParts input inner body)) := by
      have taken : Part.hoisted? input ⟨site, .block block⟩ = some ⟨site, helper, block⟩ := by
        simp [Part.hoisted?, block, Block.scope, planned]
      exact (filterMap_cons_some taken).trans (congrArg _ filterMap_append)
    have converts := Converts.bind (convertsParams (inner.defaultsIn scope)) fun values =>
      Converts.bind (convertsBody inner) fun statements =>
        @converts_hoistedCall input site _ _ member loc receiver block values
          (cellPrelude input scope ++ statements)
    -- the block itself is hoisted after what it contains
    have reordered := @Converts.congr _ _
      (hoistedBlocks input (blockParts input site (some block))) _
      _ _ (fun naming => (hoistedBlocks input (blockParts input site (some block))).map
        (·.closure input naming)) converts
      (by rw [hoists, ← append_assoc]; exact perm_append_singleton _ _)
      (fun naming => by
        rw [hoists, ← append_assoc, map_cons, map_append]
        exact perm_append_singleton _ _)
    rw [isInner] at reordered
    exact reordered

end Parts

section Trees

variable {wording : Wording Occurrence} {input : ConversionInput}

mutual

theorem converts_expr (standard : input.Standard) (site : Site)
    {position : Position} : (tree : ResolvedExpr) → tree.WellFormed wording position →
    ConvertsParts input (tree.parts input site) (fun naming => Image.expr input naming site tree)
      (expr input site tree)
  | .literal .., _ | .symbol .., _ | .name .., _ | .global .., _
  | .constant .., _ => .expr (convertsParts_pure _)
  | .array _ elements, valid => .expr ((converts_exprs standard site elements valid).map _)
  | .splat _ value, valid => .expr ((converts_expr standard site value valid.2).map _)
  | .range _ start stop _, valid => .expr <|
    (converts_expr standard site start valid.1).bind fun _ =>
      (converts_expr standard site stop valid.2).map _
  | .binary _ _ left right, valid => .expr <|
    (converts_expr standard site left valid.2.1).bind fun _ =>
      (converts_expr standard site right valid.2.2).map _
  | .unary _ _ operand, valid => .expr ((converts_expr standard site operand valid.2).map _)
  | .ternary _ condition thenValue elseValue, valid => .expr <| by
    rw [append_assoc]
    exact (converts_expr standard site condition valid.1).bind fun _ =>
      (converts_expr standard site thenValue valid.2.1).bind fun _ =>
        (converts_expr standard site elseValue valid.2.2).map _
  | .lambda _ scope parameters body, valid => .expr <|
    (converts_params standard ((site.inside .lambda).defaultsIn scope) parameters valid.1).bind
      fun _ => (converts_stmts standard (site.inside .lambda) body valid.2).map _
  | .call _ none _ args none _, valid => by
    obtain ⟨-, -, -, argsValid, -⟩ := Expr.wellFormed_call.1 valid
    refine .expr (.pure_bind ?_)
    rw [optionParts, blockParts, nil_append, append_nil]
    exact (converts_exprs standard site args argsValid).map _
  | .call loc none method args (some (.mk blockLoc scope parameters body)) parens, valid => by
    obtain ⟨-, -, -, argsValid, blockValid⟩ := Expr.wellFormed_call.1 valid
    have converts := (converts_exprs standard site args argsValid).bind fun values =>
      convertsParts_blockCall standard
        (fun site => converts_params standard site parameters (blockValid _ rfl).1)
        (fun site => converts_stmts standard site body (blockValid _ rfl).2) site loc none
        method values blockLoc scope parens
    exact .expr (.pure_bind converts)
  | .call _ (some receiver) _ args none _, valid => by
    obtain ⟨-, receiverValid, -, argsValid, -⟩ := Expr.wellFormed_call.1 valid
    refine .expr ?_
    rw [blockParts, append_nil]
    exact (converts_expr standard site receiver (receiverValid _ rfl)).bind fun _ =>
      .pure_bind ((converts_exprs standard site args argsValid).map _)
  | .call loc (some receiver) method args (some (.mk blockLoc scope parameters body)) parens,
      valid => by
    obtain ⟨-, receiverValid, -, argsValid, blockValid⟩ := Expr.wellFormed_call.1 valid
    have converts := (converts_expr standard site receiver (receiverValid _ rfl)).bind
      fun value => (converts_exprs standard site args argsValid).bind fun values =>
        convertsParts_blockCall standard
          (fun site => converts_params standard site parameters (blockValid _ rfl).1)
          (fun site => converts_stmts standard site body (blockValid _ rfl).2) site loc
          (some value) method values blockLoc scope parens
    rw [← append_assoc] at converts
    exact .expr converts
  | .index _ value args, valid => .expr <|
    (converts_expr standard site value valid.1).bind fun _ =>
      (converts_exprs standard site args valid.2.2).map _
  | .assign _ target value, valid => .expr <|
    (converts_expr standard site target valid.2.2.1).bind fun _ =>
      (converts_expr standard site value valid.2.2.2).map _
  | .opAssign _ target _ value, valid => .expr <|
    (converts_expr standard site target valid.2.2.2.1).bind fun _ =>
      (converts_expr standard site value valid.2.2.2.2).map _
  | .multiAssign _ targets values, valid => .expr <|
    (converts_exprs standard site targets valid.2.2.2.1).bind fun _ =>
      (converts_exprs standard site values valid.2.2.2.2.2).map _
  | .block _, valid | .param _, valid | .stmt _, valid => False.elim valid

theorem converts_exprs (standard : input.Standard) (site : Site)
    {position : Position} : (trees : List ResolvedExpr) → exprsWellFormed wording position trees →
    ConvertsParts input (exprsParts input site trees)
      (fun naming => Image.exprs input naming site trees) (exprs input site trees)
  | [], _ => convertsParts_pure _
  | first :: rest, valid =>
    (converts_expr standard site first valid.1).bind fun _ =>
      (converts_exprs standard site rest valid.2).map _

theorem converts_params (standard : input.Standard) (site : Site) : (trees : List ResolvedParam) →
    paramsWellFormed wording trees →
    ConvertsParts input (paramsParts input site trees)
      (fun naming => Image.params input naming site trees) (params input site trees)
  | [], _ => convertsParts_pure _
  | .mk _ _ none :: rest, valid => .param ((converts_params standard site rest valid.2).map _)
  | .mk _ _ (some value) :: rest, valid => .param <|
    (converts_expr standard site value valid.2.1).bind fun _ =>
      (converts_params standard site rest valid.2.2).map _

theorem converts_stmt (standard : input.Standard) (site : Site)
    {chain : Bool} : (tree : ResolvedStmt) → tree.WellFormed wording chain →
    ConvertsParts input (tree.parts input site) (fun naming => Image.stmt input naming site tree)
      (stmt input site tree)
  | .define _ scope _ parameters body, valid => .stmt <|
    (converts_params standard ((site.inside .method).defaultsIn scope) parameters valid.2.1).bind
      fun _ => (converts_stmts standard (site.inside .method) body valid.2.2).map _
  | .expression _ value, valid => .stmt ((converts_expr standard site value valid).map _)
  | .conditional loc condition thenBody elseBody negated modifier elsif, valid => .stmt <| by
    have converts := (converts_expr standard site condition valid.1).bind fun condition =>
      (converts_stmts standard site thenBody valid.2.1).bind fun thenBody =>
        (converts_stmts standard site elseBody valid.2.2.1).map fun elseBody =>
          Stmt.conditional loc condition thenBody elseBody negated modifier elsif
    rw [← append_assoc] at converts
    -- the condition is converted first, even where it is read last
    refine converts.congr (.append_right _ ?_)
    cases modifier with
    | false => exact .refl _
    | true => exact perm_append_comm
  | .whileLoop _ condition body, valid => .stmt <|
    (converts_expr standard site condition valid.1).bind fun _ =>
      (converts_stmts standard (site.inside .whileLoop) body valid.2).map _
  | .jump loc kind none, _ => .stmt (converts_jump site loc kind none)
  | .jump loc kind (some value), valid => .stmt <| by
    have converts := (converts_expr standard site value valid).bind fun value =>
      show ConvertsParts input [] _ _ from converts_jump site loc kind (some value)
    rwa [append_nil] at converts
  | .bare _, valid => False.elim valid

theorem converts_stmts (standard : input.Standard) (site : Site)
    {chain : Bool} : (trees : List ResolvedStmt) → stmtsWellFormed wording chain trees →
    ConvertsParts input (stmtsParts input site trees)
      (fun naming => Image.stmts input naming site trees) (stmts input site trees)
  | [], _ => convertsParts_pure _
  | first :: rest, valid =>
    (converts_stmt standard site first valid.1).bind fun _ =>
      (converts_stmts standard site rest valid.2).map _

end

end Trees

end Conversion

end Hoist
