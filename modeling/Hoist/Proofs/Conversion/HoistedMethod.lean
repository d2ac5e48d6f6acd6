import Hoist.Proofs.Conversion.Program
import Hoist.Proofs.Conversion.Rereading

/-!
The method of a hoisted block is resolved.  Its parameters are the captured variables and nothing
else is seen from it; the lambda in it declares the parameters of the block, in its own parameters
or in statements in front of the body.  So the body finds every name that it had around it.
-/

namespace Hoist

open List

open Resolve (Goes)

section Plain

variable {known : String → Prop} {table : ScopeTable} {outer : Layers} {before after : Layer}

variable {params : List ResolvedParam}

theorem paramsScoped_plain {scope : ScopeId} (plain : ∀ param ∈ params, param.default = none)
    (rules : eventsScoped known table (paramsEvents scope params) (before :: outer)
      (after :: outer)) :
    after = before.declareAll .parameter (params.map Param.name) ∧
      (params.map Param.name).Nodup ∧ ∀ param ∈ params, ¬ before.has param.name := by
  induction params generalizing before with
  | nil =>
    cases rules
    exact ⟨(Layer.declareAll_nil _ _).symm, nodup_nil, nofun⟩
  | cons first rest ih =>
    obtain ⟨name, loc, value⟩ := first
    rw [forall_mem_cons] at plain
    obtain rfl : value = none := plain.1
    obtain ⟨_, rfl, _, ⟨rfl, new⟩, rules⟩ := rules
    obtain ⟨rfl, distinct, newRest⟩ := ih plain.2 rules
    rw [map_cons, Layer.declareAll_cons, nodup_cons, forall_mem_cons]
    refine ⟨rfl, ⟨fun member => ?_, distinct⟩, new, fun param member has => ?_⟩
    · obtain ⟨param, there, same⟩ := mem_map.1 member
      exact newRest param there (Layer.has_declare.2 (.inr same))
    · exact newRest param member (Layer.has_declare.2 (.inl has))

theorem Image.params_plain {input : ConversionInput} {naming : Naming} {site : Site}
    (plain : ∀ param ∈ params, param.default = none) :
    Image.params input naming site params =
      params.map fun param => .mk param.name param.loc none := by
  induction params with
  | nil => rfl
  | cons first rest ih =>
    obtain ⟨name, loc, value⟩ := first
    rw [forall_mem_cons] at plain
    obtain rfl : value = none := plain.1
    rw [Image.params, ih plain.2, map_cons]
    rfl

theorem occurrences_params_plain
    (plain : ∀ param ∈ params, param.default = none) : occurrences (walkParams params) = [] := by
  induction params with
  | nil => rfl
  | cons first rest ih =>
    obtain ⟨name, loc, value⟩ := first
    rw [forall_mem_cons] at plain
    obtain rfl : value = none := plain.1
    rw [walkParams_cons, occurrences_cons]
    exact ih plain.2

theorem not_param_of_outside {block : ResolvedBlock} {place : Layers}
    (rules : block.ScopedAt known table place)
    (plain : ∀ param ∈ block.params, param.default = none) {occurrence : Occurrence}
    {scope : ScopeId}
    (member : occurrence ∈ occurrences (walkParams block.params ++ walkStmts block.body))
    (leads : occurrence.target = some (.variable scope))
    (outside : table.within scope block.scope = false) :
    occurrence.name ∉ block.params.map Param.name := by
  rw [occurrences_append, occurrences_params_plain plain, nil_append] at member
  obtain ⟨loc, id, params, body⟩ := block
  obtain ⟨_, _, _, _, rfl, rules⟩ := rules
  obtain ⟨-, first, last, opens⟩ := opens_of_scoped rules
  obtain ⟨rfl, -, -⟩ := paramsScoped_plain plain opens.params
  intro isParam
  have within : table.within id id = true := by
    rw [ScopeTable.within, beq_self_eq_true, Bool.true_or]
  rcases (walkStmts_placed body opens.body).occurrence member leads with
    inside | ⟨layer, ⟨⟩, rfl⟩ | seen
  · cases (inside _ mem_cons_self).symm.trans outside
  · cases within.symm.trans outside
  · rw [Layers.find?_cons_of_has _ (Layer.has_declareAll.2 (.inr isParam))] at seen
    cases seen
    cases within.symm.trans outside

theorem Block.ScopedAt.opens {block : ResolvedBlock} {place : Layers}
    (rules : block.ScopedAt known table place) : ∃ first last,
      Opens known table .block block.scope block.params block.body place first last := by
  cases block
  obtain ⟨_, _, _, _, rfl, rules⟩ := rules
  exact (opens_of_scoped rules).2

theorem mem_walkParams {param : ResolvedParam}
    (member : param ∈ params) : .param param ∈ walkParams params := by
  induction params with
  | nil => cases member
  | cons first rest ih =>
    obtain ⟨name, loc, value⟩ := first
    rw [walkParams_cons]
    rcases mem_cons.1 member with rfl | member
    · exact mem_cons_self
    · exact mem_cons_of_mem _ (mem_append_right _ (ih member))

end Plain

variable {name : String}

namespace HoistedBlock

variable (input : ConversionInput) (naming : Naming) (hoisted : HoistedBlock)

/-- The parameters of the method that a hoisted block becomes. -/
def methodLayer (method : ScopeId) : Layer :=
  (⟨method, .function, []⟩ : Layer).declareAll .parameter
    ((input.analysis.capturesOf hoisted.scope).map Capture.name)

/-- The lambda that the method of a hoisted block makes. -/
def lambda : PlainExpr :=
  let image := hoisted.image input naming
  let (params, front) := Image.lambdaParams (naming.argument hoisted.scope) image.params
    hoisted.helper.arity image.loc
  .lambda image.loc () params (front ++ image.body)

variable {input naming hoisted}

theorem methodLayer_has {method : ScopeId} : (hoisted.methodLayer input method).has name ↔
      name ∈ (input.analysis.capturesOf hoisted.scope).map Capture.name := by
  rw [methodLayer, Layer.has_declareAll]
  exact or_iff_right (Layer.not_has_of_new _ _ _)

theorem find?_methodLayer {method : ScopeId} {outer : Layers} :
    Layers.find? name (hoisted.methodLayer input method :: outer) =
      if name ∈ (input.analysis.capturesOf hoisted.scope).map Capture.name then some method
      else none := by
  rw [Layers.find?_cons]
  simp only [methodLayer_has]
  rfl

theorem image_eq (plain : ∀ param ∈ hoisted.block.params, param.default = none) :
    hoisted.image input naming = .mk hoisted.block.loc ()
      (hoisted.block.params.map fun param => .mk param.name param.loc none)
      (Conversion.cellPrelude input hoisted.scope ++ Image.stmts input naming
        (input.blockSite hoisted.site hoisted.scope) hoisted.block.body) := by
  obtain ⟨site, helper, ⟨loc, scope, params, body⟩⟩ := hoisted
  rw [← Image.params_plain plain]
  rfl

end HoistedBlock

namespace Rereading

variable {input : ConversionInput} {naming : Naming} {program : ResolvedProgram}
  (reading : Rereading input naming program) {hoisted : HoistedBlock}

include reading

theorem hoisted_place (member : hoisted ∈ input.hoisted program) :
    ∃ place, Layers.Leads input.table [Layer.top] place ∧
      hoisted.block.ScopedAt (Callable reading.defined) input.table place ∧
      hoisted.site.Among place := by
  obtain ⟨last, rules, -⟩ := reading.rules
  have among : Site.top.Among [Layer.top] := fun _ => nofun
  obtain ⟨isPart, -⟩ := mem_hoistedBlocks.1 member
  obtain ⟨_, valid⟩ := reading.wellFormed
  exact stmtsParts_reached program valid rules among _ isPart

theorem hoisted_collected (member : hoisted ∈ input.hoisted program) :
    .block hoisted.block ∈ walkStmts program ∧ (input.plan.helper? hoisted.scope).isSome = true ∧
      (input.analysis.capturesOf hoisted.scope).Collects input.table hoisted.scope
        hoisted.block.references := by
  obtain ⟨isPart, planned⟩ := mem_hoistedBlocks.1 member
  have met : .block hoisted.block ∈ walkStmts program := by
    rw [← reading.parts]
    exact mem_map_of_mem (f := Part.node) isPart
  have isPlanned : (input.plan.helper? hoisted.scope).isSome = true := by
    rw [planned]
    rfl
  exact ⟨met, isPlanned, reading.collected hoisted.block met isPlanned⟩

theorem top_ordered : Layers.Ordered input.table [Layer.top] := by
  obtain ⟨last, rules, ⟨⟨bindings, found, -⟩, -⟩⟩ := reading.rules
  obtain ⟨_, ⟨⟩, extended, -⟩ := (Node.stmts_balanced program).keeps rules
  rw [extended.scope, extended.kind] at found
  intro id member scope isScope
  cases mem_singleton.1 member
  cases found.symm.trans isScope
  exact fun _ around => absurd around not_mem_nil

def hoistedRegion (hoisted : HoistedBlock) (method : ScopeId) (place : Layers) : Region :=
  reading.region place [hoisted.methodLayer input method, Layer.top] (some method)
    fun name => name ∈ (input.analysis.capturesOf hoisted.scope).map Capture.name

section Place

variable {place : Layers} {method : ScopeId}
  (rules : hoisted.block.ScopedAt (Callable reading.defined) input.table place)

include rules

theorem hoistedRegion_sound (member : hoisted ∈ input.hoisted program) :
    (reading.hoistedRegion hoisted method place).Sound := by
  obtain ⟨-, -, collected⟩ := reading.hoisted_collected member
  refine reading.sound (fun name carried => ⟨method, rfl, ?_⟩) fun name unseen => ?_
  · rw [HoistedBlock.find?_methodLayer, if_pos carried]
  · rw [HoistedBlock.find?_methodLayer, if_neg]
    intro carried
    obtain ⟨capture, captured, rfl⟩ := mem_map.1 carried
    cases unseen.symm.trans (collected.seen rules captured)

theorem hoistedRegion_allowsAll (member : hoisted ∈ input.hoisted program)
    (leads : Layers.Leads input.table [Layer.top] place) :
    (reading.hoistedRegion hoisted method place).AllowsAll
      (walkStmtsIn hoisted.scope hoisted.block.body) := by
  obtain ⟨inProgram, -, collected⟩ := reading.hoisted_collected member
  refine reading.allowsAll ?_ (walkStmtsIn_holdBlocks _ _) ?_
  · exact List.Subset.trans (subset_append_right _ _) (contents_subset inProgram)
  · intro occurrence occurs scope target around
    rw [walkStmtsIn_map_snd] at occurs
    have inBlock : occurrence ∈
        occurrences (walkParams hoisted.block.params ++ walkStmts hoisted.block.body) := by
      rw [occurrences_append]
      exact mem_append_right _ occurs
    obtain ⟨capture, captured, named, -⟩ := collected.captured rules
      (leads.ordered reading.top_ordered) inBlock target around
    exact mem_map.2 ⟨capture, captured, named⟩

theorem hoistedRegion_fits (member : hoisted ∈ input.hoisted program)
    (among : hoisted.site.Among place) {path : List ScopeId} {carrying : Carrying} {first : Layer}
    (isScope : first.scope = hoisted.scope) :
    (reading.hoistedRegion hoisted method place).SiteFits
      ⟨input.blockSite hoisted.site hoisted.scope, hoisted.scope, path, carrying, [],
        true⟩ first := by
  obtain ⟨enters, -, -⟩ := rules.placed
  have planned := (mem_hoistedBlocks.1 member).2
  obtain ⟨-, -, collected⟩ := reading.hoisted_collected member
  rw [ConversionInput.blockSite, planned]
  refine ⟨isScope, ⟨fun _ isDefault => ?_, fun _ => rfl⟩, fun id isDefault => ?_, ?_⟩
  · exact Nat.lt_irrefl _ (enters.2 _ (among _ isDefault))
  · exact mem_cons_of_mem _ (among id isDefault)
  · rintro set ⟨⟩ capture captured
    exact Layers.mem_path_of_find? (collected.seen rules captured)

end Place

theorem goes_hoistedBody (member : hoisted ∈ input.hoisted program)
    (plain : ∀ param ∈ hoisted.block.params, param.default = none)
    {method id : ScopeId} {copy : Layer} (isLambda : copy.kind = .lambda)
    (isScope : copy.scope = id)
    (names : ∀ name, reading.own name →
      (copy.has name ↔ name ∈ hoisted.block.params.map Param.name)) :
    Goes reading.definedCopy [id, method, 0] [hoisted.methodLayer input method, Layer.top] copy
      (fun _ => BodyCopied input hoisted.block.body ⟨[(hoisted.scope, id)], some method⟩ id)
      (Resolve.stmts [id, method, 0] (Conversion.cellPrelude input hoisted.scope ++
        Image.stmts input naming (input.blockSite hoisted.site hoisted.scope)
          hoisted.block.body)) := by
  intro isPath table shown knows
  obtain ⟨place, leads, blockRules, among⟩ := reading.hoisted_place member
  obtain ⟨first, last, opens⟩ := blockRules.opens
  obtain ⟨isFirst, -, -⟩ := paramsScoped_plain plain opens.params
  have standing : (reading.hoistedRegion hoisted method place).Standing [id, method, 0]
      ⟨[(hoisted.scope, id)], some method⟩ [⟨first, copy, false⟩] table := by
    rw [isFirst]
    refine ⟨⟨⟨?_, fun name own => ?_⟩, ?_, opens.enters, trivial⟩, isPath, ?_, shown, knows⟩
    · rw [isLambda]
      rfl
    · rw [names name own, Layer.has_declareAll]
      simp [Layer.not_has_of_new]
    · exact fun notReady => absurd notReady Bool.false_ne_true
    · rw [← isScope]
      rfl
  obtain ⟨value, next, copyLast, ran, standingLast, copied⟩ :=
    body_runs (reading.hoistedRegion_sound blockRules member) standing opens.body opens.holds
      (reading.hoistedRegion_fits blockRules member among (by rw [isFirst]; rfl))
      (reading.hoistedRegion_allowsAll blockRules member leads)
  refine ⟨value, next, copyLast, ran, ?_, standingLast.shown, standingLast.knows,
    isScope ▸ copied⟩
  exact (List.cons.inj standingLast.path).1.trans isScope.symm

theorem captured_not_param (member : hoisted ∈ input.hoisted program)
    (plain : ∀ param ∈ hoisted.block.params, param.default = none)
    (captured : name ∈ (input.analysis.capturesOf hoisted.scope).map Capture.name) :
    name ∉ hoisted.block.params.map Param.name := by
  obtain ⟨inProgram, planned, -⟩ := reading.hoisted_collected member
  obtain ⟨place, -, rules, -⟩ := reading.hoisted_place member
  obtain ⟨capture, there, rfl⟩ := mem_map.1 captured
  obtain ⟨occurrence, occurs, named, target, outside⟩ :=
    reading.capture_occurs inProgram planned there
  rw [contentsIn_map_snd] at occurs
  rw [← named]
  exact not_param_of_outside rules plain occurs target outside

theorem own_of_param (member : hoisted ∈ input.hoisted program)
    (isParam : name ∈ hoisted.block.params.map Param.name) : reading.own name := by
  obtain ⟨param, there, rfl⟩ := mem_map.1 isParam
  have inContents : .param param ∈ hoisted.block.contentsIn.map Prod.snd := by
    rw [contentsIn_map_snd]
    exact mem_append_left _ (mem_walkParams there)
  have met := map_subset Prod.snd (contents_subset (reading.hoisted_collected member).1) inContents
  rw [walkStmtsIn_map_snd] at met
  exact reading.named _ met _ (by cases param with | mk name loc value => cases value <;> rfl)

theorem goes_hoistedLambda (member : hoisted ∈ input.hoisted program)
    (plain : ∀ param ∈ hoisted.block.params, param.default = none)
    (argument : ¬ reading.own (naming.argument hoisted.scope)) (method : ScopeId) :
    Goes reading.definedCopy [method, 0] [Layer.top] (hoisted.methodLayer input method)
      (fun _ copy => ∃ id inner front body,
        copy = .lambda hoisted.block.loc id inner (front ++ body) ∧
        BodyCopied input hoisted.block.body ⟨[(hoisted.scope, id)], some method⟩ id body)
      (Resolve.expr [method, 0] (hoisted.lambda input naming)) := by
  obtain ⟨place, -, rules, -⟩ := reading.hoisted_place member
  obtain ⟨first, last, opens⟩ := rules.opens
  obtain ⟨-, distinct, -⟩ := paramsScoped_plain plain opens.params
  rw [HoistedBlock.lambda, HoistedBlock.image_eq plain]
  generalize isTrees : (hoisted.block.params.map fun param => (.mk param.name param.loc none :
    PlainParam)) = trees
  have names : trees.map Param.name = hoisted.block.params.map Param.name := by
    rw [← isTrees, map_map]
    rfl
  have treesPlain : ∀ param ∈ trees, param.default = none := by
    rw [← isTrees]
    exact forall_mem_map.2 fun _ _ => rfl
  have other : naming.argument hoisted.scope ∉ trees.map Param.name := by
    rw [names]
    exact fun isParam => argument (reading.own_of_param member isParam)
  refine Goes.mono (Resolve.goes_openScope fun id => ?_) fun _ _ => And.right
  have unseen : ∀ param ∈ trees, Layers.find? param.name
      [⟨id, .lambda, []⟩, hoisted.methodLayer input method, Layer.top] = none := by
    intro param isParam
    rw [Layers.find?_cons, if_neg (Layer.not_has_of_new _ _ _)]
    refine HoistedBlock.find?_methodLayer.trans (if_neg ?_)
    intro captured
    refine reading.captured_not_param member plain captured ?_
    rw [← names]
    exact mem_map_of_mem isParam
  obtain ⟨middle, goesParams, goesFront⟩ := Resolve.goes_lambdaParams treesPlain (names ▸ distinct)
    other unseen hoisted.helper.arity hoisted.block.loc
  refine goesParams.bind ?_
  rintro _ inner rfl
  have goesBody : Goes reading.definedCopy [id, method, 0]
      [hoisted.methodLayer input method, Layer.top] _ (fun _ copy => ∃ front body,
        copy = front ++ body ∧
        BodyCopied input hoisted.block.body ⟨[(hoisted.scope, id)], some method⟩ id body)
      (Resolve.stmts [id, method, 0] _) :=
    goesFront.append fun after front ⟨isScope, isLambda, has⟩ =>
      (reading.goes_hoistedBody member plain isLambda isScope fun name own => names ▸
        has name fun same => argument (same ▸ own)).mono fun _ body copied =>
          ⟨front, body, rfl, copied⟩
  refine goesBody.map ?_
  rintro _ _ ⟨front, body, rfl, copied⟩
  exact ⟨id, inner, front, body, rfl, copied⟩

theorem goes_hoisted (member : hoisted ∈ input.hoisted program)
    (plain : ∀ param ∈ hoisted.block.params, param.default = none)
    (argument : ¬ reading.own (naming.argument hoisted.scope)) :
    Goes reading.definedCopy [0] [] Layer.top
      (fun after copy => after = Layer.top ∧ hoisted.Copied input copy)
      (Resolve.stmt [0] (hoisted.closure input naming).definition) := by
  obtain ⟨-, -, collected⟩ := reading.hoisted_collected member
  have isClosure : (hoisted.closure input naming).definition =
      .define hoisted.block.loc () (naming.closure hoisted.scope)
        ((input.analysis.capturesOf hoisted.scope).map fun capture =>
          .mk capture.name hoisted.block.loc none)
        [.expression hoisted.block.loc (hoisted.lambda input naming)] := by
    rw [HoistedBlock.closure, HoistedBlock.lambda, HoistedBlock.image_eq plain]
    rfl
  rw [isClosure]
  refine Resolve.goes_openScope fun method => ?_
  have names : ((input.analysis.capturesOf hoisted.scope).map fun capture =>
      (.mk capture.name hoisted.block.loc none : PlainParam)).map Param.name =
        (input.analysis.capturesOf hoisted.scope).map Capture.name := by
    rw [map_map]
    rfl
  refine (Resolve.goes_params (forall_mem_map.2 fun _ _ => rfl)
    (names ▸ collected.distinct) fun _ _ => Layer.not_has_of_new _ _ _).bind ?_
  rintro _ _ ⟨rfl, rfl⟩
  rw [names, map_map]
  have goesBody : Goes reading.definedCopy [method, 0] [Layer.top]
      (hoisted.methodLayer input method) (fun _ copy => ∃ id inner front body,
        copy = [.expression hoisted.block.loc
          (.lambda hoisted.block.loc id inner (front ++ body))] ∧
        BodyCopied input hoisted.block.body ⟨[(hoisted.scope, id)], some method⟩ id body)
      (Resolve.stmts [method, 0]
        [.expression hoisted.block.loc (hoisted.lambda input naming)]) := by
    refine (reading.goes_hoistedLambda member plain argument method).expression ?_
    rintro _ _ ⟨id, inner, front, body, rfl, copied⟩
    exact ⟨id, inner, front, body, rfl, copied⟩
  refine goesBody.map ?_
  rintro _ _ ⟨id, inner, front, body, rfl, copied⟩
  exact ⟨_, method, id, inner, front, body, rfl, copied⟩

end Rereading

end Hoist
