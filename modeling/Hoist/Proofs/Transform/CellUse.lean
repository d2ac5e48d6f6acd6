import Hoist.Proofs.Conversion.Sites
import Hoist.Proofs.Scope.Nested
import Hoist.Proofs.Transform.Linking

/-!
Where a variable that is held in a cell is read and written through the cell.  What a name becomes
is decided by the path that leads to it: by the last scope whose parameter defaults the path enters,
and by the last hoisted block.
-/

namespace Hoist

open List

variable {input : ConversionInput} {naming : Naming}

def Step.hoisted? (input : ConversionInput) : Step ScopeId → Option ScopeId
  | .defaults .block scope | .body .block scope =>
    if (input.plan.helper? scope).isSome then some scope else none
  | _ => none

theorem Step.site_frame (site : Site) (step : Step ScopeId) : (step.site input site).frame =
      ((step.hoisted? input).map input.analysis.capturesOf).or site.frame := by
  rcases step with _ | _ | _ | ⟨kind, scope⟩ | ⟨kind, scope⟩ <;> try cases kind
  case defaults.block | body.block =>
    simp only [Step.site, ConversionInput.scopeSite, ConversionInput.blockSite, Step.hoisted?]
    cases input.plan.helper? scope <;> rfl
  all_goals rfl

theorem Step.foldl_site {β : Type} (read : Site → Option β) (set : Step ScopeId → Option β)
    (steps : ∀ site step, read (step.site input site) = (set step).or (read site))
    (path : List (Step ScopeId)) (site : Site) :
    read (path.foldl (Step.site input) site) = (path.filterMap set).getLast?.or (read site) := by
  induction path using reverseRecOn with
  | nil => rfl
  | append_singleton path step ih =>
    rw [foldl_append, foldl_cons, foldl_nil, steps, ih, filterMap_append]
    cases found : set step <;> simp [found]

/-- A name at the end of a path is left as it is: the last defaults that the path enters are those
of the variable's scope, or the last hoisted block captures the variable by value. -/
def Bare (input : ConversionInput) (path : List (Step ScopeId)) (scope : ScopeId) (name : String) :
    Prop :=
  (path.filterMap Step.defaultsOf?).getLast? = some scope ∨
    ∃ block, (path.filterMap (Step.hoisted? input)).getLast? = some block ∧
      ⟨name, scope, .byValue⟩ ∈ input.analysis.capturesOf block

variable {path : List (Step ScopeId)}

theorem isCellAt_iff {scope : ScopeId} {name : String}
    (collected : ∀ block ∈ path.filterMap (Step.hoisted? input), ∃ references,
      (input.analysis.capturesOf block).Collects input.table block references)
    (isCell : input.analysis.isCell scope name = true) :
    Conversion.isCellAt input (path.foldl (Step.site input) .top) scope name = true ↔
      ¬ Bare input path scope name := by
  rw [Conversion.isCellAt, Step.foldl_site Site.defaultsOf Step.defaultsOf? fun _ step =>
    step.site_defaultsOf, Step.foldl_site Site.frame _ Step.site_frame, ← map_filterMap,
    getLast?_map, Bare]
  simp only [Site.top, Option.or_none, beq_iff_eq]
  by_cases inDefaults : (path.filterMap Step.defaultsOf?).getLast? = some scope
  · simp [inDefaults]
  rw [if_neg inDefaults]
  cases last : (path.filterMap (Step.hoisted? input)).getLast? with
  | none =>
    simpa only [Option.map_none, Option.bind_none, isCell, true_iff, reduceCtorEq, false_and,
      exists_false, or_false] using inDefaults
  | some block =>
    obtain ⟨references, collected⟩ := collected block (mem_of_getLast? last)
    simp only [inDefaults, false_or, Option.some.injEq, exists_eq_left', Option.map_some,
      Option.bind_some]
    cases there : (input.analysis.capturesOf block).forVariable? scope name with
    | none =>
      simp only [isCell, true_iff]
      intro captured
      cases there.symm.trans (collected.forVariable?_eq_some.2 ⟨captured, rfl, rfl⟩)
    | some capture =>
      obtain ⟨captured, rfl, rfl⟩ := collected.forVariable?_eq_some.1 there
      rw [beq_iff_eq]
      constructor
      · intro byCell byValue
        have same := Option.some.inj
          (there.symm.trans (collected.forVariable?_eq_some.2 ⟨byValue, rfl, rfl⟩))
        cases byCell.symm.trans (congrArg Capture.mode same)
      · intro noValue
        cases mode : capture.mode with
        | byCell => rfl
        | byValue => exact absurd (mode ▸ captured) noValue

variable {child : ResolvedNode} {step : Step ScopeId}

namespace Node

theorem Reaches.last {node last : ResolvedNode}
    (reaches : node.Reaches (path ++ [step]) last) :
    ∃ middle, node.Reaches path middle ∧ (step, last) ∈ middle.children := by
  induction path generalizing node with
  | nil =>
    obtain _ | ⟨member, ⟨⟩⟩ := reaches
    exact ⟨node, .here node, member⟩
  | cons first path ih =>
    obtain _ | ⟨member, reaches⟩ := reaches
    obtain ⟨middle, before, isLast⟩ := ih reaches
    exact ⟨middle, .step member before, isLast⟩

theorem hoisted?_step (input : ConversionInput) (site : Site) {node : ResolvedNode}
    (member : (step, child) ∈ node.children) :
    step.hoisted? input = (Part.hoisted? input ⟨site, node⟩).map HoistedBlock.scope := by
  rcases node with tree | ⟨_, _, _ | _⟩ | ⟨_, scope, _, _⟩ | tree
  case block =>
    simp only [children, opened, stmts, mem_append, mem_map] at member
    cases planned : input.plan.helper? scope <;>
      grind [Step.hoisted?, Part.hoisted?, HoistedBlock.scope, Block.scope]
  case expr | stmt =>
    rcases tree <;> simp only [children, exprs, opened, stmts] at member <;>
      grind [Step.hoisted?, Part.hoisted?]
  all_goals simp only [children, exprs] at member; grind [Step.hoisted?, Part.hoisted?]

end Node

/-- What stands in a block stands in the method that it becomes, its defaults only if it has one
parameter and takes an argument. -/
theorem Image.closure_reaches {name argument : String} {captures : CaptureSet} {arity : Nat}
    {block : PlainBlock} {child : Step Unit × PlainNode}
    (member : child ∈ (Node.block block).children)
    (kept : child.1 = .defaults .block () → arity ≠ 0 ∧ block.params.length = 1) :
    ∃ route, (Node.stmt (Image.closure name argument captures arity block).definition).Reaches route
      child.2 := by
  obtain ⟨loc, _, params, body⟩ := block
  have made : (Image.closure name argument captures arity (.mk loc () params body)).definition =
    .define loc () name (captures.map fun capture => .mk capture.name loc none)
      [.expression loc (.lambda loc () (lambdaParams argument params arity loc).1
        ((lambdaParams argument params arity loc).2 ++ body))] := rfl
  rw [made]
  suffices inside : ∃ step, (step, child.2) ∈ Node.opened .lambda ()
      (lambdaParams argument params arity loc).1
      ((lambdaParams argument params arity loc).2 ++ body) by
    obtain ⟨step, inside⟩ := inside
    exact ⟨_, .step (mem_append_right _ (mem_singleton_self _))
      (.step (mem_singleton_self _) (.step inside (.here _)))⟩
  obtain isParam | isBody := mem_append.1 member
  · obtain ⟨param, isParam, rfl⟩ := mem_map.1 isParam
    obtain ⟨called, single⟩ := kept rfl
    obtain ⟨only, rfl⟩ := length_eq_one_iff.1 single
    refine ⟨_, mem_append_left _ (mem_map.2 ⟨param, ?_, rfl⟩)⟩
    rwa [lambdaParams, if_neg called]
  · obtain ⟨tree, isTree, rfl⟩ := mem_map.1 isBody
    exact ⟨_, mem_append_right _ (mem_map_of_mem (mem_append_right _ isTree))⟩

namespace Rewriting

variable {program : PlainProgram} {rewriting : Rewriting}

/-- The defaults that a path enters are kept where blocks are hoisted: a hoisted block keeps its
default if it has one parameter and is called with an argument. -/
def Keeps (rewriting : Rewriting) (path : List (Step ScopeId)) : Prop :=
  ∀ block ∈ rewriting.resolution.blocks, .defaults .block block.scope ∈ path →
    ∀ helper, rewriting.plan.helper? block.scope = some helper →
      helper.arity ≠ 0 ∧ block.params.length = 1

/-- The steps of a path behind the last hoisted block, as they are in the rewritten program. -/
def own (rewriting : Rewriting) (path : List (Step ScopeId)) : List (Step Unit) :=
  (path.rtakeWhile fun step => (step.hoisted? rewriting.input).isNone).map (Step.map fun _ => ())

variable (sound : rewriting.Sound program naming)
  (valid : stmtsWellFormed (.plain fun _ => True) false program)
include sound valid

variable {tree : ResolvedStmt}

theorem Sound.mem_parts (isTree : tree ∈ rewriting.resolution.program)
    {last : ResolvedNode} (reaches : (Node.stmt tree).Reaches path last) :
    last.WellFormed (.resolved fun _ => True) ∧
      ⟨path.foldl (Step.site rewriting.input) .top, last⟩ ∈ rewriting.parts := by
  have wellFormed := Node.wellFormed_stmts (sound.source valid).wellFormed tree isTree
  have lastValid := wellFormed.reached reaches
  refine ⟨lastValid, ?_⟩
  rw [parts, Node.stmtsParts_eq, mem_flatMap]
  refine ⟨tree, isTree, ((Node.gathers_parts rewriting.input).mem_iff _ wellFormed).2
    ⟨path, last, reaches, ?_, mem_singleton_self _⟩⟩
  rw [lastValid.here]
  exact mem_singleton_self _

omit valid in
/-- What stands in a hoisted block stands in its method. -/
theorem Sound.hoisted_child {hoisted : HoistedBlock} (isHoisted : hoisted ∈ rewriting.blocks)
    (member : (step, child) ∈ (Node.block hoisted.block).children)
    (kept : step = .defaults .block hoisted.scope →
      hoisted.helper.arity ≠ 0 ∧ hoisted.block.params.length = 1) :
    ∃ definition ∈ rewriting.program, ∃ route, (Node.stmt definition).Reaches route
      (child.image rewriting.input naming (step.site rewriting.input hoisted.site)) := by
  refine ⟨(hoisted.closure rewriting.input naming).definition, ?_, ?_⟩
  · have made := sound.converted.closures.mem_iff.2 (mem_map_of_mem isHoisted)
    exact mem_append_left _ (mem_append_right _ (mem_map_of_mem made))
  obtain ⟨site, helper, ⟨loc, scope, params, body⟩⟩ := hoisted
  have inside : (step.map (fun _ => ()), child.image rewriting.input naming
      (step.site rewriting.input site)) ∈ (Node.block (Image.block rewriting.input naming site
        (.mk loc scope params body))).children := Node.opened_image member _
  refine Image.closure_reaches inside fun isDefault => ?_
  rw [Image.block, Block.params, Image.params_eq_map, length_map]
  obtain isParam | isBody := mem_append.1 member
  · obtain ⟨_, -, same⟩ := mem_map.1 isParam
    exact kept (congrArg Prod.fst same).symm
  · obtain ⟨_, -, same⟩ := mem_map.1 isBody
    cases same
    cases isDefault

theorem Sound.part_mem_blocks {site : Site} {tree : ResolvedBlock}
    (isPart : ⟨site, .block tree⟩ ∈ rewriting.parts) : tree ∈ rewriting.resolution.blocks := by
  have met := mem_map_of_mem (f := Part.node) isPart
  rw [sound.parts_map_node valid] at met
  rw [Resolution.blocks_eq]
  exact mem_filterMap.2 ⟨_, met, rfl⟩

theorem Sound.placed (isTree : tree ∈ rewriting.resolution.program) {last : ResolvedNode}
    (reaches : (Node.stmt tree).Reaches path last) (kept : rewriting.Keeps path)
    (staying : Part.hoisted? rewriting.input
      ⟨path.foldl (Step.site rewriting.input) .top, last⟩ = none) :
    ∃ definition ∈ rewriting.program, ∃ route, (Node.stmt definition).Reaches route
        (last.image rewriting.input naming (path.foldl (Step.site rewriting.input) .top)) ∧
      (rewriting.own path).Sublist route := by
  induction path using reverseRecOn generalizing last with
  | nil =>
    cases reaches
    refine ⟨Image.stmt rewriting.input naming .top tree, ?_, [], .here _, nil_sublist _⟩
    rw [Rewriting.program, sound.converted.body, Image.stmts_eq_map]
    exact mem_append_right _ (mem_append_right _ (mem_map_of_mem isTree))
  | append_singleton path step ih =>
    obtain ⟨middle, before, member⟩ := reaches.last
    obtain ⟨wellFormed, isPart⟩ := sound.mem_parts valid isTree before
    rw [foldl_append, foldl_cons, foldl_nil] at staying ⊢
    have entered := Node.hoisted?_step rewriting.input
      (path.foldl (Step.site rewriting.input) .top) member
    cases stays : Part.hoisted? rewriting.input
      ⟨path.foldl (Step.site rewriting.input) .top, middle⟩ with
    | none =>
      obtain ⟨definition, isDefinition, route, reached, follows⟩ :=
        ih before (fun block isBlock enters => kept block isBlock (mem_append_left _ enters)) stays
      obtain ⟨more, -, further⟩ := @Node.image_child _ naming _ _ _ _ _ wellFormed
        (sound.fits valid _ isPart) member stays staying
      refine ⟨definition, isDefinition, _, reached.trans further, ?_⟩
      rw [own, rtakeWhile_concat_pos _ _ _ (by rw [entered, stays]; rfl), map_append]
      exact follows.append ((nil_sublist more).cons_cons _)
    | some hoisted =>
      have isHoisted : hoisted ∈ rewriting.blocks := mem_filterMap.2 ⟨_, isPart, stays⟩
      cases middle with
      | expr | param | stmt => cases stays
      | block tree =>
        obtain ⟨helper, planned, rfl⟩ := Option.map_eq_some_iff.1 stays
        obtain ⟨definition, isDefinition, route, reached⟩ := sound.hoisted_child isHoisted member
          fun enters => kept tree (sound.part_mem_blocks valid isPart)
            (enters ▸ mem_append_right _ (mem_singleton_self _)) helper planned
        refine ⟨definition, isDefinition, route, reached, ?_⟩
        rw [own, rtakeWhile_concat_neg _ _ _ (by rw [entered, stays]; exact Bool.false_ne_true)]
        exact nil_sublist _

theorem Sound.path_collected (isTree : tree ∈ rewriting.resolution.program)
    {last : ResolvedNode} (reaches : (Node.stmt tree).Reaches path last) :
    ∀ scope ∈ path.filterMap (Step.hoisted? rewriting.input), ∃ references,
      (rewriting.analysis.capturesOf scope).Collects rewriting.resolution.table scope
        references := by
  induction path using reverseRecOn generalizing last with
  | nil => exact nofun
  | append_singleton path step ih =>
    obtain ⟨middle, before, member⟩ := reaches.last
    rw [filterMap_append, forall_mem_append]
    refine ⟨ih before, fun scope entered => ?_⟩
    obtain ⟨-, isPart⟩ := sound.mem_parts valid isTree before
    obtain ⟨step, isStep, enters⟩ := mem_filterMap.1 entered
    obtain rfl := mem_singleton.1 isStep
    rw [Node.hoisted?_step _ (path.foldl (Step.site rewriting.input) .top) member,
      Option.map_eq_some_iff] at enters
    obtain ⟨hoisted, isHoisted, rfl⟩ := enters
    cases middle with
    | expr | param | stmt => cases isHoisted
    | block block =>
      obtain ⟨helper, -, rfl⟩ := Option.map_eq_some_iff.1 isHoisted
      obtain ⟨captured, -⟩ :=
        analyzeCaptures_spec sound.analyzed (resolve_scopes_nodup sound.resolved)
      exact ⟨_, captures_collects (captured block (sound.part_mem_blocks valid isPart))⟩

end Rewriting

/-- A name of a variable that is held in a cell becomes a use of the cell's content, except in two
places: in the defaults of the variable's own scope, the closures in them included, and in a hoisted
block that captures the variable by value. -/
theorem rewrite_uses_cells {text : Text} {program : PlainProgram} {resolution : Resolution}
    (parsed : parse text = .ok program) (resolved : resolve program = .ok resolution) :
    ∃ rewriting, rewrite program = .ok rewriting ∧ rewriting.resolution = resolution ∧
      ∀ tree ∈ resolution.program, ∀ path loc occurrence scope,
        (Node.stmt tree).Reaches path (.expr (.name loc occurrence)) →
        occurrence.target = some (.variable scope) →
        rewriting.analysis.isCell scope occurrence.name = true → rewriting.Keeps path →
        ∃ definition ∈ rewriting.program, ∃ route image,
          (Node.stmt definition).Reaches route (.expr image) ∧ (rewriting.own path).Sublist route ∧
          (Bare rewriting.input path scope occurrence.name → image = .name loc occurrence.name) ∧
          (¬ Bare rewriting.input path scope occurrence.name →
            image = HoistedClosure.cellContent loc occurrence.name) := by
  have valid := wellFormed_of_parse parsed
  obtain ⟨rewriting, naming, rewritten, sound⟩ := rewrite_sound valid resolved
  cases sound.resolved.symm.trans resolved
  refine ⟨rewriting, rewritten, rfl, fun tree isTree path loc occurrence scope reaches target isCell
    kept => ?_⟩
  obtain ⟨definition, isDefinition, route, reached, follows⟩ :=
    sound.placed valid isTree reaches kept rfl
  have decides := isCellAt_iff (sound.path_collected valid isTree reaches) isCell
  refine ⟨definition, isDefinition, route, _, reached, follows, fun bare => ?_, fun through => ?_⟩
  · rw [Image.expr, Conversion.name, target]
    exact if_neg (mt decides.1 (not_not_intro bare))
  · rw [Image.expr, Conversion.name, target]
    exact if_pos (decides.2 through)

/-- Where the first definition has a lambda that reads a name as the default of a second parameter,
and a second statement that is a name: the scope of the definition and the names. -/
def defaultAndLast? : ResolvedProgram → Option (ScopeId × Occurrence × Occurrence)
  | .define _ scope _ [_, .mk _ _ (some (.lambda _ _ [] [.expression _ (.name _ inDefault)]))]
      [_, .expression _ (.name _ last)] :: _ => some (scope, inDefault, last)
  | _ => none

theorem rewrite_uses_cells_default : ∃ program rewriting scope loc lastLoc definition route other
      otherRoute,
      parse (.ofString "def f(a, g = -> { a })\n  [1].each { |e| a += e }\n  a\nend\np f(1)\n") =
        .ok program ∧
      rewrite program = .ok rewriting ∧ rewriting.analysis.isCell scope "a" = true ∧
      definition ∈ rewriting.program ∧
      (Node.stmt definition).Reaches route (.expr (.name loc "a")) ∧
      [.defaults .function (), .part, .body .lambda (), .part].Sublist route ∧
      other ∈ rewriting.program ∧
      (Node.stmt other).Reaches otherRoute (.expr (HoistedClosure.cellContent lastLoc "a")) ∧
      [.body .function (), .part].Sublist otherRoute := by
  obtain ⟨program, resolution, parsed, resolved⟩ := accepted_iff.1 (show accepted (.ofString
    "def f(a, g = -> { a })\n  [1].each { |e| a += e }\n  a\nend\np f(1)\n") = true by
      decide +kernel)
  have facts : (parse (.ofString
      "def f(a, g = -> { a })\n  [1].each { |e| a += e }\n  a\nend\np f(1)\n")).toOption.all
      (fun program => checksInput program fun input resolved => (defaultAndLast? resolved).any
        fun found => found.2 == (⟨"a", some (.variable found.1)⟩,
          ⟨"a", some (.variable found.1)⟩) &&
          input.analysis.isCell found.1 "a") = true := by decide +kernel
  obtain ⟨rewriting, rewritten, rfl, uses⟩ := rewrite_uses_cells parsed resolved
  obtain ⟨_, _, again, sound⟩ := rewrite_sound (wellFormed_of_parse parsed) resolved
  cases again.symm.trans rewritten
  rw [parsed, Except.toOption, Option.all] at facts
  replace facts := sound.checked facts
  obtain ⟨⟨scope, _, _⟩, found, facts⟩ := (Option.any_eq_true _ _).1 facts
  simp only [Bool.and_eq_true, beq_iff_eq, Prod.mk.injEq] at facts
  obtain ⟨⟨rfl, rfl⟩, isCell⟩ := facts
  unfold defaultAndLast? at found
  split at found
  case h_2 => cases found
  case h_1 same =>
    cases found
    obtain ⟨definition, isDefinition, route, _, reached, follows, bare, -⟩ :=
      uses _ (same ▸ mem_cons_self) _ _ ⟨"a", some (.variable scope)⟩ scope (.step
        (mem_append_left _ (mem_cons_of_mem _ (mem_singleton_self _)))
        (.step (mem_singleton_self _) (.step (mem_singleton_self _)
          (.step (mem_singleton_self _) (.here _))))) rfl isCell
            fun block _ enters => by simp at enters
    obtain ⟨other, isOther, otherRoute, _, reachedOther, followsOther, -, through⟩ :=
      uses _ (same ▸ mem_cons_self) _ _ ⟨"a", some (.variable scope)⟩ scope (.step
        (mem_append_right _ (mem_cons_of_mem _ (mem_singleton_self _)))
        (.step (mem_singleton_self _) (.here _))) rfl isCell fun block _ enters => by simp at enters
    obtain rfl := bare (.inl rfl)
    obtain rfl := through (by rintro (last | ⟨_, last, -⟩) <;> cases last)
    exact ⟨program, rewriting, scope, _, _, definition, route, other, otherRoute, parsed, rewritten,
      isCell, isDefinition, reached, follows, isOther, reachedOther, followsOther⟩

end Hoist
