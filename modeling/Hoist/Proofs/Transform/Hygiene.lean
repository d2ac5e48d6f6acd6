import Hoist.Proofs.Conversion.HoistedMethod
import Hoist.Proofs.Conversion.Idle
import Hoist.Proofs.Transform.Accounting

/-!
Hygiene of the whole transformation.  Where no cell is in the way of another name, the rewritten
program can be resolved, and in it every name of the source means the variable or the method that it
meant.
-/

namespace Hoist

open List

open Lexeme

variable {floats : Float → Prop}

namespace Resolve

section Goes

variable {defined : String → Bool} {path : List ScopeId} {outer : Layers} {before : Layer}

/-- A definition declares no variable around it. -/
theorem Goes.define {post : Layer → List ResolvedStmt → Prop} {loc : Loc} {name : String}
    {parameters : List PlainParam} {body : List PlainStmt}
    (goes : Goes defined path outer before post
      (stmts path [.define loc () name parameters body])) :
    Goes defined path outer before (fun after _ => after = before)
      (stmt path (.define loc () name parameters body)) := by
  rintro rfl table shown knows
  obtain ⟨_, _, _, ranAll, -⟩ := goes rfl shown knows
  obtain ⟨⟨copy, next⟩, ran, -⟩ := bind_eq_ok.1 ranAll
  rcases traces_stmt _ (.define loc () name parameters body) table with
    ⟨_, _, _, ran', read, rfl, -⟩ | ⟨_, ran', -⟩ <;> cases ran.symm.trans ran'
  obtain ⟨after, same, -, shown, knows, -, rules⟩ :=
    tracks_of_balanced ((Node.stmt (.define loc () name parameters body)).balanced ()
      false fun _ => rfl)
      shown knows read
  refine ⟨copy, next, after, ran, same, shown, knows, ?_⟩
  obtain ⟨⟨inner, between⟩, -, rest⟩ := bind_eq_ok.1 ran
  obtain ⟨⟨copies, last⟩, -, ⟨⟩⟩ := bind_eq_ok.1 rest
  exact (List.cons.inj (opens_of_scoped (rules next (.refl _ _))).1).1

theorem goes_definitions {ι : Type} {items : List ι} {tree : ι → PlainStmt}
    {holds : ι → ResolvedStmt → Prop} (goes : ∀ item ∈ items, Goes defined path outer before
      (fun after copy => after = before ∧ holds item copy) (stmt path (tree item))) :
    Goes defined path outer before
      (fun after copies => after = before ∧ List.Forall₂ holds items copies)
      (stmts path (items.map tree)) := by
  induction items with
  | nil => exact goes_pure ⟨rfl, .nil⟩
  | cons first rest ih =>
    rw [forall_mem_cons] at goes
    refine goes.1.bind ?_
    rintro _ copy ⟨rfl, holdsFirst⟩
    refine (ih goes.2).map ?_
    rintro _ copies ⟨rfl, holdsRest⟩
    exact ⟨rfl, .cons holdsFirst holdsRest⟩

end Goes

theorem goes_of_resolve {program : PlainProgram} {resolution : Resolution}
    (valid : stmtsWellFormed (.plain floats) false program)
    (resolved : resolve program = .ok resolution) {defined : String → Bool}
    (callable : ∀ name, Callable (definesIn program) name → Callable defined name) :
    Goes defined [0] [] Layer.top (fun _ _ => True) (stmts [0] program) := by
  let input : ConversionInput := ⟨resolution.table, ⟨[], []⟩, {}⟩
  let naming : Naming := ⟨"", id, fun _ => "", fun _ => ""⟩
  have idle : input.Idle := ⟨fun _ => rfl, fun _ _ => rfl⟩
  obtain ⟨source, -⟩ := resolve_resolvesTo valid resolved
  let reading : Rereading input naming resolution.program := {
    defined := definesIn program
    definedCopy := defined
    own := fun _ => True
    rules := (resolve_scoped resolved).2
    wellFormed := ⟨_, source.wellFormed⟩
    callable := fun name _ => callable name
    named := fun _ _ _ _ => trivial
    fits := fun _ _ _ _ _ planned => by cases planned
    collected := fun _ _ planned => by cases planned
    cells := fun _ _ isCell => by cases isCell
    clear := fun _ member => absurd member not_mem_nil }
  have goes := reading.goes_program
  rw [Conversion.cellPrelude_idle idle, Image.stmts_idle naming idle Site.outside_top _ _
    source.wellFormed, source.erased, nil_append] at goes
  exact goes.mono fun _ _ _ => trivial

end Resolve

namespace Helper

variable {helper : Helper} {iteration : Iteration}

theorem iteration_resolves (member : (helper, iteration) ∈ iterations) (name stop : String) :
    (resolve (reformStmts .reread [iteration.definition name (stopTree stop)])).isOk = true := by
  revert helper iteration
  simp only [iterations, mem_cons, Prod.mk.injEq]
  rintro helper iteration (⟨rfl, rfl⟩ | ⟨rfl, rfl⟩ | ⟨rfl, rfl⟩ | ⟨rfl, rfl⟩ | ⟨rfl, rfl⟩ |
    ⟨rfl, rfl⟩ | ⟨rfl, rfl⟩ | ⟨rfl, rfl⟩ | member)
  case inr.inr.inr.inr.inr.inr.inr.inr => exact absurd member not_mem_nil
  all_goals rfl

theorem definition_resolves (member : (helper, iteration) ∈ iterations) {name stop : String}
    (named : isName name = true) (stopNamed : isName stop = true) {definition : PlainStmt}
    (instantiated : helper.instantiate name stop = .ok definition) :
    ∃ resolution, resolve [definition] = .ok resolution := by
  obtain ⟨made, isMade, reparsed⟩ := instantiate_reparsed member named stopNamed fun _ => True
  cases instantiated.symm.trans isMade
  have isOk : (resolve [definition]).isOk = true := by
    rw [← resolve_reform_isOk Reform.keepsLeaves_unplaced reparsed.wellFormed (allKept_unplaced _),
      reparsed.unplaced, resolve_reform_isOk Reform.keepsLeaves_unplaced reparsed.rereadWellFormed
        (allKept_unplaced _)]
    exact iteration_resolves member name stop
  cases resolved : resolve [definition] with
  | error error =>
    rw [resolved] at isOk
    cases isOk
  | ok resolution => exact ⟨resolution, rfl⟩

end Helper

namespace Rewriting

/-- What a rewritten program is resolved to.  Behind the helpers stand the methods of the hoisted
blocks, each with a copy of its block, and then the copy of the program's own statements. -/
def Hygienic (rewriting : Rewriting) (copy : Resolution) : Prop :=
  ∃ helpers methods body blocks, copy.program = helpers ++ (methods ++ body) ∧
    helpers.length = rewriting.state.helpers.length ∧ blocks.Perm rewriting.blocks ∧
    List.Forall₂ (HoistedBlock.Copied rewriting.input) blocks methods ∧
    BodyCopied rewriting.input rewriting.resolution.program ⟨[(0, 0)], none⟩ 0 body

section Sound

variable {program : PlainProgram} {rewriting : Rewriting} {naming : Naming}
  (sound : rewriting.Sound program naming)
  (valid : stmtsWellFormed (.plain fun _ => True) false program)
include sound valid

theorem Sound.definesIn (plain : PlainBlocks program) {name : String}
    (defines : definesIn program name = true) : Hoist.definesIn rewriting.program name = true := by
  obtain ⟨node, member, isDefinition⟩ := any_eq_true.1 defines
  rw [← (sound.source valid).erased, walkStmts_relabel, ← sound.parts_map_node valid,
    map_map] at member
  obtain ⟨⟨site, node⟩, isPart, rfl⟩ := mem_map.1 member
  have image : ∃ link ∈ Part.links rewriting.input naming ⟨site, node⟩,
      link.defines name = true := by
    cases node with
    | expr | param | block => cases isDefinition
    | stmt tree =>
      cases tree with
      | define => exact ⟨_, mem_singleton_self _, isDefinition⟩
      | expression | conditional | whileLoop | bare => cases isDefinition
      | jump _ _ value => cases value <;> cases isDefinition
  obtain ⟨link, isLink, defines⟩ := image
  have perm := sound.links_perm valid
  rw [sound.nothing_lost valid plain, append_nil] at perm
  have met := perm.mem_iff.2 (mem_append_right _ (mem_flatMap.2 ⟨_, isPart, isLink⟩))
  exact any_eq_true.2 ⟨link, mem_of_mem_filter met, defines⟩

theorem Sound.plain_params (plain : PlainBlocks program) {hoisted : HoistedBlock}
    (member : hoisted ∈ rewriting.blocks) :
    ∀ param ∈ hoisted.block.params, param.default = none := by
  have there := sound.mem_walk valid (mem_hoistedBlocks.1 member).1
  have erased := plain _ (mem_filterMap.2 ⟨_, there, rfl⟩)
  rw [Block.relabel, Block.params, relabelParams_eq_map, forall_mem_map] at erased
  exact fun param isParam => Option.map_eq_none_iff.1 (erased param isParam)

omit sound valid in
theorem definesIn_of_mem {trees : PlainProgram} {tree : PlainStmt} (member : tree ∈ trees)
    {name : String} (defines : Hoist.definesIn [tree] name = true) :
    Hoist.definesIn trees name = true := by
  obtain ⟨node, met, isDefinition⟩ := any_eq_true.1 defines
  refine any_eq_true.2 ⟨node, ?_, isDefinition⟩
  rw [Node.walkStmts_eq] at met ⊢
  rw [flatMap_singleton] at met
  exact mem_flatMap.2 ⟨tree, member, met⟩

omit valid in
theorem Sound.captures_spec : (∀ block ∈ rewriting.resolution.blocks,
      (rewriting.analysis.capturesOf block.scope).Collects rewriting.resolution.table block.scope
        block.references) ∧
    ∀ scope name, rewriting.analysis.isCell scope name = true ↔
      ∃ block ∈ rewriting.resolution.blocks, rewriting.plan.isHoisted block.scope = true ∧
        ⟨name, scope, .byCell⟩ ∈ rewriting.analysis.capturesOf block.scope := by
  obtain ⟨captured, cells⟩ :=
    analyzeCaptures_spec sound.analyzed (resolve_scopes_nodup sound.resolved)
  exact ⟨fun block member => captures_collects (captured block member), cells⟩

def Sound.rereading (plain : PlainBlocks program)
    (clear : rewriting.input.Clear rewriting.resolution.program) :
    Rereading rewriting.input naming rewriting.resolution.program where
  defined := Hoist.definesIn program
  definedCopy := Hoist.definesIn rewriting.program
  own name := name ∉ rewriting.issued
  rules := (resolve_scoped sound.resolved).2
  wellFormed := ⟨_, (sound.source valid).wellFormed⟩
  callable _ _ callable := callable.imp_left (sound.definesIn valid plain)
  named node member name spelled := by
    rw [← sound.parts_map_node valid] at member
    obtain ⟨part, isPart, rfl⟩ := mem_map.1 member
    exact sound.not_issued valid isPart name spelled
  fits := sound.fits valid
  collected block member _ := by
    refine sound.captures_spec.1 block ?_
    rw [Resolution.blocks_eq]
    exact mem_filterMap.2 ⟨_, member, rfl⟩
  cells scope name isCell := by
    obtain ⟨block, member, isHoisted, captured⟩ := (sound.captures_spec.2 scope name).1 isCell
    exact ⟨block, mem_blocks member, isHoisted, _, captured, rfl⟩
  clear := clear

omit valid in
theorem Sound.goes_helper {used : UsedHelper} (member : used ∈ rewriting.state.helpers) :
    Resolve.Goes (Hoist.definesIn rewriting.program) [0] [] Layer.top
      (fun after _ => after = Layer.top) (Resolve.stmt [0] used.definition) := by
  obtain ⟨helper, iteration, isHelper, -, named, instantiated, definedBy⟩ := sound.definedBy member
  have isNamed : isName used.name = true := named ▸ sound.converted.valid.helper helper.base
  obtain ⟨resolution, resolved⟩ :=
    Helper.definition_resolves isHelper isNamed sound.converted.valid.stop instantiated
  obtain ⟨loc, params, body, isDefinition, -⟩ := definedBy.defines
  have valid : stmtsWellFormed (.plain fun _ => True) false [used.definition] :=
    ⟨stmtsWellFormed_iff.1 sound.helpers_wellFormed _ (mem_map_of_mem member), trivial⟩
  have isAdded : used.definition ∈ rewriting.program :=
    mem_append_left _ (mem_append_left _ (mem_map_of_mem member))
  have goes := Resolve.goes_of_resolve valid resolved fun _ =>
    Or.imp_left (definesIn_of_mem isAdded)
  rw [isDefinition] at goes ⊢
  exact goes.define

omit valid in
theorem Sound.closures_eq : ∃ blocks : List HoistedBlock, blocks.Perm rewriting.blocks ∧
    rewriting.state.closures = blocks.map (·.closure rewriting.input naming) := by
  have ordered := congrFun (congrFun (eq_map_comp_perm
    fun hoisted : HoistedBlock => hoisted.closure rewriting.input naming) rewriting.state.closures)
    rewriting.blocks
  obtain ⟨blocks, same, perm⟩ := ordered.mpr sound.converted.closures
  exact ⟨blocks, perm, same⟩

theorem Sound.hygienic (plain : PlainBlocks program)
    (clear : rewriting.input.Clear rewriting.resolution.program) :
    ∃ copy, resolve rewriting.program = .ok copy ∧ rewriting.Hygienic copy := by
  let reading := sound.rereading valid plain clear
  obtain ⟨blocks, perm, closures⟩ := sound.closures_eq
  have goesHelpers : Resolve.Goes reading.definedCopy [0] [] Layer.top
      (fun after copies => after = Layer.top ∧
        List.Forall₂ (fun _ _ => True) rewriting.state.helpers copies)
      (Resolve.stmts [0] (rewriting.state.helpers.map UsedHelper.definition)) :=
    Resolve.goes_definitions fun used member =>
      (sound.goes_helper member).mono fun _ _ same => ⟨same, trivial⟩
  have goesMethods : Resolve.Goes reading.definedCopy [0] [] Layer.top
      (fun after copies => after = Layer.top ∧
        List.Forall₂ (HoistedBlock.Copied rewriting.input) blocks copies)
      (Resolve.stmts [0] (blocks.map fun hoisted =>
        (hoisted.closure rewriting.input naming).definition)) :=
    Resolve.goes_definitions fun hoisted member => by
      have isHoisted := perm.mem_iff.1 member
      exact reading.goes_hoisted isHoisted (sound.plain_params valid plain isHoisted)
        (not_not_intro (sound.converted.argument hoisted isHoisted))
  have goesBody := reading.goes_program
  rw [← sound.converted.body] at goesBody
  have goes : Resolve.Goes reading.definedCopy [0] [] Layer.top
      (fun _ copies => ∃ helpers methods body, copies = helpers ++ (methods ++ body) ∧
        helpers.length = rewriting.state.helpers.length ∧
        List.Forall₂ (HoistedBlock.Copied rewriting.input) blocks methods ∧
        BodyCopied rewriting.input rewriting.resolution.program ⟨[(0, 0)], none⟩ 0 body)
      (Resolve.stmts [0] rewriting.program) := by
    rw [Rewriting.program, Rewriting.added, closures, map_map, append_assoc]
    refine goesHelpers.append ?_
    rintro _ helpers ⟨rfl, counted⟩
    refine goesMethods.append ?_
    rintro _ methods ⟨rfl, copied⟩
    exact goesBody.mono fun _ body copiedBody =>
      ⟨helpers, methods, body, rfl, counted.length_eq.symm, copied, copiedBody⟩
  obtain ⟨copies, table, -, ran, -, -, -, helpers, methods, body, same, counted, copied⟩ :=
    goes rfl (shows_initial _) (knows_initial _)
  refine ⟨⟨copies, table⟩, ?_, helpers, methods, body, blocks, same, counted, perm, copied⟩
  exact bind_eq_ok.2 ⟨_, ran, rfl⟩

end Sound

end Rewriting

/-- A resolved program is rewritten, and where no cell is in the way of another name the rewritten
program is resolved too: its names mean what they meant. -/
theorem rewrite_hygienic {text : Text} {program : PlainProgram} {resolution : Resolution}
    (parsed : parse text = .ok program) (resolved : resolve program = .ok resolution)
    (plain : PlainBlocks program) :
    ∃ rewriting, rewrite program = .ok rewriting ∧ rewriting.resolution = resolution ∧
      (rewriting.input.Clear resolution.program →
        ∃ copy, resolve rewriting.program = .ok copy ∧ rewriting.Hygienic copy) := by
  have valid := wellFormed_of_parse parsed
  obtain ⟨rewriting, naming, rewritten, sound⟩ := rewrite_sound valid resolved
  cases sound.resolved.symm.trans resolved
  exact ⟨rewriting, rewritten, rfl, sound.hygienic valid plain⟩

theorem rewrite_hygienic_cell :
    ∃ program rewriting copy, parse (.ofString "n = 1\n[2].each { |e| n += e }\np n\n") =
    .ok program ∧
      rewrite program = .ok rewriting ∧ rewriting.analysis.cells = [(0, "n")] ∧
      resolve rewriting.program = .ok copy ∧ rewriting.Hygienic copy := by
  obtain ⟨program, resolution, parsed, resolved⟩ := accepted_iff.1 (show accepted (.ofString
    "n = 1\n[2].each { |e| n += e }\np n\n") = true by decide +kernel)
  have facts : (parse (.ofString "n = 1\n[2].each { |e| n += e }\np n\n")).toOption.all
      (fun program => decide (PlainBlocks program) && checksInput program fun input resolved =>
        decide (input.analysis.cells = [(0, "n")]) && decide (input.Clear resolved)) = true := by
    decide +kernel
  rw [parsed] at facts
  obtain ⟨plain, facts⟩ := Bool.and_eq_true_iff.1 facts
  obtain ⟨rewriting, rewritten, rfl, hygienic⟩ :=
    rewrite_hygienic parsed resolved (of_decide_eq_true plain)
  obtain ⟨_, _, again, sound⟩ := rewrite_sound (wellFormed_of_parse parsed) resolved
  cases again.symm.trans rewritten
  obtain ⟨cells, clear⟩ := Bool.and_eq_true_iff.1 (sound.checked facts)
  obtain ⟨copy, resolvedCopy, copied⟩ := hygienic (of_decide_eq_true clear)
  exact ⟨program, rewriting, copy, parsed, rewritten, of_decide_eq_true cells, resolvedCopy, copied⟩

end Hoist
