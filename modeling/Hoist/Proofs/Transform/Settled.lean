import Hoist.Proofs.Conversion.Left
import Hoist.Proofs.Transform.Hygiene
import Hoist.Proofs.Transform.Unchanged

/-!
Transforming what was transformed.  The calls with a block that are left are refused again, however
the program was written in between, so a second run hoists nothing and returns the text that it was
given, as long as the names of the text can be resolved.
-/

namespace Hoist

open List

open Lexeme

variable {change : Reform}

namespace BlockCall

variable {ν σ ν' σ' : Type} {table : HelperTable} {defined : String → Bool}

theorem refused_relabel (change : Relabel ν σ ν' σ') (call : BlockCall ν σ) :
    (call.relabel change).Refused defined table ↔ call.Refused defined table := by
  obtain ⟨loc, receiver, method, args, ⟨blockLoc, scope, params, body⟩⟩ := call
  have returns : stmtsReturn (Block.relabel change (.mk blockLoc scope params body)).body =
      stmtsReturn body := stmtsReturn_relabel body
  have noArgs : relabelExprs change args = [] ↔ args = [] := by cases args <;> simp [relabelExprs]
  simp only [Refused, BlockCall.relabel, returns, noArgs, Option.map_eq_none_iff, Option.isSome_map]
  rfl

def reform (change : Reform) (call : BlockCall String Unit) : BlockCall String Unit :=
  ⟨default, call.receiver.map (Expr.reform change), call.method, reformExprs change call.args,
    call.block.reform change⟩

theorem refused_reform (quiet : change.Quiet) {wording : Wording String}
    {call : BlockCall String Unit} (valid : stmtsWellFormed wording false call.block.body) :
    (call.reform change).Refused defined table ↔ call.Refused defined table := by
  obtain ⟨loc, receiver, method, args, ⟨blockLoc, scope, params, body⟩⟩ := call
  have returns : stmtsReturn (Block.reform change (.mk blockLoc scope params body)).body =
      stmtsReturn body := stmtsReturn_reform quiet body _ valid
  have noArgs : reformExprs change args = [] ↔ args = [] := by cases args <;> simp [reformExprs]
  simp only [Refused, reform, returns, noArgs, Option.map_eq_none_iff, Option.isSome_map]
  rfl

end BlockCall

theorem Node.blockCall?_reform (leaves : change.KeepsLeaves) (node : PlainNode) :
    (node.reform change).blockCall? = node.blockCall?.map (BlockCall.reform change) := by
  cases node with
  | expr tree =>
    cases tree with
    | literal loc value =>
      refine Node.blockCall?_eq_none fun loc receiver method args tree parens isCall => ?_
      have isLeaf := leaves value
      rw [show change.literal value = _ from Node.expr.inj isCall, Expr.walk_call] at isLeaf
      simp [Block.walk] at isLeaf
    | call loc receiver method args block parens =>
      rw [Node.reform, Expr.reform_call]
      cases block <;> rfl
    | _ => rfl
  | _ => rfl

/-- All calls with a block are left. -/
def AllRefused (program : PlainProgram) : Prop :=
  ∀ call ∈ blockCalls (walkStmts program), call.Refused (definesIn program) standardHelpers

theorem body_wellFormed {ν σ : Type} {wording : Wording ν} {program : Program ν σ}
    (valid : stmtsWellFormed wording false program) {call : BlockCall ν σ}
    (member : call ∈ blockCalls (walkStmts program)) :
    stmtsWellFormed wording false call.block.body := by
  obtain ⟨node, met, isCall⟩ := mem_filterMap.1 member
  have nodeValid := walkStmts_wellFormed program _ valid node met
  unfold Node.blockCall? at isCall
  split at isCall
  · cases isCall
    obtain ⟨position, callValid⟩ := nodeValid
    obtain ⟨-, -, -, -, blockValid⟩ := Expr.wellFormed_call.1 callValid
    exact (blockValid _ rfl).2
  · cases isCall

section Reform

variable {wording : Wording String} {program : PlainProgram}

/-- Calls are left, or not, however the program is written. -/
theorem allRefused_reform (leaves : change.KeepsLeaves) (quiet : change.Quiet)
    (valid : stmtsWellFormed wording false program) :
    AllRefused (reformStmts change program) ↔ AllRefused program := by
  have calls : (blockCalls (walkStmts (reformStmts change program))).Perm
      ((blockCalls (walkStmts program)).map (BlockCall.reform change)) := by
    have perm := (walkStmts_reform leaves program _ valid).filterMap Node.blockCall?
    rw [filterMap_map] at perm
    rw [blockCalls, blockCalls, map_filterMap]
    refine perm.trans (.of_eq (filterMap_congr fun node _ => ?_))
    exact node.blockCall?_reform leaves
  have same : definesIn (reformStmts change program) = definesIn program :=
    funext (definesIn_reform leaves valid)
  unfold AllRefused
  simp only [calls.mem_iff, forall_mem_map, same]
  exact forall₂_congr fun call member =>
    BlockCall.refused_reform quiet (body_wellFormed valid member)

theorem Reparsed.allRefused {floats : Float → Prop} {again : PlainProgram}
    (reparsed : Reparsed floats program again) (valid : stmtsWellFormed wording false program)
    (refused : AllRefused program) : AllRefused again := by
  rw [← allRefused_reform Reform.keepsLeaves_unplaced Reform.quiet_unplaced reparsed.wellFormed,
    reparsed.unplaced, allRefused_reform Reform.keepsLeaves_unplaced Reform.quiet_unplaced
      reparsed.rereadWellFormed, allRefused_reform Reform.keepsLeaves_reread Reform.quiet_reread
      valid]
  exact refused

end Reform

section Idle

variable {program : PlainProgram} {resolution : Resolution}

/-- Where all calls are left, nothing is planned. -/
theorem planCalls_refused (valid : stmtsWellFormed (.plain fun _ => True) false program)
    (resolved : resolve program = .ok resolution) (refused : AllRefused program) :
    (planCalls resolution standardHelpers).hoisted = [] := by
  obtain ⟨source, -⟩ := resolve_resolvesTo valid resolved
  obtain ⟨knows, -⟩ := resolve_scoped resolved
  rw [planCalls_hoisted]
  refine filterMap_eq_nil_iff.2 fun call member => ?_
  have isCall : call.relabel erasing ∈ blockCalls (walkStmts program) := by
    rw [← source.erased, walkStmts_relabel, blockCalls_relabel]
    exact mem_map_of_mem member
  have isRefused := (BlockCall.refused_relabel erasing call).1 (refused _ isCall)
  rw [← show _ = definesIn program from funext knows.defines] at isRefused
  obtain ⟨reason, verdict⟩ := BlockCall.verdict_eq_error.2 isRefused
  rw [Plan.hoistedEntry, verdict]
  rfl

/-- A program whose calls are all left is not changed. -/
theorem rewrite_refused (valid : stmtsWellFormed (.plain fun _ => True) false program)
    (resolved : resolve program = .ok resolution) (refused : AllRefused program) :
    ∃ rewriting naming, rewrite program = .ok rewriting ∧ rewriting.Sound program naming ∧
      rewriting.program = program ∧ rewriting.hoisted = [] := by
  obtain ⟨rewriting, naming, rewritten, sound⟩ := rewrite_sound valid resolved
  refine ⟨rewriting, naming, rewritten, sound, ?_⟩
  cases sound.resolved.symm.trans resolved
  have analyzed := sound.analyzed
  rw [sound.planned] at analyzed
  have idle := idle_of_analyzed resolved (planCalls_refused valid resolved refused) analyzed
  have converted := Conversion.program_idle idle (sound.source valid).wellFormed
    (resolve_marks_nodup resolved)
  have same := rewrite_of_stages resolved analyzed (congrFun converted _)
  rw [Except.ok.inj (rewritten.symm.trans same)]
  exact ⟨(sound.source valid).erased, rfl⟩

end Idle

theorem Part.blockCall_links {input : ConversionInput} {naming : Naming} {part : Part}
    {call : BlockCall String Unit} (member : call ∈ blockCalls (part.links input naming)) :
    ∃ source, part.node.blockCall? = some source ∧
      input.plan.helper? source.block.scope = none ∧
      call = ⟨source.loc, Image.option input naming part.site source.receiver, source.method,
        Image.exprs input naming part.site source.args,
        Image.block input naming part.site source.block⟩ := by
  obtain ⟨site, node⟩ := part
  unfold Part.links at member
  dsimp only at member
  split at member
  · next loc receiver method args tree parens =>
    cases planned : input.plan.helper? tree.scope with
    | none =>
      refine ⟨⟨loc, receiver, method, args, tree⟩, rfl, planned, ?_⟩
      simpa [Image.expr, planned, blockCalls, Node.blockCall?] using member
    | some helper =>
      simp [Image.expr, planned, blockCalls, Node.blockCall?, Image.hoistedCall,
        Image.closureCall] at member
  · cases member
  · cases member
  · next tree =>
    cases planned : input.plan.helper? tree.scope <;> rw [planned] at member <;> cases member
  · cases member

namespace Rewriting

section Sound

variable {program : PlainProgram} {rewriting : Rewriting} {naming : Naming}
  (sound : rewriting.Sound program naming)
  (valid : stmtsWellFormed (.plain fun _ => True) false program)
include sound valid

theorem Sound.allSpared (plain : PlainBlocks program) :
    AllSpared rewriting.input (walkStmts rewriting.resolution.program) := by
  intro node member call helper isCall planned
  rw [← sound.parts_map_node valid] at member
  obtain ⟨part, isPart, rfl⟩ := mem_map.1 member
  obtain ⟨-, hasReceiver, noArgs, quiet⟩ :=
    lookup_of_classify (sound.verdict valid isPart isCall planned)
  obtain ⟨hoisted, isHoisted, same, -⟩ := sound.block_hoisted valid isPart isCall planned
  have noDefaults := sound.plain_params valid plain isHoisted
  rw [same] at noDefaults
  exact ⟨noArgs, hasReceiver, by rw [paramsReturn_plain noDefaults, quiet]; rfl⟩

variable {source : BlockCall Occurrence ScopeId}

theorem Sound.spared_body (plain : PlainBlocks program) (isCalled : source ∈ rewriting.calls) :
    AllSpared rewriting.input (walkStmts source.block.body) := by
  have called := walkStmts_blocksCalled _ _ (sound.source valid).wellFormed
  have isBlock : .block source.block ∈ walkStmts rewriting.resolution.program := by
    have met := called.mem_iff.1 (mem_map_of_mem (f := BlockCall.block) isCalled)
    rw [← Resolution.blocks_eq] at met
    exact mem_blocks met
  have inside := map_subset Prod.snd (Rereading.contents_subset isBlock)
  rw [Rereading.contentsIn_map_snd, walkStmtsIn_map_snd] at inside
  exact fun node member =>
    sound.allSpared valid plain node (inside (mem_append_right _ member))

theorem Sound.refused_of_left (isCalled : source ∈ rewriting.calls)
    (left : rewriting.plan.helper? source.block.scope = none) :
    source.Refused (Hoist.definesIn program) standardHelpers := by
  have verdict := planCalls_helper? standardHelpers (sound.source valid).wellFormed
    (resolve_marks_nodup sound.resolved) isCalled
  rw [← sound.planned, left] at verdict
  rw [← show _ = Hoist.definesIn program from funext (resolve_scoped sound.resolved).1.defines]
  refine BlockCall.verdict_eq_error.1 ?_
  cases found : source.verdict rewriting.resolution.table.methods standardHelpers with
  | error reason => exact ⟨reason, rfl⟩
  | ok helper =>
    rw [found] at verdict
    cases verdict

theorem Sound.refused_image (plain : PlainBlocks program) (isCalled : source ∈ rewriting.calls)
    (refused : source.Refused (Hoist.definesIn program) standardHelpers) (site : Site) :
    BlockCall.Refused (Hoist.definesIn rewriting.program) standardHelpers
      ⟨source.loc, Image.option rewriting.input naming site source.receiver, source.method,
        Image.exprs rewriting.input naming site source.args,
        Image.block rewriting.input naming site source.block⟩ := by
  have bodyValid := body_wellFormed (sound.source valid).wellFormed isCalled
  have spared := sound.spared_body valid plain isCalled
  obtain ⟨loc, receiver, method, args, ⟨blockLoc, scope, params, body⟩⟩ := source
  rcases refused with ⟨noReceiver, isDefined⟩ | noHelper
  · obtain rfl : receiver = none := noReceiver
    exact .inl ⟨rfl, sound.definesIn valid plain isDefined⟩
  · refine .inr fun helper found hasReceiver noArgs => ?_
    have sameReceiver : helper.hasReceiver = receiver.isSome := by
      rw [hasReceiver]
      cases receiver <;> rfl
    have sameArgs : args = [] := by
      cases args with
      | nil => rfl
      | cons first rest => cases noArgs
    dsimp only
    rw [Image.block, Block.body, stmtsReturn_append, Bool.or_eq_true]
    exact .inr (Image.stmts_return _ body _ bodyValid spared
      (noHelper helper found sameReceiver sameArgs))

theorem Sound.allRefused (plain : PlainBlocks program) : AllRefused rewriting.program := by
  intro call member
  have perm := (sound.links_perm valid).filterMap Node.blockCall?
  rw [sound.nothing_lost valid plain, append_nil, ← blockCalls, blockCalls_links] at perm
  obtain ⟨node, isLink, isCall⟩ := mem_filterMap.1 (perm.mem_iff.1 member)
  rcases mem_append.1 isLink with isHelper | isLink
  · obtain ⟨used, -, rfl⟩ := mem_map.1 isHelper
    cases isCall
  · obtain ⟨part, isPart, isLink⟩ := mem_flatMap.1 isLink
    obtain ⟨source, isSource, left, rfl⟩ :=
      Part.blockCall_links (mem_filterMap.2 ⟨node, isLink, isCall⟩)
    have met := mem_map_of_mem (f := Part.node) isPart
    rw [sound.parts_map_node valid] at met
    have isCalled : source ∈ rewriting.calls := mem_filterMap.2 ⟨_, met, isSource⟩
    exact sound.refused_image valid plain isCalled (sound.refused_of_left valid isCalled left) _

end Sound

end Rewriting

/-- A part of a program that is read in the order in which it is written: a conditional that follows
its statement is printed so, and a float is printed as a float. -/
def Node.inOrder : Node String Unit → Bool
  | .expr (.literal _ (.float value)) => Decimal.floatText Decimal.literalStyle value != "inf"
  | .stmt (.conditional _ _ thenBody elseBody _ marked _) =>
    writtenAfter marked thenBody elseBody == marked
  | _ => true

theorem Node.keptBy_of_inOrder {node : PlainNode} (inOrder : node.inOrder = true) :
    node.KeptBy .reread := by
  unfold Node.KeptBy
  split
  · next loc value =>
    cases value with
    | float x => exact if_neg (bne_iff_ne.1 inOrder)
    | _ => rfl
  · exact beq_iff_eq.1 inOrder
  · trivial

/-- All floats of a text are written as words. -/
def FloatsSpelled (text : Text) : Prop :=
  ∀ tokens, scan text = .ok tokens → ∀ token ∈ tokens, token.kind = .float →
    IsFloatWord (floatValue token)

/-- A text that the transformation leaves as it is. -/
def Settled (text : Text) : Prop :=
  ∃ result, transform {} text = .ok result ∧ result.text = text ∧ result.hoisted = []

theorem settled_or_unresolved {text : Text} {program : PlainProgram}
    (parsed : parse text = .ok program) (refused : AllRefused program)
    (printed : print program = .ok text) :
    Settled text ∨
      ∃ error, resolve program = .error error ∧ transform {} text = .error (.scope error) := by
  have valid := wellFormed_of_parse parsed
  cases resolved : resolve program with
  | error error =>
    refine .inr ⟨error, rfl, ?_⟩
    rw [transform_eq, parsed]
    simp only [Except.mapError, ok_bind, rewrite, resolved, error_bind]
  | ok resolution =>
    obtain ⟨rewriting, naming, rewritten, sound, same, nothing⟩ :=
      rewrite_refused valid resolved refused
    refine .inl ⟨⟨text, [], rewriting.plan.warnings⟩, ?_, rfl, rfl⟩
    rw [transform_eq, parsed]
    simp only [Except.mapError, ok_bind, rewritten, Rewriting.finish, sound.verifyNames, same,
      printed, nothing]
    rfl

/-- The transformed text is settled, or a name in it cannot be resolved; it can be where no cell is
in the way of another name and the program is read in the order in which it is written. -/
theorem transform_again {text : Text} {result : TransformResult} {program : PlainProgram}
    (transformed : transform {} text = .ok result) (parsed : parse text = .ok program)
    (floats : FloatsSpelled text) (plain : PlainBlocks program) :
    (Settled result.text ∨ ∃ error, transform {} result.text = .error (.scope error)) ∧
      ∃ rewriting, rewrite program = .ok rewriting ∧ print rewriting.program = .ok result.text ∧
        (rewriting.input.Clear rewriting.resolution.program →
          (∀ node ∈ walkStmts rewriting.program, node.inOrder = true) → Settled result.text) := by
  obtain ⟨other, rewriting, isOther, rewritten, printed, -⟩ := transform_stages transformed
  cases parsed.symm.trans isOther
  have words : stmtsWellFormed (.plain IsFloatWord) false program := parse_wellFormed floats parsed
  have valid := wellFormed_of_parse parsed
  obtain ⟨naming, sound⟩ := rewrite_eq_ok valid rewritten
  have wordsRewritten := sound.wellFormed words
  obtain ⟨again, parsedAgain, reparsed⟩ := parse_render wordsRewritten
  have isText : Row.render (Row.program rewriting.program) = result.text :=
    Except.ok.inj ((print_eq_render wordsRewritten).symm.trans printed)
  rw [isText] at parsedAgain
  have refused := reparsed.allRefused wordsRewritten (sound.allRefused valid plain)
  have printedAgain := (reparsed.print_eq wordsRewritten).trans printed
  have either := settled_or_unresolved parsedAgain refused printedAgain
  refine ⟨either.imp_right fun ⟨error, _, failed⟩ => ⟨error, failed⟩, rewriting, rewritten,
    printed, fun clear inOrder => ?_⟩
  obtain ⟨copy, resolvedCopy, -⟩ := sound.hygienic valid plain clear
  have isOk : (resolve again).isOk = true := by
    rw [reparsed.resolve_isOk wordsRewritten fun node member =>
      Node.keptBy_of_inOrder (inOrder node member), resolvedCopy]
    rfl
  rcases either with settled | ⟨error, failed, -⟩
  · exact settled
  · rw [failed] at isOk
    cases isOk

theorem transform_again_nested :
    ∃ result, Settled result.text ∧
      transform {} (.ofString "x = 1.0e16\n[2].each { |a, b| x -= -a if a }\n") = .ok result := by
  obtain ⟨program, resolution, parsed, resolved⟩ := accepted_iff.1
    (show accepted (.ofString "x = 1.0e16\n[2].each { |a, b| x -= -a if a }\n") = true by
      decide +kernel)
  have floats : FloatsSpelled (.ofString "x = 1.0e16\n[2].each { |a, b| x -= -a if a }\n") :=
    fun tokens scanned token member isFloat =>
      .inl (floatsReadBack_nested tokens scanned token member isFloat)
  have facts : (parse (.ofString "x = 1.0e16\n[2].each { |a, b| x -= -a if a }\n")).toOption.all
      (fun program => decide (PlainBlocks program) && (rewrite program).toOption.all
        (fun rewriting => decide (rewriting.input.Clear rewriting.resolution.program) &&
          (walkStmts rewriting.program).all Node.inOrder)) = true := by decide +kernel
  rw [parsed] at facts
  obtain ⟨plain, facts⟩ := Bool.and_eq_true_iff.1 facts
  obtain ⟨result, transformed⟩ := transform_of_resolve parsed resolved
  obtain ⟨-, rewriting, rewritten, -, settled⟩ :=
    transform_again transformed parsed floats (of_decide_eq_true plain)
  rw [rewritten] at facts
  obtain ⟨clear, inOrder⟩ := Bool.and_eq_true_iff.1 facts
  exact ⟨result, settled (of_decide_eq_true clear) (all_eq_true.1 inOrder), transformed⟩

end Hoist
