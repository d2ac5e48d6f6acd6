import Hoist.Eval.Evaluate
import Hoist.Proofs.Transform.Linking

/-!
How a rewritten program is tied together.  Each call of a generated name has one definition, which
stands in front of the program and has as many parameters as the call has arguments; a helper is the
one for the method that it replaces, and calls its closure with arguments that the closure takes.
-/

namespace Hoist

open List

namespace Helper

/-- The helpers of the table have different bases. -/
theorem eq_of_base {helper other : Helper} {iteration otherIteration : Iteration}
    (member : (helper, iteration) ∈ iterations) (otherMember : (other, otherIteration) ∈ iterations)
    (same : helper.base = other.base) : helper = other := by
  have distinct : ((iterations.map Prod.fst).map Helper.base).Nodup := by decide +kernel
  exact inj_on_of_nodup_map distinct (mem_map_of_mem (f := Prod.fst) member)
    (mem_map_of_mem (f := Prod.fst) otherMember) same

theorem arity_le_one {helper : Helper} {iteration : Iteration}
    (member : (helper, iteration) ∈ iterations) : helper.arity ≤ 1 := by
  have small : iterations.all (fun entry => entry.1.arity ≤ 1) = true := by decide +kernel
  exact of_decide_eq_true (all_eq_true.1 small (helper, iteration) member)

end Helper

/-- Whether parameters take a number of arguments. -/
def Accepts (params : List PlainParam) (count : Nat) : Prop :=
  Evaluate.requiredCount params ≤ count ∧ count ≤ params.length

theorem Image.lambdaParams_accepts (argument : String) (params : List PlainParam) {arity : Nat}
    (small : arity ≤ 1) (loc : Loc) : Accepts (lambdaParams argument params arity loc).1 arity := by
  unfold lambdaParams
  split
  · next none => exact ⟨by rw [none]; exact Nat.le_refl 0, by rw [none]; exact Nat.le_refl 0⟩
  · next some =>
    obtain rfl : arity = 1 := by omega
    split
    · exact ⟨length_filter_le _ _, Nat.le_refl 1⟩
    · exact ⟨Nat.le_refl 1, Nat.le_refl 1⟩
    · exact ⟨Nat.le_refl 1, Nat.le_refl 1⟩

theorem HoistedBlock.closure_definition (input : ConversionInput) (naming : Naming)
    (hoisted : HoistedBlock) :
    (hoisted.closure input naming).definition =
      .define (hoisted.image input naming).loc () (hoisted.closure input naming).name
        ((input.analysis.capturesOf hoisted.scope).map fun capture =>
          .mk capture.name (hoisted.image input naming).loc none)
        [.expression (hoisted.image input naming).loc (.lambda (hoisted.image input naming).loc ()
          (Image.lambdaParams (naming.argument hoisted.scope) (hoisted.image input naming).params
            hoisted.helper.arity (hoisted.image input naming).loc).1
          ((Image.lambdaParams (naming.argument hoisted.scope) (hoisted.image input naming).params
            hoisted.helper.arity (hoisted.image input naming).loc).2 ++
              (hoisted.image input naming).body))] := rfl

/-- A helper and a closure that stand for a call with a block.  The helper is made from what the
table has for the method of the call, and calls the closure once, with arguments that its lambda
takes. -/
structure Serves (stop : String) (call : BlockCall String Unit) (used : UsedHelper)
    (closure : HoistedClosure) : Prop where
  helper : ∃ helper, standardHelpers.lookup call.method = some helper ∧
    helper.instantiate used.name stop = .ok used.definition
  closure : ∃ params inner body count,
    closure.definition = .define call.block.loc () closure.name params
      [.expression call.block.loc (.lambda call.block.loc () inner body)] ∧
    used.definition.walk.filterMap (Node.closureArgs? "fun") = [count] ∧ Accepts inner count

/-- A rewritten program in which every generated name that is called is defined as it should be. -/
structure WellLinked (program : PlainProgram) (rewriting : Rewriting) (stop : String) : Prop where
  /-- A call of a generated name has one definition, in front of the program, with as many
  parameters as the call has arguments. -/
  calls : ∀ loc method args block parens,
    .expr (.call loc none method args block parens) ∈ walkStmts rewriting.program →
    method ∈ rewriting.issued →
    ∃ place params body, .define place () method params body ∈ rewriting.added ∧
      (walkStmts rewriting.program).filter (Node.defines method) =
        [.stmt (.define place () method params body)] ∧
      args.length = params.length
  /-- A call of a helper stands for a call with a block, and its last argument is the closure. -/
  helpers : ∀ used ∈ rewriting.state.helpers, ∀ loc args block parens,
    .expr (.call loc none used.name args block parens) ∈ walkStmts rewriting.program →
    ∃ call ∈ blockCalls (walkStmts program), ∃ closure ∈ rewriting.state.closures,
      call.loc = loc ∧ Serves stop call used closure ∧
      ∃ front captures,
        args = front ++ [.call call.block.loc none closure.name captures none true]
  /-- A hoisted closure stands for the block of a call. -/
  closures : ∀ closure ∈ rewriting.state.closures, ∃ call ∈ blockCalls (walkStmts program),
    ∃ used ∈ rewriting.state.helpers, Serves stop call used closure

section Linked

variable {program : PlainProgram} {rewriting : Rewriting} {naming : Naming}
  (sound : rewriting.Sound program naming)
  (valid : stmtsWellFormed (.plain fun _ => True) false program)
include sound valid

theorem Rewriting.Sound.serves {part : Part} (member : part ∈ rewriting.parts)
    {call : BlockCall Occurrence ScopeId} (isCall : part.node.blockCall? = some call)
    {hoisted : HoistedBlock} (isHoisted : hoisted ∈ rewriting.blocks)
    (same : hoisted.block = call.block) {used : UsedHelper}
    (isUsed : used ∈ rewriting.state.helpers) (based : used.base = hoisted.helper.base) :
    used.name = naming.helper hoisted.helper.base ∧
      hoisted.helper.DefinedBy used.name used.definition ∧
      Serves naming.stop (call.relabel erasing) used (hoisted.closure rewriting.input naming) := by
  obtain ⟨-, planned⟩ := mem_hoistedBlocks.1 isHoisted
  have planned : rewriting.plan.helper? call.block.scope = some hoisted.helper := same ▸ planned
  have verdict := sound.verdict valid member isCall planned
  obtain ⟨found, -⟩ := lookup_of_classify verdict
  obtain ⟨helper, iteration, there, helperBased, named, instantiated, defined⟩ :=
    sound.definedBy isUsed
  obtain ⟨_, standard⟩ := Helper.mem_iterations (mem_of_lookup found)
  obtain rfl : hoisted.helper = helper :=
    Helper.eq_of_base standard there (based.symm.trans helperBased)
  refine ⟨named, defined, ⟨_, found, instantiated⟩, ?_⟩
  have loc : call.block.loc = (hoisted.image rewriting.input naming).loc := by
    rw [← same, HoistedBlock.image]
    cases hoisted.block
    rfl
  have accepts := Image.lambdaParams_accepts (naming.argument hoisted.scope)
    (hoisted.image rewriting.input naming).params (Helper.arity_le_one there) call.block.loc
  have definition := HoistedBlock.closure_definition rewriting.input naming hoisted
  rw [← loc] at definition
  exact ⟨_, _, _, _, definition, defined.passes, accepts⟩

omit valid in
theorem Rewriting.Sound.closure_mem {hoisted : HoistedBlock} (member : hoisted ∈ rewriting.blocks) :
    hoisted.closure rewriting.input naming ∈ rewriting.state.closures :=
  sound.converted.closures.mem_iff.2 (mem_map_of_mem member)

theorem Rewriting.Sound.wellLinked : WellLinked program rewriting naming.stop where
  calls := by
    intro loc method args block parens member issued
    obtain ⟨part, isPart, call, helper, isCall, planned, made⟩ :=
      sound.generated_call valid member issued
    obtain ⟨-, hasReceiver⟩ := sound.fits valid part isPart call helper isCall planned
    obtain ⟨hoisted, isHoisted, same, rfl⟩ := sound.block_hoisted valid isPart isCall planned
    rcases made with made | made
    · obtain ⟨used, isUsed, based⟩ := sound.converted.helped hoisted isHoisted
      obtain ⟨named, defined, -⟩ := sound.serves valid isPart isCall isHoisted same isUsed based
      obtain ⟨place, params, body, isDefine, count⟩ := defined.defines
      obtain ⟨-, -, rfl, rfl, -⟩ := Expr.call.inj made
      have isAdded : used.definition ∈ rewriting.added :=
        mem_append_left _ (mem_map_of_mem isUsed)
      rw [isDefine, named] at isAdded
      refine ⟨place, params, body, isAdded, sound.defined_once valid isAdded rfl, ?_⟩
      rw [count, Helper.paramCount, hasReceiver]
      cases call.receiver <;> rfl
    · have isAdded : (hoisted.closure rewriting.input naming).definition ∈ rewriting.added :=
        mem_append_right _ (mem_map_of_mem (sound.closure_mem isHoisted))
      rw [HoistedBlock.closure_definition] at isAdded
      rw [show call.block.scope = hoisted.scope from congrArg Block.scope same.symm] at made
      obtain ⟨-, -, rfl, rfl, -⟩ := Expr.call.inj made
      exact ⟨_, _, _, isAdded, sound.defined_once valid isAdded rfl, by simp⟩
  helpers := by
    intro used isUsed loc args block parens member
    obtain ⟨distinct, allIssued⟩ := sound.generated
    obtain ⟨helpersDistinct, -, disjoint⟩ := nodup_append'.1 distinct
    have isName : used.name ∈ rewriting.state.helpers.map UsedHelper.name :=
      mem_map_of_mem isUsed
    obtain ⟨part, isPart, call, helper, isCall, planned, made⟩ :=
      sound.generated_call valid member (allIssued _ (mem_append_left _ isName))
    obtain ⟨hoisted, isHoisted, same, rfl⟩ := sound.block_hoisted valid isPart isCall planned
    rw [show call.block.scope = hoisted.scope from congrArg Block.scope same.symm] at made
    rcases made with made | made
    · obtain ⟨other, isOther, based⟩ := sound.converted.helped hoisted isHoisted
      obtain ⟨named, -, serves⟩ := sound.serves valid isPart isCall isHoisted same isOther based
      obtain ⟨rfl, -, isMethod, rfl, -⟩ := Expr.call.inj made
      obtain rfl : other = used :=
        inj_on_of_nodup_map helpersDistinct isOther isUsed (named.trans isMethod.symm)
      exact ⟨_, sound.mem_blockCalls valid isPart isCall, _, sound.closure_mem isHoisted, rfl,
        serves, _, _, rfl⟩
    · obtain ⟨-, -, isMethod, -, -⟩ := Expr.call.inj made
      have isClosure := mem_map_of_mem (f := fun hoisted : HoistedBlock =>
        naming.closure hoisted.scope) isHoisted
      exact absurd isClosure (disjoint (isMethod ▸ isName))
  closures := by
    intro closure member
    obtain ⟨hoisted, isHoisted, rfl⟩ := mem_map.1 (sound.converted.closures.mem_iff.1 member)
    obtain ⟨part, isPart, call, isCall, same, -⟩ := sound.hoisted_called valid isHoisted
    obtain ⟨used, isUsed, based⟩ := sound.converted.helped hoisted isHoisted
    obtain ⟨-, -, serves⟩ := sound.serves valid isPart isCall isHoisted same.symm isUsed based
    exact ⟨_, sound.mem_blockCalls valid isPart isCall, used, isUsed, serves⟩

end Linked

/-- The result of a transformation is well linked. -/
theorem transform_wellLinked {text : Text} {result : TransformResult}
    (transformed : transform {} text = .ok result) :
    ∃ program rewriting stop, parse text = .ok program ∧ rewrite program = .ok rewriting ∧
      print rewriting.program = .ok result.text ∧
      rewriting.program = rewriting.added ++ rewriting.body ∧
      WellLinked program rewriting stop := by
  obtain ⟨program, rewriting, parsed, rewritten, printed, -⟩ := transform_stages transformed
  have valid := wellFormed_of_parse parsed
  obtain ⟨naming, sound⟩ := rewrite_eq_ok valid rewritten
  exact ⟨program, rewriting, naming.stop, parsed, rewritten, printed, rfl, sound.wellLinked valid⟩

theorem transform_wellLinked_nested : ∃ result, transform {} (.ofString
      "x = 0\n[1].each { |a| [3].each { |b, c| x += a }; loop { break } }\np x\n") = .ok result ∧
      ∃ program rewriting stop, rewrite program = .ok rewriting ∧
        print rewriting.program = .ok result.text ∧ WellLinked program rewriting stop := by
  obtain ⟨program, resolution, parsed, resolved⟩ := accepted_iff.1 (show accepted (.ofString
    "x = 0\n[1].each { |a| [3].each { |b, c| x += a }; loop { break } }\np x\n") = true by
      decide +kernel)
  obtain ⟨result, transformed⟩ := transform_of_resolve parsed resolved
  obtain ⟨program, rewriting, stop, -, rewritten, printed, -, linked⟩ :=
    transform_wellLinked transformed
  exact ⟨result, transformed, program, rewriting, stop, rewritten, printed, linked⟩

end Hoist
