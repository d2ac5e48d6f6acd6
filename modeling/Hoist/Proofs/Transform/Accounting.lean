import Hoist.Proofs.Transform.WellLinked

/-!
What becomes of the calls with a block.  Each is hoisted or left with a warning; the calls with a
block in the rewritten program are those that were left; and the method that a block becomes is
defined once and called once, as the last argument of a helper.
-/

namespace Hoist

open List

open Lexeme

/-- No parameter of a block has a default. -/
def PlainBlocks (program : PlainProgram) : Prop :=
  ∀ block ∈ (walkStmts program).filterMap Node.block?, ∀ param ∈ block.params,
    param.default = none

instance (program : PlainProgram) : Decidable (PlainBlocks program) :=
  inferInstanceAs (Decidable (∀ block ∈ (walkStmts program).filterMap Node.block?, ∀ param ∈
    block.params, param.default = none))

/-- The method that an expression calls without a receiver. -/
def Expr.callee? {ν σ : Type} : Expr ν σ → Option String
  | .call _ none method .. => some method
  | _ => none

/-- Whether a part of a tree calls a method without a receiver. -/
def Node.calls {ν σ : Type} (name : String) : Node ν σ → Bool
  | .expr tree => tree.callee? == some name
  | _ => false

/-- What tells calls with a block apart: where the call stands, its method, where its block stands.
-/
def BlockCall.signature {ν σ : Type} (call : BlockCall ν σ) : Loc × String × Loc :=
  (call.loc, call.method, call.block.loc)

variable {ν σ : Type}

theorem Node.isLink_of_calls {name : String} {node : Node ν σ}
    (calls : node.calls name = true) : node.isLink = true := by
  cases node with
  | expr tree =>
    have callee := eq_of_beq calls
    unfold Expr.callee? at callee
    split at callee
    · rfl
    · cases callee
  | _ => cases calls

theorem Node.blockCall?_eq_none {node : Node ν σ} (noCall : ∀ loc receiver method args tree parens,
      node ≠ .expr (.call loc receiver method args (some tree) parens)) :
    node.blockCall? = none := by
  unfold Node.blockCall?
  split
  · exact absurd rfl (noCall _ _ _ _ _ _)
  · rfl

theorem Node.isLink_of_blockCall? {node : Node ν σ} {call : BlockCall ν σ}
    (isCall : node.blockCall? = some call) : node.isLink = true := by
  unfold Node.blockCall? at isCall
  split at isCall
  · next loc receiver method args tree parens => cases receiver <;> rfl
  · cases isCall

theorem blockCalls_links (nodes : List (Node ν σ)) :
    blockCalls (links nodes) = blockCalls nodes := by
  rw [links, blockCalls, filterMap_filter, blockCalls]
  refine filterMap_congr fun node _ => ?_
  cases isCall : node.blockCall? with
  | none => exact ite_self none
  | some call => rw [Node.isLink_of_blockCall? isCall, if_pos rfl]

variable {call : BlockCall Occurrence ScopeId} {part : Part}

section Parts

variable (input : ConversionInput) (naming : Naming)

/-- The call that makes the closure, at a call whose block is hoisted. -/
def Part.closureCall? (part : Part) : Option PlainExpr :=
  part.node.blockCall?.bind fun call =>
    (input.plan.helper? call.block.scope).map fun _ =>
      Image.closureCall input naming part.site call.block.loc call.block.scope

variable {input} in
theorem Part.hoistedCall_mem_links {helper : Helper} (isCall : part.node.blockCall? = some call)
    (planned : input.plan.helper? call.block.scope = some helper) :
    .expr (Image.hoistedCall input naming part.site call.loc
      (Image.option input naming part.site call.receiver) helper call.block.loc call.block.scope) ∈
        part.links input naming := by
  obtain ⟨site, node⟩ := part
  unfold Node.blockCall? at isCall
  dsimp only at isCall
  split at isCall
  · cases isCall
    simp only [Part.links, Image.expr, planned]
    exact mem_cons_self
  · cases isCall

theorem Part.links_signatures (part : Part) :
    (blockCalls (part.links input naming)).map BlockCall.signature =
      ((part.node.blockCall?.filter fun call =>
        (input.plan.helper? call.block.scope).isNone).map BlockCall.signature).toList := by
  obtain ⟨site, node⟩ := part
  unfold Part.links
  dsimp only
  split
  · next loc receiver method args tree parens =>
    rw [Image.expr]
    cases planned : input.plan.helper? tree.scope with
    | none =>
      have block : (Image.block input naming site tree).loc = tree.loc := by
        cases tree
        rfl
      simp [Node.blockCall?, Option.filter, planned, blockCalls, BlockCall.signature, block]
    | some helper =>
      simp [Node.blockCall?, Option.filter, planned, blockCalls, Image.hoistedCall,
        Image.closureCall]
  · rfl
  · rfl
  · next tree =>
    cases input.plan.helper? tree.scope <;> rfl
  · next noCall _ _ _ =>
    rw [Node.blockCall?_eq_none noCall]
    rfl

end Parts

variable {param : PlainParam}

variable {naming : Naming}

namespace Image

theorem mem_of_mem_dropped {arity : Nat} {params : List PlainParam}
    (member : param ∈ dropped arity params) : param ∈ params := by
  unfold dropped at member
  split at member
  · exact member
  · split at member
    · exact absurd member not_mem_nil
    · exact member

theorem mem_params {input : ConversionInput} {site : Site}
    {params : List ResolvedParam} (member : param ∈ Image.params input naming site params) :
    ∃ source ∈ params, param.default = Image.option input naming site source.default := by
  induction params with
  | nil => exact absurd member not_mem_nil
  | cons first rest ih =>
    obtain ⟨name, loc, value⟩ := first
    rw [Image.params, mem_cons] at member
    rcases member with rfl | member
    · exact ⟨_, mem_cons_self, rfl⟩
    · obtain ⟨source, isSource, same⟩ := ih member
      exact ⟨source, mem_cons_of_mem _ isSource, same⟩

end Image

variable {hoisted : HoistedBlock}

theorem HoistedBlock.mem_image_params {input : ConversionInput}
    (member : param ∈ (hoisted.image input naming).params) :
    ∃ source ∈ hoisted.block.params, ∃ site,
      param.default = Image.option input naming site source.default := by
  rw [image] at member
  obtain ⟨site, helper, loc, scope, params, body⟩ := hoisted
  obtain ⟨source, isSource, same⟩ := Image.mem_params member
  exact ⟨source, isSource, _, same⟩

section Sound

variable {program : PlainProgram} {rewriting : Rewriting} {naming : Naming}
  (sound : rewriting.Sound program naming)
  (valid : stmtsWellFormed (.plain fun _ => True) false program)
include sound valid

namespace Rewriting

theorem Sound.helper_ne_closure (member : part ∈ rewriting.parts) {helper : Helper}
    (isCall : part.node.blockCall? = some call)
    (planned : rewriting.plan.helper? call.block.scope = some helper)
    (isHoisted : hoisted ∈ rewriting.blocks) :
    naming.helper helper.base ≠ naming.closure hoisted.scope := by
  obtain ⟨other, isOther, same, rfl⟩ := sound.block_hoisted valid member isCall planned
  obtain ⟨used, isUsed, based⟩ := sound.converted.helped other isOther
  obtain ⟨named, -⟩ := sound.serves valid member isCall isOther same isUsed based
  obtain ⟨-, -, disjoint⟩ := nodup_append'.1 sound.generated.1
  have isName : used.name ∈ rewriting.state.helpers.map UsedHelper.name :=
    mem_map_of_mem isUsed
  intro clash
  exact disjoint (named.trans clash ▸ isName)
    (mem_map_of_mem (f := fun hoisted : HoistedBlock => naming.closure hoisted.scope) isHoisted)

theorem Sound.filter_calls_part (isHoisted : hoisted ∈ rewriting.blocks)
    (member : part ∈ rewriting.parts) :
    (part.links rewriting.input naming).filter (Node.calls (naming.closure hoisted.scope)) =
      ((part.closureCall? rewriting.input naming).toList.map Node.expr).filter
        (Node.calls (naming.closure hoisted.scope)) := by
  have issued : naming.closure hoisted.scope ∈ rewriting.issued :=
    sound.generated.2 _ (mem_append_right _ (mem_map_of_mem
      (f := fun hoisted : HoistedBlock => naming.closure hoisted.scope) isHoisted))
  have spelled := sound.not_issued valid member
  have differs : ∀ call helper, part.node.blockCall? = some call →
      rewriting.plan.helper? call.block.scope = some helper →
      naming.helper helper.base ≠ naming.closure hoisted.scope :=
    fun _ _ isCall planned => sound.helper_ne_closure valid member isCall planned isHoisted
  obtain ⟨site, node⟩ := part
  unfold Part.links
  dsimp only at spelled differs ⊢
  split
  · next loc receiver method args tree parens =>
    rw [Image.expr]
    cases planned : rewriting.input.plan.helper? tree.scope with
    | none =>
      have other : method ≠ naming.closure hoisted.scope := fun same =>
        spelled method (by rw [Node.relabel, Expr.relabel_call]; rfl) (same ▸ issued)
      cases receiver <;>
        simp [Part.closureCall?, Node.blockCall?, planned, Image.option, Node.calls,
          Expr.callee?, other]
    | some helper =>
      have other := differs _ helper rfl planned
      simp [Part.closureCall?, Node.blockCall?, planned, Image.hoistedCall, Node.calls,
        Expr.callee?, other]
  · next loc method args parens =>
    have other : method ≠ naming.closure hoisted.scope := fun same =>
      spelled method rfl (same ▸ issued)
    simp [Part.closureCall?, Node.blockCall?, Image.expr, Image.option, Node.calls,
      Expr.callee?, other]
  · rfl
  · next tree => cases rewriting.input.plan.helper? tree.scope <;> rfl
  · next noCall _ _ _ =>
    rw [Part.closureCall?, Node.blockCall?_eq_none noCall]
    rfl

theorem Sound.nothing_lost (plain : PlainBlocks program) :
    rewriting.blocks.flatMap (HoistedBlock.lost rewriting.input naming) = [] := by
  refine flatMap_eq_nil_iff.2 fun hoisted member => ?_
  have there := sound.mem_walk valid (mem_hoistedBlocks.1 member).1
  have noDefault : ∀ param ∈ hoisted.block.params, param.default = none := by
    have erased := plain _ (mem_filterMap.2 ⟨_, there, rfl⟩)
    rw [Block.relabel, Block.params, relabelParams_eq_map, forall_mem_map] at erased
    exact fun param isParam => Option.map_eq_none_iff.1 (erased param isParam)
  refine links_walkParams_names fun param isDropped => ?_
  obtain ⟨source, isSource, site, same⟩ :=
    HoistedBlock.mem_image_params (Image.mem_of_mem_dropped isDropped)
  rw [same, noDefault source isSource]
  rfl

def calls (rewriting : Rewriting) : List (BlockCall Occurrence ScopeId) :=
  blockCalls (walkStmts rewriting.resolution.program)

def hoists (rewriting : Rewriting) (call : BlockCall Occurrence ScopeId) : Bool :=
  rewriting.plan.isHoisted call.block.scope

theorem Sound.hoisted_scopes :
    ((rewriting.calls.filter rewriting.hoists).map fun call => call.block.scope).Perm
      (rewriting.blocks.map HoistedBlock.scope) := by
  have called := ((walkStmts_blocksCalled rewriting.resolution.program _
    (sound.source valid).wellFormed).map Block.scope).filter rewriting.plan.isHoisted
  rw [← sound.parts_map_node valid] at called
  have blocks : rewriting.blocks.map HoistedBlock.scope =
      (((rewriting.parts.map Part.node).filterMap Node.block?).map Block.scope).filter
        rewriting.plan.isHoisted := by
    rw [filterMap_map, map_filterMap, filter_filterMap, blocks,
      ConversionInput.hoisted, hoistedBlocks, map_filterMap]
    refine filterMap_congr fun part _ => ?_
    obtain ⟨site, node⟩ := part
    cases node with
    | block tree =>
      have planned : rewriting.plan.isHoisted tree.scope =
        (rewriting.input.plan.helper? tree.scope).isSome := rfl
      cases found : rewriting.input.plan.helper? tree.scope <;>
        simp [Part.hoisted?, Node.block?, Option.filter, planned, found, HoistedBlock.scope]
    | _ => rfl
  rw [blocks]
  refine .trans (.of_eq ?_) called
  rw [map_map, filter_map]
  simp only [calls, ← sound.parts_map_node valid]
  rfl

/-- The calls that make closures name different ones. -/
theorem Sound.closureCalls_nodup :
    ((rewriting.parts.filterMap (Part.closureCall? rewriting.input naming)).map
      Expr.callee?).Nodup := by
  have names : (rewriting.parts.filterMap (Part.closureCall? rewriting.input naming)).map
      Expr.callee? = ((rewriting.calls.filter rewriting.hoists).map fun call =>
        call.block.scope).map fun scope => some (naming.closure scope) := by
    rw [calls, blockCalls, ← sound.parts_map_node valid, filterMap_map, filter_filterMap,
      map_filterMap, map_filterMap, map_filterMap]
    refine filterMap_congr fun part _ => ?_
    cases isCall : part.node.blockCall? with
    | none => simp [Part.closureCall?, isCall]
    | some call =>
      have planned : rewriting.hoists call =
        (rewriting.input.plan.helper? call.block.scope).isSome := rfl
      cases found : rewriting.input.plan.helper? call.block.scope <;>
        simp [Part.closureCall?, isCall, planned, found, Option.filter, Image.closureCall,
          Expr.callee?]
  have distinct := (nodup_append'.1 sound.generated.1).2.1.map (Option.some_injective _)
  rw [names]
  refine ((sound.hoisted_scopes valid).map _).nodup_iff.2 ?_
  rwa [map_map] at distinct ⊢

section Called

variable (plain : PlainBlocks program) {hoisted : HoistedBlock}
  (isHoisted : hoisted ∈ rewriting.blocks) {part : Part} (isPart : part ∈ rewriting.parts)
  {call : BlockCall Occurrence ScopeId} (isCall : part.node.blockCall? = some call)
  (same : call.block = hoisted.block)
include plain isHoisted isPart isCall same

theorem Sound.called_once :
    (walkStmts rewriting.program).filter (Node.calls (naming.closure hoisted.scope)) =
      [.expr (Image.closureCall rewriting.input naming part.site call.block.loc
        hoisted.scope)] := by
  have scope : call.block.scope = hoisted.scope := congrArg Block.scope same
  have planned : rewriting.input.plan.helper? call.block.scope = some hoisted.helper :=
    scope ▸ (mem_hoistedBlocks.1 isHoisted).2
  have isClosureCall :
      Image.closureCall rewriting.input naming part.site call.block.loc hoisted.scope ∈
        rewriting.parts.filterMap (Part.closureCall? rewriting.input naming) :=
    mem_filterMap.2 ⟨part, isPart, by
      rw [Part.closureCall?, isCall, Option.bind_some, planned, Option.map_some, scope]⟩
  have only := filter_eq_singleton_of_nodup (sound.closureCalls_nodup valid) isClosureCall
  have helpers : (rewriting.state.helpers.map fun used => Node.stmt used.definition).filter
      (Node.calls (naming.closure hoisted.scope)) = [] := by
    rw [filter_map]
    exact congrArg _ (filter_eq_nil_iff.2 fun _ _ => Bool.false_ne_true)
  have parts : (rewriting.parts.flatMap (Part.links rewriting.input naming)).filter
      (Node.calls (naming.closure hoisted.scope)) =
      ((rewriting.parts.filterMap (Part.closureCall? rewriting.input naming)).map Node.expr).filter
        (Node.calls (naming.closure hoisted.scope)) := by
    rw [filter_flatMap, filterMap_eq_flatMap_toList, map_flatMap,
      filter_flatMap]
    exact flatMap_congr fun part there => sound.filter_calls_part valid isHoisted there
  have perm := (sound.links_perm valid).filter (Node.calls (naming.closure hoisted.scope))
  rw [sound.nothing_lost valid plain, append_nil, filter_links fun _ => Node.isLink_of_calls,
    filter_append, helpers, nil_append, parts, filter_map] at perm
  exact perm_singleton.1 (perm.trans (.of_eq (congrArg (List.map Node.expr) only)))

theorem Sound.passed_to_helper : ∃ used ∈ rewriting.state.helpers, ∃ loc front,
      .expr (.call loc none used.name (front ++
        [Image.closureCall rewriting.input naming part.site call.block.loc hoisted.scope]) none
          true) ∈ walkStmts rewriting.program := by
  have scope : call.block.scope = hoisted.scope := congrArg Block.scope same
  have planned : rewriting.input.plan.helper? call.block.scope = some hoisted.helper :=
    scope ▸ (mem_hoistedBlocks.1 isHoisted).2
  obtain ⟨used, isUsed, based⟩ := sound.converted.helped hoisted isHoisted
  obtain ⟨named, -⟩ := sound.serves valid isPart isCall isHoisted same.symm isUsed based
  have perm := sound.links_perm valid
  rw [sound.nothing_lost valid plain, append_nil] at perm
  have contributes := Part.hoistedCall_mem_links naming isCall planned
  have member := (mem_filter.1 (perm.mem_iff.2
    (mem_append_right _ (mem_flatMap.2 ⟨part, isPart, contributes⟩)))).1
  rw [Image.hoistedCall, ← named, scope] at member
  exact ⟨used, isUsed, call.loc, _, member⟩

end Called

theorem Sound.left_signatures (plain : PlainBlocks program) :
    ((blockCalls (walkStmts rewriting.program)).map BlockCall.signature).Perm
      ((rewriting.calls.filter fun call => !rewriting.hoists call).map BlockCall.signature) := by
  have perm := ((sound.links_perm valid).filterMap Node.blockCall?).map BlockCall.signature
  rw [sound.nothing_lost valid plain, append_nil, ← blockCalls, blockCalls_links] at perm
  refine perm.trans (.of_eq ?_)
  have helpers : (rewriting.state.helpers.map fun used => Node.stmt used.definition).filterMap
      Node.blockCall? = [] := by
    rw [filterMap_map]
    exact filterMap_eq_nil_iff.2 fun _ _ => rfl
  rw [filterMap_append, helpers, nil_append, filterMap_flatMap, map_flatMap,
    calls, blockCalls, ← sound.parts_map_node valid, filterMap_map, filter_filterMap,
    map_filterMap, filterMap_eq_flatMap_toList]
  refine flatMap_congr fun part _ => ?_
  rw [← blockCalls, part.links_signatures]
  cases isCall : part.node.blockCall? with
  | none => simp [isCall]
  | some call =>
    have planned : rewriting.hoists call =
      (rewriting.input.plan.helper? call.block.scope).isSome := rfl
    cases found : rewriting.input.plan.helper? call.block.scope <;>
      simp [isCall, planned, found, Option.filter]

/-- The warnings are for the calls that are left, in reading order. -/
theorem Sound.warnings :
    rewriting.plan.warnings.map (fun warning => (warning.method, warning.loc)) =
      (rewriting.calls.filter fun call => !rewriting.hoists call).map fun call =>
        (call.method, call.loc) := by
  rw [sound.planned, planCalls_warnings, map_filterMap, ← filterMap_eq_filter,
    map_filterMap]
  refine filterMap_congr fun call member => ?_
  have planned := planCalls_helper? standardHelpers (sound.source valid).wellFormed
    (resolve_marks_nodup sound.resolved) member
  rw [← sound.planned] at planned
  have hoists : rewriting.hoists call = (rewriting.plan.helper? call.block.scope).isSome := rfl
  cases verdict : call.verdict rewriting.resolution.table.methods standardHelpers <;>
    simp [Plan.warning?, verdict, hoists, planned, Except.toOption]

end Rewriting

end Sound

/-- What became of the calls with a block: `lifted` are those whose block is hoisted, `left` those
that are left as they are. -/
structure Accounted (program : PlainProgram) (rewriting : Rewriting) (result : TransformResult)
    (lifted left : List (BlockCall String Unit)) : Prop where
  /-- A call is hoisted or left, and not both. -/
  parted : (blockCalls (walkStmts program)).Perm (lifted ++ left)
  inOrder : left.Sublist (blockCalls (walkStmts program))
  /-- Each hoisted block has a name of its own. -/
  named : result.hoisted.Nodup ∧ lifted.length = result.hoisted.length
  /-- A call that is left has a warning. -/
  warned : result.warnings.map (fun warning => (warning.method, warning.loc)) =
    left.map fun call => (call.method, call.loc)
  /-- The rewritten program has the calls that are left, with their blocks, and no other blocks. -/
  remaining : ((blockCalls (walkStmts rewriting.program)).map BlockCall.signature).Perm
    (left.map BlockCall.signature)
  blocks : (((walkStmts rewriting.program).filterMap Node.block?).map Block.loc).Perm
    (left.map fun call => call.block.loc)
  /-- A hoisted block is defined once, and called once, as the last argument of a helper. -/
  defined : ∀ name ∈ result.hoisted, ∃ definition,
    (walkStmts rewriting.program).filter (Node.defines name) = [.stmt definition]
  called : ∀ name ∈ result.hoisted, ∃ place captures,
    (walkStmts rewriting.program).filter (Node.calls name) =
      [.expr (.call place none name captures none true)] ∧
    ∃ used ∈ rewriting.state.helpers, ∃ loc front,
      .expr (.call loc none used.name (front ++ [.call place none name captures none true]) none
        true) ∈ walkStmts rewriting.program

theorem Rewriting.Sound.accounted {program : PlainProgram} {rewriting : Rewriting}
    (sound : rewriting.Sound program naming)
    (valid : stmtsWellFormed (.plain fun _ => True) false program) (plain : PlainBlocks program)
    {result : TransformResult} (hoisted : result.hoisted = rewriting.hoisted)
    (warnings : result.warnings = rewriting.plan.warnings) :
    Accounted program rewriting result
      ((rewriting.calls.filter rewriting.hoists).map (BlockCall.relabel erasing))
      ((rewriting.calls.filter fun call => !rewriting.hoists call).map
        (BlockCall.relabel erasing)) := by
  have names : rewriting.hoisted.Perm
      (rewriting.blocks.map fun hoisted => naming.closure hoisted.scope) := by
    have perm := sound.converted.closures.map HoistedClosure.name
    rwa [map_map] at perm
  have calls := sound.blockCalls_eq valid
  have remaining := sound.left_signatures valid plain
  constructor
  case parted =>
    rw [calls, ← map_append]
    exact (filter_append_perm _ _).symm.map _
  case inOrder =>
    rw [calls]
    exact filter_sublist.map _
  case named =>
    rw [hoisted]
    refine ⟨names.nodup_iff.2 (nodup_append'.1 sound.generated.1).2.1, ?_⟩
    have scopes := (sound.hoisted_scopes valid).length_eq
    have count := names.length_eq
    simp only [length_map] at scopes count ⊢
    omega
  case warned =>
    rw [warnings, sound.warnings valid, map_map]
    rfl
  case remaining =>
    rw [map_map]
    exact remaining
  case blocks =>
    have called := (walkStmts_blocksCalled rewriting.program _ (sound.wellFormed valid)).map
      Block.loc
    have places := remaining.map fun signature => signature.2.2
    rw [map_map] at called
    rw [map_map, map_map] at places
    rw [map_map]
    exact called.symm.trans places
  case defined =>
    intro name member
    obtain ⟨block, isBlock, rfl⟩ := mem_map.1 (names.mem_iff.1 (hoisted ▸ member))
    have isAdded : (block.closure rewriting.input naming).definition ∈ rewriting.added :=
      mem_append_right _ (mem_map_of_mem (sound.closure_mem isBlock))
    exact ⟨_, sound.defined_once valid isAdded rfl⟩
  case called =>
    intro name member
    obtain ⟨block, isBlock, rfl⟩ := mem_map.1 (names.mem_iff.1 (hoisted ▸ member))
    obtain ⟨part, isPart, call, isCall, same, -⟩ := sound.hoisted_called valid isBlock
    exact ⟨_, _, sound.called_once valid plain isBlock isPart isCall same,
      sound.passed_to_helper valid plain isBlock isPart isCall same⟩

/-- Each call with a block is hoisted or left with a warning. -/
theorem transform_accounts {text : Text} {result : TransformResult} {program : PlainProgram}
    (transformed : transform {} text = .ok result) (parsed : parse text = .ok program)
    (plain : PlainBlocks program) :
    (blockCalls (walkStmts program)).length = result.hoisted.length + result.warnings.length ∧
      ∃ rewriting lifted left, rewrite program = .ok rewriting ∧
        print rewriting.program = .ok result.text ∧
        Accounted program rewriting result lifted left := by
  obtain ⟨other, rewriting, isOther, rewritten, printed, hoisted, warnings⟩ :=
    transform_stages transformed
  cases parsed.symm.trans isOther
  have valid := wellFormed_of_parse parsed
  obtain ⟨naming, sound⟩ := rewrite_eq_ok valid rewritten
  have accounted := sound.accounted valid plain hoisted warnings
  refine ⟨?_, rewriting, _, _, rewritten, printed, accounted⟩
  have counted := congrArg List.length accounted.warned
  rw [length_map, length_map] at counted
  rw [accounted.parted.length_eq, length_append, accounted.named.2, ← counted]

theorem transform_accounts_nested : ∃ program result, PlainBlocks program ∧
      parse (.ofString "[1].each { |a| [a].zip { |b| [b].map { |c| p c } } }\n") = .ok program ∧
      (blockCalls (walkStmts program)).length = result.hoisted.length + result.warnings.length ∧
      ∃ rewriting lifted left, rewrite program = .ok rewriting ∧
        print rewriting.program = .ok result.text ∧
        Accounted program rewriting result lifted left := by
  obtain ⟨program, resolution, parsed, resolved⟩ := accepted_iff.1 (show accepted (.ofString
    "[1].each { |a| [a].zip { |b| [b].map { |c| p c } } }\n") = true by decide +kernel)
  have plain : (parse (.ofString
    "[1].each { |a| [a].zip { |b| [b].map { |c| p c } } }\n")).toOption.all
      (fun program => decide (PlainBlocks program)) = true := by decide +kernel
  rw [parsed] at plain
  obtain ⟨result, transformed⟩ := transform_of_resolve parsed resolved
  exact ⟨program, result, of_decide_eq_true plain, parsed,
    transform_accounts transformed parsed (of_decide_eq_true plain)⟩

end Hoist
