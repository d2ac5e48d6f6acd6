import Hoist.Proofs.Helper.Definition
import Hoist.Proofs.Transform.Soundness

/-!
The definitions and calls of a rewritten program.  They are the definitions that are added and what
the parts of the resolved program contribute.  So a generated name is defined by the added
definitions alone, and called only where a call with a hoisted block stood.
-/

namespace Hoist

open List

open Lexeme

variable {name : String} {ν σ : Type}

theorem Node.isLink_of_defines {node : Node ν σ}
    (defines : node.defines name = true) : node.isLink = true := by
  cases node with
  | stmt tree =>
    cases tree with
    | define => rfl
    | _ => exact absurd (eq_of_beq defines) nofun
  | _ => cases defines

/-- A definition among some statements is met. -/
theorem mem_walkStmts_of_defined {trees : List (Stmt ν σ)} {tree : Stmt ν σ} (member : tree ∈ trees)
    (defined : tree.defined? = some name) : .stmt tree ∈ walkStmts trees := by
  rw [Node.walkStmts_eq]
  refine mem_flatMap.2 ⟨tree, member, ?_⟩
  cases tree with
  | define => exact mem_cons_self
  | _ => cases defined

theorem filter_eq_singleton_of_nodup {α κ : Type} [BEq κ] [LawfulBEq κ] {key : α → κ}
    {entries : List α} (distinct : (entries.map key).Nodup) {entry : α} (member : entry ∈ entries) :
    entries.filter (key · == key entry) = [entry] := by
  induction entries with
  | nil => exact absurd member not_mem_nil
  | cons first rest ih =>
    rw [map_cons, nodup_cons] at distinct
    rcases mem_cons.1 member with rfl | member
    · have others : rest.filter (key · == key entry) = [] := by
        refine filter_eq_nil_iff.2 fun other there same => distinct.1 ?_
        rw [← eq_of_beq same]
        exact mem_map_of_mem there
      rw [filter_cons, if_pos (beq_self_eq_true _), others]
    · have other : key first ≠ key entry := fun same =>
        distinct.1 (same ▸ mem_map_of_mem member)
      rw [filter_cons_of_neg (by simpa using other)]
      exact ih distinct.2 member

def BlockCall.relabel {ν σ ν' σ' : Type} (change : Relabel ν σ ν' σ') (call : BlockCall ν σ) :
    BlockCall ν' σ' :=
  ⟨call.loc, call.receiver.map (Expr.relabel change), call.method, relabelExprs change call.args,
    call.block.relabel change⟩

theorem Node.blockCall?_relabel {ν' σ' : Type} (change : Relabel ν σ ν' σ') (node : Node ν σ) :
    (node.relabel change).blockCall? = node.blockCall?.map (BlockCall.relabel change) := by
  cases node with
  | expr tree =>
    cases tree with
    | call loc receiver method args block parens =>
      rw [Node.relabel, Expr.relabel_call]
      cases block <;> rfl
    | block tree =>
      cases tree
      rfl
    | param tree => rcases tree with ⟨_, _, _ | _⟩ <;> rfl
    | _ => rfl
  | _ => rfl

theorem blockCalls_relabel {ν' σ' : Type} (change : Relabel ν σ ν' σ') (nodes : List (Node ν σ)) :
    blockCalls (nodes.map (Node.relabel change)) =
      (blockCalls nodes).map (BlockCall.relabel change) := by
  rw [blockCalls, filterMap_map, blockCalls, map_filterMap]
  exact filterMap_congr fun node _ => node.blockCall?_relabel change

section Sound

variable {program : PlainProgram} {rewriting : Rewriting} {naming : Naming}

namespace Rewriting

/-- The parts of the resolved program. -/
def parts (rewriting : Rewriting) : List Part :=
  stmtsParts rewriting.input Site.top rewriting.resolution.program

def blocks (rewriting : Rewriting) : List HoistedBlock :=
  rewriting.input.hoisted rewriting.resolution.program

variable (sound : rewriting.Sound program naming)
  (valid : stmtsWellFormed (.plain fun _ => True) false program)
include sound valid

theorem Sound.parts_map_node :
    rewriting.parts.map Part.node = walkStmts rewriting.resolution.program :=
  stmtsParts_map_node _ _ _ (sound.source valid).wellFormed

variable {part : Part} {call : BlockCall Occurrence ScopeId}

theorem Sound.mem_walk (member : part ∈ rewriting.parts) :
    part.node.relabel erasing ∈ walkStmts program := by
  have there := mem_map_of_mem (f := Part.node) member
  rw [sound.parts_map_node valid] at there
  rw [← (sound.source valid).erased, walkStmts_relabel]
  exact mem_map_of_mem there

omit valid in
theorem Sound.definedBy {used : UsedHelper} (member : used ∈ rewriting.state.helpers) :
    ∃ helper iteration, (helper, iteration) ∈ Helper.iterations ∧ used.base = helper.base ∧
      used.name = naming.helper helper.base ∧
      helper.instantiate used.name naming.stop = .ok used.definition ∧
      helper.DefinedBy used.name used.definition := by
  obtain ⟨helper, iteration, there, based, named, instantiated⟩ :=
    sound.converted.helpers used member
  have isName : isName used.name = true := named ▸ sound.converted.valid.helper helper.base
  exact ⟨helper, iteration, there, based, named, instantiated,
    Helper.definedBy_of_instantiate there isName sound.converted.valid.stop instantiated⟩

theorem Sound.not_issued (member : part ∈ rewriting.parts) (name : String)
    (spelled : (part.node.relabel erasing).identifier? = some name) : name ∉ rewriting.issued :=
  fun generated => sound.converted.unreserved name generated
    (mem_identifiers (sound.mem_walk valid member) spelled)

theorem Sound.verdict (member : part ∈ rewriting.parts) {helper : Helper}
    (isCall : part.node.blockCall? = some call)
    (planned : rewriting.plan.helper? call.block.scope = some helper) :
    call.verdict rewriting.resolution.table.methods standardHelpers = .ok helper := by
  have there := mem_map_of_mem (f := Part.node) member
  rw [sound.parts_map_node valid] at there
  have isMember : call ∈ blockCalls (walkStmts rewriting.resolution.program) :=
    mem_filterMap.2 ⟨_, there, isCall⟩
  rw [sound.planned, planCalls_helper? standardHelpers (sound.source valid).wellFormed
    (resolve_marks_nodup sound.resolved) isMember] at planned
  cases decided : call.verdict rewriting.resolution.table.methods standardHelpers with
  | error reason =>
    rw [decided] at planned
    cases planned
  | ok other =>
    rw [decided] at planned
    exact congrArg Except.ok (Option.some.inj planned)

theorem Sound.fits : ∀ part ∈ rewriting.parts, part.Fits rewriting.input := by
  intro part member call helper isCall planned
  obtain ⟨-, hasReceiver, noArgs, -⟩ :=
    lookup_of_classify (sound.verdict valid member isCall planned)
  exact ⟨noArgs, hasReceiver⟩

theorem Sound.links_perm : (links (walkStmts rewriting.program) ++
      rewriting.blocks.flatMap (HoistedBlock.lost rewriting.input naming)).Perm
        (rewriting.state.helpers.map (fun used => .stmt used.definition) ++
          rewriting.parts.flatMap (Part.links rewriting.input naming)) := by
  have helpers : links (walkStmts (rewriting.state.helpers.map UsedHelper.definition)) =
      rewriting.state.helpers.map fun used => .stmt used.definition := by
    rw [Node.walkStmts_eq, flatMap_map, links, filter_flatMap, map_eq_flatMap]
    refine flatMap_congr fun used member => ?_
    obtain ⟨_, _, -, -, -, -, defined⟩ := sound.definedBy member
    exact defined.links
  have closures : (links (walkStmts (rewriting.state.closures.map HoistedClosure.definition))).Perm
      (rewriting.blocks.flatMap (HoistedBlock.moved rewriting.input naming)) := by
    have perm := sound.converted.closures.flatMap_right fun closure => links closure.definition.walk
    rw [flatMap_map] at perm
    rw [Node.walkStmts_eq, flatMap_map, links, filter_flatMap]
    exact perm
  have body : links (walkStmts rewriting.body) = links (walkStmts
      (Image.stmts rewriting.input naming Site.top rewriting.resolution.program)) := by
    rw [sound.converted.body, walkStmts_append, links_append, Conversion.links_cellPrelude,
      nil_append]
  have balanced : Balanced rewriting.input naming _ rewriting.parts :=
    stmts_image_balanced Site.top rewriting.resolution.program
  have balanced := balanced (sound.fits valid)
  rw [Rewriting.program, added, walkStmts_append, walkStmts_append, links_append, links_append,
    helpers, body,
    append_assoc, append_assoc]
  refine List.Perm.append_left _ (.trans ?_ balanced)
  have moved := (closures.append_right (rewriting.blocks.flatMap
    (HoistedBlock.lost rewriting.input naming))).trans (flatMap_append_perm _ _ _)
  refine (perm_append_comm_assoc _ _ _).trans ?_
  exact moved.append_left _

omit valid in
theorem Sound.generated : (rewriting.state.helpers.map UsedHelper.name ++
      rewriting.blocks.map fun hoisted => naming.closure hoisted.scope).Nodup ∧
    ∀ name ∈ rewriting.state.helpers.map UsedHelper.name ++
      rewriting.blocks.map fun hoisted => naming.closure hoisted.scope,
      name ∈ rewriting.issued := by
  obtain ⟨chosen, perm, sublist⟩ := sound.converted.generated
  exact ⟨perm.nodup_iff.1 (sublist.nodup sound.converted.distinct),
    fun name member => sublist.subset (perm.mem_iff.2 member)⟩

omit valid in
theorem Sound.added_names :
    (rewriting.added.map Stmt.defined?).Perm ((rewriting.state.helpers.map UsedHelper.name ++
      rewriting.blocks.map fun hoisted => naming.closure hoisted.scope).map some) := by
  have helpers : (rewriting.state.helpers.map UsedHelper.definition).map Stmt.defined? =
      (rewriting.state.helpers.map UsedHelper.name).map some := by
    rw [map_map, map_map]
    refine map_congr_left fun used member => ?_
    obtain ⟨_, _, -, -, -, -, ⟨⟨_, _, _, isDefine, -⟩, -, -⟩⟩ := sound.definedBy member
    exact congrArg Stmt.defined? isDefine
  have closures := (sound.converted.closures.map HoistedClosure.definition).map Stmt.defined?
  rw [map_map (l := rewriting.input.hoisted _), map_map (l := rewriting.input.hoisted _)]
    at closures
  rw [added, map_append, helpers, map_append, map_map (l := rewriting.blocks)]
  exact closures.append_left _

theorem Sound.filter_defines_part (issued : name ∈ rewriting.issued)
    (member : part ∈ rewriting.parts) :
    (part.links rewriting.input naming).filter (Node.defines name) =
      ((part.hoisted? rewriting.input).toList.map fun hoisted =>
        Node.stmt (hoisted.closure rewriting.input naming).definition).filter
          (Node.defines name) := by
  have spelled := sound.not_issued valid member
  obtain ⟨site, node⟩ := part
  unfold Part.links
  dsimp only at spelled ⊢
  split
  · split <;> rfl
  · rfl
  · next loc scope other params body =>
    have differs : other ≠ name := fun same => spelled other rfl (same ▸ issued)
    have notDefined : (Node.stmt (Image.stmt rewriting.input naming site
        (.define loc scope other params body))).defines name = false :=
      beq_eq_false_iff_ne.2 fun same => differs (Option.some.inj same)
    rw [filter_cons, if_neg (by rw [notDefined]; exact Bool.false_ne_true)]
    rfl
  · next tree =>
    rw [Part.hoisted?]
    cases rewriting.input.plan.helper? tree.scope <;> rfl
  · next noBlock =>
    cases node with
    | block tree => exact absurd rfl (noBlock tree)
    | _ => rfl

omit valid in
theorem Sound.added_perm : (rewriting.added.map Node.stmt).Perm
      (rewriting.state.helpers.map (fun used => .stmt used.definition) ++
        rewriting.blocks.map fun hoisted =>
          .stmt (hoisted.closure rewriting.input naming).definition) := by
  have closures := (sound.converted.closures.map HoistedClosure.definition).map
    (Node.stmt (ν := String) (σ := Unit))
  rw [map_map (l := rewriting.input.hoisted _), map_map (l := rewriting.input.hoisted _)]
    at closures
  rw [added, map_append, map_map]
  exact closures.append_left _

theorem Sound.filter_defines (issued : name ∈ rewriting.issued) :
    ∃ lost, ((walkStmts rewriting.program).filter (Node.defines name) ++ lost).Perm
      ((rewriting.added.map Node.stmt).filter (Node.defines name)) := by
  have closures : (rewriting.parts.flatMap (Part.links rewriting.input naming)).filter
      (Node.defines name) = (rewriting.blocks.map fun hoisted =>
        Node.stmt (hoisted.closure rewriting.input naming).definition).filter
          (Node.defines name) := by
    rw [filter_flatMap, blocks, ConversionInput.hoisted, hoistedBlocks,
      filterMap_eq_flatMap_toList, map_flatMap, filter_flatMap]
    exact flatMap_congr fun part there => sound.filter_defines_part valid issued there
  have perm := (sound.links_perm valid).filter (Node.defines name)
  have whole := sound.added_perm.symm.filter (Node.defines name)
  rw [filter_append] at whole
  rw [filter_append, filter_append, filter_links fun _ => Node.isLink_of_defines, closures] at perm
  exact ⟨_, perm.trans whole⟩

theorem Sound.defined_once {definition : PlainStmt} (member : definition ∈ rewriting.added)
    (defined : definition.defined? = some name) :
    (walkStmts rewriting.program).filter (Node.defines name) = [.stmt definition] := by
  obtain ⟨distinct, allIssued⟩ := sound.generated
  have distinct := sound.added_names.nodup_iff.2 (distinct.map (Option.some_injective _))
  have issued : name ∈ rewriting.issued := by
    obtain ⟨other, there, same⟩ :=
      mem_map.1 (sound.added_names.mem_iff.1 (mem_map_of_mem member))
    rw [Option.some.inj (defined.symm.trans same.symm)]
    exact allIssued other there
  have single : (rewriting.added.map Node.stmt).filter (Node.defines name) =
      [.stmt definition] := by
    rw [filter_map]
    have only := filter_eq_singleton_of_nodup distinct member
    rw [defined] at only
    exact congrArg (List.map Node.stmt) only
  obtain ⟨lost, perm⟩ := sound.filter_defines valid issued
  rw [single] at perm
  rcases append_eq_singleton_iff.1 (perm_singleton.1 perm) with ⟨none, -⟩ | ⟨one, -⟩
  · have there : .stmt definition ∈ walkStmts rewriting.program :=
      mem_walkStmts_of_defined (mem_append_left _ member) defined
    have defines : (Node.stmt definition).defines name = true := beq_iff_eq.2 defined
    have found := mem_filter.2 ⟨there, defines⟩
    rw [none] at found
    exact absurd found not_mem_nil
  · exact one

theorem Sound.generated_call {loc : Loc} {method : String} {args : List PlainExpr}
    {block : Option PlainBlock} {parens : Bool}
    (member : .expr (.call loc none method args block parens) ∈ walkStmts rewriting.program)
    (issued : method ∈ rewriting.issued) :
    ∃ part ∈ rewriting.parts, ∃ call helper, part.node.blockCall? = some call ∧
      rewriting.plan.helper? call.block.scope = some helper ∧
      (.call loc none method args block parens =
          Image.hoistedCall rewriting.input naming part.site call.loc
            (Image.option rewriting.input naming part.site call.receiver) helper call.block.loc
            call.block.scope ∨
        .call loc none method args block parens =
          Image.closureCall rewriting.input naming part.site call.block.loc call.block.scope) := by
  have isLink : .expr (.call loc none method args block parens) ∈
      links (walkStmts rewriting.program) := mem_filter.2 ⟨member, rfl⟩
  rcases mem_append.1 ((sound.links_perm valid).mem_iff.1 (mem_append_left _ isLink))
    with helper | there
  · obtain ⟨used, -, differs⟩ := mem_map.1 helper
    cases differs
  obtain ⟨part, isPart, contributes⟩ := mem_flatMap.1 there
  have spelled := sound.not_issued valid isPart
  refine ⟨part, isPart, ?_⟩
  obtain ⟨site, node⟩ := part
  unfold Part.links at contributes
  dsimp only at spelled contributes
  split at contributes
  · next callLoc receiver other callArgs tree callParens =>
    refine ⟨⟨callLoc, receiver, other, callArgs, tree⟩, ?_⟩
    cases planned : rewriting.input.plan.helper? tree.scope with
    | none =>
      rw [planned, mem_cons] at contributes
      rcases contributes with same | contributes
      · rw [Image.expr, planned] at same
        obtain ⟨-, -, rfl, -⟩ := Expr.call.inj (Node.expr.inj same)
        exact absurd issued (spelled method (by rw [Node.relabel, Expr.relabel_call]; rfl))
      · exact absurd contributes not_mem_nil
    | some helper =>
      refine ⟨helper, rfl, planned, ?_⟩
      rw [planned, mem_cons] at contributes
      rcases contributes with same | contributes
      · rw [Image.expr, planned] at same
        exact .inl (Node.expr.inj same)
      · exact .inr (Node.expr.inj (mem_singleton.1 contributes))
  · cases mem_singleton.1 contributes
    exact absurd issued (spelled method rfl)
  · cases mem_singleton.1 contributes
  · split at contributes
    · exact absurd contributes not_mem_nil
    · cases mem_singleton.1 contributes
  · exact absurd contributes not_mem_nil

theorem Sound.block_hoisted (member : part ∈ rewriting.parts) {helper : Helper}
    (isCall : part.node.blockCall? = some call)
    (planned : rewriting.plan.helper? call.block.scope = some helper) :
    ∃ hoisted ∈ rewriting.blocks, hoisted.block = call.block ∧ hoisted.helper = helper := by
  have called := walkStmts_blocksCalled rewriting.resolution.program _
    (sound.source valid).wellFormed
  have nodes := sound.parts_map_node valid
  have isMember : call ∈ blockCalls (walkStmts rewriting.resolution.program) := by
    rw [← nodes]
    exact mem_filterMap.2 ⟨_, mem_map_of_mem member, isCall⟩
  obtain ⟨node, there, isBlock⟩ :=
    mem_filterMap.1 (called.mem_iff.1 (mem_map_of_mem isMember))
  rw [← nodes] at there
  obtain ⟨⟨site, other⟩, isPart, rfl⟩ := mem_map.1 there
  cases other with
  | block tree =>
    cases isBlock
    exact ⟨⟨site, helper, call.block⟩, mem_hoistedBlocks.2 ⟨isPart, planned⟩, rfl, rfl⟩
  | _ => cases isBlock

theorem Sound.hoisted_called {hoisted : HoistedBlock} (member : hoisted ∈ rewriting.blocks) :
    ∃ part ∈ rewriting.parts, ∃ call, part.node.blockCall? = some call ∧
      call.block = hoisted.block ∧
      call.verdict rewriting.resolution.table.methods standardHelpers = .ok hoisted.helper := by
  obtain ⟨isPart, planned⟩ := mem_hoistedBlocks.1 member
  have called := walkStmts_blocksCalled rewriting.resolution.program _
    (sound.source valid).wellFormed
  have nodes := sound.parts_map_node valid
  have isBlock : hoisted.block ∈ (walkStmts rewriting.resolution.program).filterMap
      Node.block? := by
    rw [← nodes]
    exact mem_filterMap.2 ⟨_, mem_map_of_mem isPart, rfl⟩
  obtain ⟨call, isMember, same⟩ := mem_map.1 (called.mem_iff.2 isBlock)
  obtain ⟨node, there, isCall⟩ := mem_filterMap.1 isMember
  rw [← nodes] at there
  obtain ⟨part, calledPart, rfl⟩ := mem_map.1 there
  refine ⟨part, calledPart, call, isCall, same, sound.verdict valid calledPart isCall ?_⟩
  rw [same]
  exact planned

theorem Sound.blockCalls_eq : blockCalls (walkStmts program) =
      (blockCalls (walkStmts rewriting.resolution.program)).map (BlockCall.relabel erasing) := by
  rw [← blockCalls_relabel, ← walkStmts_relabel, (sound.source valid).erased]

theorem Sound.mem_blockCalls (member : part ∈ rewriting.parts)
    (isCall : part.node.blockCall? = some call) :
    call.relabel erasing ∈ blockCalls (walkStmts program) :=
  mem_filterMap.2 ⟨_, sound.mem_walk valid member, by
    rw [Node.blockCall?_relabel, isCall, Option.map_some]⟩

end Rewriting

end Sound

end Hoist
