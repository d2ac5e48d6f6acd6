import Hoist.Plan
import Hoist.Proofs.Scope.Captured
import Hoist.Proofs.Scope.Numbered

/-!
What a plan says of a call.  Every block belongs to one call.  A plan enters each call with a block
once, as hoisted or with a warning, in reading order; as no two blocks have the same scope, the
helper that it gives for a scope is that of the call whose block opens the scope.
-/

namespace Hoist

open List

variable {ν σ : Type}

/-- A call with a block. -/
structure BlockCall (ν σ : Type) where
  loc : Loc
  receiver : Option (Expr ν σ)
  method : String
  args : List (Expr ν σ)
  block : Block ν σ

namespace Node

def blockCall? : Node ν σ → Option (BlockCall ν σ)
  | .expr (.call loc receiver method args (some tree) _) => some ⟨loc, receiver, method, args, tree⟩
  | _ => none

def block? : Node ν σ → Option (Block ν σ)
  | .block tree => some tree
  | _ => none

end Node

/-- The calls with a block in some parts of a tree. -/
def blockCalls (nodes : List (Node ν σ)) : List (BlockCall ν σ) := nodes.filterMap Node.blockCall?

@[simp] theorem blockCalls_append (left right : List (Node ν σ)) :
    blockCalls (left ++ right) = blockCalls left ++ blockCalls right := filterMap_append

@[simp] theorem blockCalls_cons (first : Node ν σ) (rest : List (Node ν σ)) :
    blockCalls (first :: rest) = first.blockCall?.toList ++ blockCalls rest := by
  rw [blockCalls, filterMap_cons]
  cases first.blockCall? <;> rfl

/-- Each block belongs to one call of the parts. -/
def BlocksCalled (nodes : List (Node ν σ)) : Prop :=
  ((blockCalls nodes).map BlockCall.block).Perm (nodes.filterMap Node.block?)

section Walk

variable {wording : Wording ν}

theorem Node.called_blocks {node : Node ν σ} (valid : node.WellFormed wording) :
    node.blockCall?.toList.map BlockCall.block =
      node.children.flatMap fun child => child.2.block?.toList := by
  rcases node with tree | ⟨_, _, _⟩ | ⟨_, _, _, _⟩ | tree
  · obtain ⟨_, valid⟩ := valid
    cases tree with
    | call _ _ _ _ block _ =>
      cases block <;>
        simp [blockCall?, children, exprs, block?, flatMap_eq_nil_iff.2]
    | block | param | stmt => exact False.elim valid
    | _ => simp [blockCall?, children, exprs, opened, stmts, block?]
  · simp [blockCall?, children, exprs, block?]
  · simp [blockCall?, children, opened, stmts, block?]
  · cases tree with
    | conditional _ _ _ _ _ modifier _ =>
      cases modifier <;> simp [blockCall?, children, exprs, stmts, block?]
    | _ => simp [blockCall?, children, exprs, opened, stmts, block?]

/-- Each block in a tree is that of a call, but for the tree itself. -/
theorem Node.walk_blocksCalled {node : Node ν σ} (valid : node.WellFormed wording) :
    ((blockCalls node.walk).map BlockCall.block ++ node.block?.toList).Perm
      (node.walk.filterMap Node.block?) := by
  induction node using induct with
  | step node ih =>
    have inside := (flatMap_append_perm node.children
      (fun child => (blockCalls child.2.walk).map BlockCall.block) _).trans
      (List.Perm.flatMap_left _ fun child member => ih child member (valid.children child member))
    have split : (node :: node.children.flatMap (·.2.walk)).filterMap Node.block? =
        node.block?.toList ++ node.children.flatMap fun child => child.2.walk.filterMap block? := by
      rw [filterMap_cons, filterMap_flatMap]
      cases node.block? <;> rfl
    rw [walk_eq, valid.here, singleton_append, blockCalls_cons, split, map_append,
      called_blocks valid, blockCalls, filterMap_flatMap, map_flatMap]
    exact (perm_append_comm.append_right _).trans
      ((inside.append_right _).trans perm_append_comm)

theorem walkStmts_blocksCalled (trees : List (Stmt ν σ)) (chain : Bool)
    (valid : stmtsWellFormed wording chain trees) : BlocksCalled (walkStmts trees) := by
  rw [BlocksCalled, Node.walkStmts_eq, blockCalls, filterMap_flatMap, map_flatMap,
    filterMap_flatMap]
  refine List.Perm.flatMap_left _ fun tree member => ?_
  have called := Node.walk_blocksCalled (Node.wellFormed_stmts valid tree member)
  exact append_nil ((blockCalls tree.walk).map BlockCall.block) ▸ called

end Walk

theorem blocks_sublist_marks (nodes : List (Node ν σ)) :
    ((nodes.filterMap Node.block?).map Block.scope).Sublist (marks nodes) := by
  induction nodes with
  | nil => exact .slnil
  | cons first rest ih =>
    rw [marks_cons]
    cases first with
    | block tree => exact ih.cons_cons _
    | expr | param | stmt => exact ih.trans (sublist_append_right _ _)

theorem Resolution.blocks_eq (resolution : Resolution) :
    resolution.blocks = (walkStmts resolution.program).filterMap Node.block? := by
  unfold Resolution.blocks
  congr 1
  funext node
  cases node <;> rfl

theorem resolve_scopes_nodup {program : PlainProgram} {resolution : Resolution}
    (resolved : resolve program = .ok resolution) : (resolution.blocks.map Block.scope).Nodup := by
  rw [resolution.blocks_eq]
  exact (blocks_sublist_marks _).nodup (resolve_marks_nodup resolved)

theorem blockCalls_scopes_nodup {wording : Wording ν} {program : Program ν σ}
    (valid : stmtsWellFormed wording false program) (scopes : (marks (walkStmts program)).Nodup) :
    ((blockCalls (walkStmts program)).map fun call => call.block.scope).Nodup := by
  have called := (walkStmts_blocksCalled program _ valid).map Block.scope
  rw [map_map] at called
  exact called.nodup_iff.2 ((blocks_sublist_marks _).nodup scopes)

/-- The helper for a call, or why there is none. -/
def BlockCall.verdict (call : BlockCall Occurrence ScopeId) (methods : Bindings)
    (table : HelperTable) : Except LeftReason Helper :=
  Plan.classify methods table call.receiver.isSome call.method call.args call.block

namespace Plan

def hoistedEntry (methods : Bindings) (table : HelperTable) (call : BlockCall Occurrence ScopeId) :
    Option (ScopeId × Helper) :=
  (call.verdict methods table).toOption.map (call.block.scope, ·)

/-- The warning for a call that is left. -/
def warning? (methods : Bindings) (table : HelperTable) (call : BlockCall Occurrence ScopeId) :
    Option Warning :=
  match call.verdict methods table with
  | .ok _ => none
  | .error reason => some ⟨call.method, call.loc, reason⟩

theorem step_eq (methods : Bindings) (table : HelperTable) (plan : Plan)
    (node : ResolvedNode) :
    step methods table plan node =
      { hoisted := plan.hoisted ++ (blockCalls [node]).filterMap (hoistedEntry methods table)
        warnings := plan.warnings ++ (blockCalls [node]).filterMap (warning? methods table) } := by
  unfold step
  split
  · next loc receiver method args block parens =>
    have called : blockCalls [Node.expr (.call loc receiver method args (some block) parens)] =
        [⟨loc, receiver, method, args, block⟩] := rfl
    rw [called]
    split <;> next verdict =>
      simp [hoistedEntry, warning?, BlockCall.verdict, verdict, Except.toOption]
  · next other =>
    have none : node.blockCall? = none := by
      unfold Node.blockCall?
      split
      · next shape => exact absurd rfl (other _ _ _ _ _ _)
      · rfl
    simp [none, blockCalls]

theorem foldl_step (methods : Bindings) (table : HelperTable)
    (nodes : List ResolvedNode) (plan : Plan) :
    nodes.foldl (step methods table) plan =
      { hoisted := plan.hoisted ++ (blockCalls nodes).filterMap (hoistedEntry methods table)
        warnings := plan.warnings ++ (blockCalls nodes).filterMap (warning? methods table) } := by
  induction nodes generalizing plan with
  | nil => simp [blockCalls]
  | cons first rest ih =>
    have parted : blockCalls (first :: rest) = blockCalls [first] ++ blockCalls rest :=
      blockCalls_append [first] rest
    rw [foldl_cons, ih, step_eq, parted]
    simp only [filterMap_append, append_assoc]

end Plan

section Planned

variable (resolution : Resolution) (table : HelperTable)

theorem planCalls_hoisted : (planCalls resolution table).hoisted =
    (blockCalls (walkStmts resolution.program)).filterMap
      (Plan.hoistedEntry resolution.table.methods table) := by
  rw [planCalls, Plan.foldl_step]
  rfl

theorem planCalls_warnings : (planCalls resolution table).warnings =
    (blockCalls (walkStmts resolution.program)).filterMap
      (Plan.warning? resolution.table.methods table) := by
  rw [planCalls, Plan.foldl_step]
  rfl

end Planned

theorem lookup_filterMap {α β κ : Type} [BEq κ] [LawfulBEq κ] {key : α → κ} {value : α → Option β}
    {sources : List α} (distinct : (sources.map key).Nodup) {source : α}
    (member : source ∈ sources) :
    (sources.filterMap fun source => (value source).map (key source, ·)).lookup (key source) =
      value source := by
  induction sources with
  | nil => exact absurd member not_mem_nil
  | cons first rest ih =>
    rw [map_cons, nodup_cons] at distinct
    rcases mem_cons.1 member with rfl | member
    · cases made : value source with
      | none =>
        rw [filterMap_cons_none (by rw [made]; rfl)]
        refine lookup_eq_none_iff.2 fun entry there => ?_
        obtain ⟨other, inRest, isEntry⟩ := mem_filterMap.1 there
        obtain ⟨found, -, rfl⟩ := Option.map_eq_some_iff.1 isEntry
        rw [bne_iff_ne]
        exact fun same => distinct.1 (same ▸ mem_map_of_mem inRest)
      | some found =>
        rw [filterMap_cons_some (by rw [made]; rfl)]
        simp
    · have other : (key source == key first) = false := by
        rw [beq_eq_false_iff_ne]
        exact fun same => distinct.1 (same ▸ mem_map_of_mem member)
      cases made : value first with
      | none =>
        rw [filterMap_cons_none (by rw [made]; rfl)]
        exact ih distinct.2 member
      | some found =>
        rw [filterMap_cons_some (by rw [made]; rfl), lookup_cons, other]
        exact ih distinct.2 member

theorem planCalls_helper? {wording : Wording Occurrence} {resolution : Resolution}
    (table : HelperTable) (valid : stmtsWellFormed wording false resolution.program)
    (scopes : (marks (walkStmts resolution.program)).Nodup) {call : BlockCall Occurrence ScopeId}
    (member : call ∈ blockCalls (walkStmts resolution.program)) :
    (planCalls resolution table).helper? call.block.scope =
      (call.verdict resolution.table.methods table).toOption := by
  rw [Plan.helper?, planCalls_hoisted]
  exact lookup_filterMap (blockCalls_scopes_nodup valid scopes) member

theorem lookup_of_classify {methods : Bindings} {table : HelperTable} {hasReceiver : Bool}
    {method : String} {args : List ResolvedExpr} {block : ResolvedBlock} {helper : Helper}
    (verdict : Plan.classify methods table hasReceiver method args block = .ok helper) :
    table.lookup method = some helper ∧ helper.hasReceiver = hasReceiver ∧ args = [] ∧
      stmtsReturn block.body = false := by
  unfold Plan.classify at verdict
  split at verdict
  · cases verdict
  · split at verdict
    · cases verdict
    · next found =>
      split at verdict
      · cases verdict
      · split at verdict
        · cases verdict
        · split at verdict
          · cases verdict
          · cases verdict
            simp_all

theorem helper?_mem {resolution : Resolution} {table : HelperTable} {scope : ScopeId}
    {helper : Helper} (planned : (planCalls resolution table).helper? scope = some helper) :
    ∃ method, (method, helper) ∈ table := by
  have member := mem_of_lookup planned
  rw [planCalls_hoisted] at member
  obtain ⟨call, -, isEntry⟩ := mem_filterMap.1 member
  obtain ⟨found, verdict, same⟩ := Option.map_eq_some_iff.1 isEntry
  cases same
  cases decided : call.verdict resolution.table.methods table with
  | error reason =>
    rw [decided] at verdict
    cases verdict
  | ok other =>
    rw [decided] at verdict
    cases verdict
    exact ⟨call.method, mem_of_lookup (lookup_of_classify decided).1⟩

end Hoist
