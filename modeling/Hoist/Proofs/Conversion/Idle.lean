import Hoist.Proofs.Conversion.Image
import Hoist.Proofs.Scope.Resolved

/-!
Conversion with nothing to do.  If no block is hoisted then no variable needs a cell and no jump
leaves a hoisted block, and the converted tree is the plain one.
-/

namespace Hoist

/-- No block is hoisted and no variable is held in a cell. -/
structure ConversionInput.Idle (input : ConversionInput) : Prop where
  plan : ∀ scope, input.plan.helper? scope = none
  cells : ∀ scope name, input.analysis.isCell scope name = false

/-- A place that is in no hoisted block. -/
structure Site.Outside (site : Site) : Prop where
  frame : site.frame = none
  construct : site.construct ≠ .hoisted

theorem Site.outside_top : top.Outside := ⟨rfl, by decide⟩

section Idle

variable {input : ConversionInput}

theorem Conversion.cellPrelude_idle (idle : input.Idle) (scope : ScopeId) :
    cellPrelude input scope = [] := by
  unfold cellPrelude
  refine List.filterMap_eq_nil_iff.2 fun binding _ => ?_
  rw [idle.cells, if_neg Bool.false_ne_true]

theorem Conversion.name_idle (idle : input.Idle) {site : Site} (outside : site.Outside) (loc : Loc)
    (occurrence : Occurrence) : name input site loc occurrence = .name loc occurrence.name := by
  unfold name isCellAt
  rw [outside.frame]
  split
  · simp [idle.cells]
  · rfl

theorem Image.jump_outside (naming : Naming) {site : Site} (outside : site.Outside) (loc : Loc)
    (kind : JumpKind)
    (value : Option PlainExpr) : jump naming site loc kind value = .jump loc kind value :=
  if_pos outside.construct

theorem Site.Outside.step (idle : input.Idle) {site : Site} (outside : site.Outside)
    (step : Step ScopeId) : (step.site input site).Outside := by
  obtain ⟨noFrame, notHoisted⟩ := outside
  rcases step with _ | _ | _ | ⟨kind, scope⟩ | ⟨kind, scope⟩ <;> try cases kind
  all_goals
    constructor <;>
    simp [Step.site, ConversionInput.scopeSite, ConversionInput.blockSite, idle.plan, Site.inside,
      Site.defaultsIn, noFrame, notHoisted]

variable (naming : Naming) {wording : Wording Occurrence}

attribute [local simp] Node.image.eq_1 Node.image.eq_2 Node.image.eq_3 Node.image.eq_4
  Node.relabel.eq_1 Node.relabel.eq_2 Node.relabel.eq_3 Node.relabel.eq_4 Step.site
  ConversionInput.scopeSite Image.exprs_eq_map Image.stmts_eq_map Image.params_eq_map Image.option
  Expr.relabel_call Stmt.relabel_jump Param.relabel relabelExprs_eq_map relabelStmts_eq_map
  relabelParams_eq_map erasing

theorem Node.image_idle (idle : input.Idle) {site : Site} (outside : site.Outside)
    {node : ResolvedNode} (valid : node.WellFormed wording) :
    node.image input naming site = node.relabel erasing := by
  induction node using induct generalizing site with
  | step node ih =>
    have same : ∀ child ∈ node.children,
        child.2.image input naming (child.1.site input site) = child.2.relabel erasing :=
      fun child member => ih child member (outside.step idle _) (valid.children child member)
    have noPrelude := Conversion.cellPrelude_idle idle
    have kept := Image.jump_outside naming outside
    clear ih
    rcases node with tree | ⟨_, _, _ | _⟩ | ⟨_, _, _, _⟩ | tree
    case expr =>
      obtain ⟨_, valid⟩ := valid
      rcases tree
      all_goals simp only [children, exprs, stmts, opened, List.forall_mem_append,
        List.forall_mem_map] at same
      case name loc occurrence =>
        exact congrArg _ (Conversion.name_idle idle outside loc occurrence)
      case call receiver _ _ block _ =>
        cases receiver <;> cases block <;> simp_all [Image.expr, idle.plan]
      case block | param | stmt => exact False.elim valid
      all_goals simp_all [Image.expr, Expr.relabel]
    case stmt =>
      obtain ⟨_, valid⟩ := valid
      rcases tree with _ | _ | ⟨_, _, _, _, _, _ | _, _⟩ | _ | ⟨_, _, _ | _⟩ | _
      all_goals simp only [children, exprs, stmts, opened, List.forall_mem_append,
        List.forall_mem_map] at same
      case bare => exact False.elim valid
      all_goals simp_all [Image.stmt, Stmt.relabel]
    all_goals
      simp only [children, exprs, stmts, opened, List.forall_mem_append,
        List.forall_mem_map] at same
      simp_all [Image.block, Block.relabel, Block.loc, Block.params, Block.body, Param.default]

theorem Image.stmts_idle (idle : input.Idle) {site : Site} (outside : site.Outside)
    (trees : List ResolvedStmt) (chain : Bool) (valid : stmtsWellFormed wording chain trees) :
    stmts input naming site trees = relabelStmts erasing trees := by
  rw [stmts_eq_map, relabelStmts_eq_map]
  exact List.map_congr_left fun tree member =>
    Node.stmt.inj (Node.image_idle naming idle outside (Node.wellFormed_stmts valid tree member))

end Idle

end Hoist
