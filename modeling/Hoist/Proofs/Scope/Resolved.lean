import Hoist.Proofs.Scope.Reading

/-!
Resolved programs.  Resolution adds to each name where it leads and to each method, block and lambda
the number of its scope, and changes nothing else: the resolved tree is as well-formed as the plain
one and erases to it.  All variables that it records have names.
-/

namespace Hoist

open List

open Lexeme Resolve

variable {ν σ ν' σ' : Type} {floats : Float → Prop}

/-- Resolved trees; an occurrence that leads nowhere has no spelling. -/
def Wording.resolved (floats : Float → Prop) : Wording Occurrence where
  spelling occurrence := if occurrence.target.isSome then occurrence.name else ""
  allowsFloat := floats

/-- All variables of a table have names. -/
def ScopeTable.Named (table : ScopeTable) : Prop :=
  ∀ scope ∈ table.scopes, ∀ binding ∈ scope.bindings, isName binding.name = true

namespace ScopeTable

variable {table : ScopeTable}

theorem named_initial (methods : Bindings) : (initial methods).Named := by
  intro scope member binding there
  rw [initial, mem_singleton] at member
  rw [member] at there
  exact absurd there (not_mem_nil)

theorem Named.openScope (named : table.Named) (kind : ScopeKind) (path : List ScopeId) :
    (table.openScope kind path).Named := by
  intro scope member
  rcases mem_append.1 member with member | member
  · exact named scope member
  · rw [mem_singleton.1 member]
    exact nofun

theorem Named.updateScope (named : table.Named) (id : ScopeId) {change : Scope → Scope}
    (keeps : ∀ scope, (∀ binding ∈ scope.bindings, isName binding.name = true) →
      ∀ binding ∈ (change scope).bindings, isName binding.name = true) :
    (table.updateScope id change).Named := by
  intro scope member
  obtain ⟨index, found⟩ := getElem?_of_mem member
  rw [ScopeTable.updateScope, getElem?_modify] at found
  obtain ⟨original, there, rfl⟩ := Option.map_eq_some_iff.1 found
  have known := named original (mem_of_getElem? there)
  split
  · exact keeps original known
  · exact known

theorem Named.addBinding (named : table.Named) (id : ScopeId) {binding : Binding}
    (valid : isName binding.name = true) : (table.addBinding id binding).Named := by
  refine named.updateScope id fun scope known other member => ?_
  rcases mem_append.1 member with member | member
  · exact known other member
  · rw [mem_singleton.1 member]
    exact valid

theorem Named.updateBinding (named : table.Named) (id : ScopeId) (name : String)
    {change : Binding → Binding} (keeps : ∀ binding, (change binding).name = binding.name) :
    (table.updateBinding id name change).Named := by
  refine named.updateScope id fun scope known other member => ?_
  obtain ⟨original, there, rfl⟩ := mem_map.1 member
  split
  · rw [keeps]
    exact known original there
  · exact known original there

end ScopeTable

/-- An event of a well-formed plain tree: what it introduces has a name. -/
def Event.Proper : Event String Unit → Prop
  | .name _ _ _ word | .declare _ word _ => isName word = true
  | .fault _ => False
  | _ => True

/-- An event of a resolved tree: what it mentions leads somewhere. -/
def Event.Leads : Event Occurrence ScopeId → Prop
  | .name _ _ _ occurrence => occurrence.target.isSome = true
  | .fault _ => False
  | _ => True

theorem Node.events_proper {node : PlainNode} (valid : node.WellFormed (.plain floats))
    (written : Bool) (target : written = true → node.isTarget = true) :
    ∀ event ∈ node.events () written, event.Proper := by
  induction node using Node.induct generalizing written with
  | step node ih =>
    rw [events_eq () (valid.stands target), forall_mem_append, forall_mem_append,
      forall_mem_flatMap]
    refine ⟨⟨?_, fun child member => ?_⟩, ?_⟩
    · unfold opening
      split
      case h_1 =>
        obtain ⟨_, valid⟩ := valid
        exact forall_mem_singleton.2 valid
      all_goals simp [Event.Proper]
    · exact ih child member (valid.children child member) _ (valid.isTarget_child member)
    · unfold closing
      split
      case h_4 =>
        exact forall_mem_singleton.2 (isName_of_paramsWellFormed valid _ mem_cons_self)
      all_goals simp [Event.Proper]

/-- Reading events of a well-formed tree keeps variables named and leads names somewhere. -/
theorem Event.Takes.named {path : List ScopeId} {table : ScopeTable} {event : Event String Unit}
    {result : Event Occurrence ScopeId} {next : Reading} (proper : event.Proper)
    (named : table.Named) (takes : event.Takes path table result next) :
    result.Leads ∧ next.table.Named := by
  cases takes with
  | found | method | kernel => exact ⟨rfl, named⟩
  | write => exact ⟨rfl, named.updateBinding _ _ fun _ => rfl⟩
  | create => exact ⟨rfl, named.addBinding _ proper⟩
  | global | meet | leave => exact ⟨trivial, named⟩
  | declare => exact ⟨trivial, named.addBinding _ proper⟩
  | enter kind => exact ⟨trivial, named.openScope kind path⟩

section Relabel

variable {change : Relabel ν σ ν' σ'} {wording : Wording ν} {wording' : Wording ν'}

theorem isTarget_relabel (tree : Expr ν σ) : (tree.relabel change).isTarget = tree.isTarget := by
  rcases tree with _ | _ | _ | _ | _ | _ | _ | _ | _ | _ | _ | _ |
    ⟨_, _ | _, _, _, _ | ⟨_, _, _, _⟩, _⟩ | _ | _ | _ | _ | ⟨_, _, _, _⟩ | ⟨_, _, _ | _⟩ | _ <;> rfl

/-- A part of a tree may be what it is with its names and marks changed, and only then. -/
def Node.SameForm (change : Relabel ν σ ν' σ') (wording : Wording ν) (wording' : Wording ν') :
    Node ν σ → Prop
  | .expr tree => ∀ position,
    (tree.relabel change).WellFormed wording' position ↔ tree.WellFormed wording position
  | .param tree => paramsWellFormed wording' [tree.relabel change] ↔ paramsWellFormed wording [tree]
  | .block tree =>
    (paramsWellFormed wording' (tree.params.map (Param.relabel change)) ↔
      paramsWellFormed wording tree.params) ∧
    (stmtsWellFormed wording' false (tree.body.map (Stmt.relabel change)) ↔
      stmtsWellFormed wording false tree.body)
  | .stmt tree => ∀ chain,
    (tree.relabel change).WellFormed wording' chain ↔ tree.WellFormed wording chain

theorem sameForm_params {params : List (Param ν σ)}
    (same : ∀ param ∈ params, (Node.param param).SameForm change wording wording') :
    paramsWellFormed wording' (params.map (Param.relabel change)) ↔
      paramsWellFormed wording params := by
  induction params with
  | nil => rfl
  | cons first rest ih =>
    obtain ⟨here, others⟩ := forall_mem_cons.1 same
    rcases first with ⟨_, _, _ | _⟩ <;>
      simp_all [Node.SameForm, paramsWellFormed, Param.relabel, Param.name, Param.default]

theorem sameForm_stmts {trees : List (Stmt ν σ)}
    (same : ∀ tree ∈ trees, (Node.stmt tree).SameForm change wording wording') (chain : Bool) :
    stmtsWellFormed wording' chain (trees.map (Stmt.relabel change)) ↔
      stmtsWellFormed wording chain trees := by
  induction trees generalizing chain with
  | nil => rfl
  | cons first rest ih =>
    obtain ⟨here, others⟩ := forall_mem_cons.1 same
    simp only [map_cons, stmtsWellFormed, isEmpty_map, here _, ih others]

theorem sameForm_opened {kind : ScopeKind} {scope : σ} {params : List (Param ν σ)}
    {body : List (Stmt ν σ)}
    (same : ∀ child ∈ Node.opened kind scope params body, child.2.SameForm change
      wording wording') :
    (paramsWellFormed wording' (params.map (Param.relabel change)) ↔
      paramsWellFormed wording params) ∧
    (stmtsWellFormed wording' false (body.map (Stmt.relabel change)) ↔
      stmtsWellFormed wording false body) := by
  obtain ⟨sameParams, sameBody⟩ := forall_mem_append.1 same
  rw [forall_mem_map] at sameParams
  rw [Node.stmts, forall_mem_map] at sameBody
  exact ⟨sameForm_params sameParams, sameForm_stmts sameBody false⟩

attribute [local simp] Node.SameForm.eq_1 Node.SameForm.eq_2 Node.SameForm.eq_3 Node.SameForm.eq_4
  Node.children Node.exprs Node.stmts Node.opened Expr.relabel Expr.relabel_call Stmt.relabel.eq_1
  Stmt.relabel.eq_2 Stmt.relabel.eq_3 Stmt.relabel.eq_4 Stmt.relabel_jump Block.relabel
  relabelExprs_eq_map relabelParams_eq_map relabelStmts_eq_map Expr.WellFormed Expr.wellFormed_call
  exprsWellFormed_iff paramsWellFormed Stmt.WellFormed isTarget_relabel or_imp forall_and
    Block.params Block.body
  Block.loc Block.scope Param.relabel Param.name Param.default

theorem Node.sameForm (floats : wording'.allowsFloat = wording.allowsFloat)
    {node : Node ν σ} (words : ∀ path loc occurrence, node.Reaches path
      (.expr (.name loc occurrence)) →
      wording'.spelling (change.occurrence occurrence) = wording.spelling occurrence) :
    node.SameForm change wording wording' := by
  induction node using Node.induct with
  | step node ih =>
    have parts child member := ih child member fun path loc occurrence reaches =>
      words _ loc occurrence (.step member reaches)
    clear ih
    have body (step : Step σ) (trees : List (Stmt ν σ))
        (inside : ∀ tree ∈ trees, (step, Node.stmt tree) ∈ node.children) :=
      sameForm_stmts fun tree member => parts _ (inside tree member)
    rcases node with tree | ⟨_, _, _ | _⟩ | ⟨_, scope, params, body⟩ | tree
    · intro position
      cases tree with
      | name loc occurrence =>
        have same := words [] loc occurrence (.here _)
        simp_all
      | literal _ value => cases value <;> simp_all [Literal.WellFormed]
      | call _ receiver _ args block _ =>
        cases receiver <;> rcases block with _ | ⟨_, _, _, _⟩ <;> simp_all
      | lambda => simp [sameForm_opened parts]
      | block tree => cases tree; simp
      | param tree => rcases tree with ⟨_, _, _ | _⟩ <;> simp
      | _ => simp_all
    · simp
    · simp_all
    · exact sameForm_opened parts
    · intro chain
      cases tree with
      | define => simp [sameForm_opened parts]
      | conditional _ condition thenBody elseBody _ modifier _ =>
        have sameCondition := parts (.part, .expr condition) (by cases modifier <;> simp)
        simp [sameCondition _, body .part thenBody (by cases modifier <;> simp +contextual),
          body .part elseBody (by cases modifier <;> simp +contextual)]
      | whileLoop _ condition trees =>
        have sameCondition := parts (.part, .expr condition) (by simp)
        simp [sameCondition _, body .loop trees (by simp +contextual)]
      | jump _ _ value => cases value <;> simp_all
      | expression => simp_all
      | bare => exact Iff.rfl

end Relabel

structure StmtsResolveTo (floats : Float → Prop) (chain : Bool) (trees : List PlainStmt)
    (resolved : List ResolvedStmt) : Prop where
  wellFormed : stmtsWellFormed (.resolved floats) chain resolved
  erased : relabelStmts erasing resolved = trees

theorem resolve_resolvesTo {program : PlainProgram}
    {resolution : Resolution} (valid : stmtsWellFormed (.plain floats) false program)
    (resolved : resolve program = .ok resolution) :
    StmtsResolveTo floats false program resolution.program ∧ resolution.table.Named := by
  obtain ⟨read, erased⟩ := resolve_ok resolved
  have proper : ∀ event ∈ stmtsEvents () program, event.Proper := by
    rw [Node.stmtsEvents_eq, forall_mem_flatMap]
    intro tree member
    exact Node.events_proper (Node.wellFormed_stmts valid tree member) false
      fun isTarget => absurd isTarget Bool.false_ne_true
  obtain ⟨leads, named⟩ :=
    @readAll_keeps Event.Proper (·.table.Named) Event.Leads Event.Takes.named _ proper _ _
    (ScopeTable.named_initial _) read
  refine ⟨⟨?_, erased⟩, named⟩
  rw [← erased, relabelStmts_eq_map] at valid
  refine (sameForm_stmts (fun tree member => ?_) false).1 valid
  have floatsKept : (Wording.plain floats).allowsFloat = (Wording.resolved floats).allowsFloat :=
    rfl
  refine Node.sameForm floatsKept fun path loc occurrence reaches => ?_
  rw [Node.stmtsEvents_eq, forall_mem_flatMap] at leads
  have faultless : (Node.stmt tree).Faultless 0 false := fun _ => leads tree member _
  exact (if_pos (leads tree member _ (faultless.name_mem reaches))).symm

end Hoist
