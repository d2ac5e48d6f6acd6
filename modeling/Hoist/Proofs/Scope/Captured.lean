import Hoist.Capture
import Hoist.Proofs.Scope.Resolved

/-!
Captures of resolved programs.  Every occurrence in a well-formed resolved tree leads somewhere, so
capture analysis succeeds, and what a block captures has a name.
-/

namespace Hoist

open List

open Lexeme

variable {floats : Float → Prop}

/-- All occurrences of a list lead somewhere, under names of some form. -/
abbrev AllLead (form : String → Prop) (references : List Reference) : Prop :=
  ∀ reference ∈ references, reference.occurrence.target.isSome = true ∧
    form reference.occurrence.name

theorem resolved_of_wellFormed {loc : Loc} {occurrence : Occurrence} {position : Position}
    (valid : (Expr.name loc occurrence : ResolvedExpr).WellFormed (.resolved floats) position) :
    occurrence.target.isSome = true ∧ isName occurrence.name = true := by
  simp only [Expr.WellFormed, Wording.resolved] at valid
  by_cases known : occurrence.target.isSome = true
  · rw [if_pos known] at valid
    exact ⟨known, valid⟩
  · rw [if_neg known] at valid
    exact absurd valid (by decide)

variable {block : ResolvedBlock}

section References

/-- Whether a step leads to what is assigned to, and whether it or one before enters a closure. -/
def Step.reference (label : Bool × Bool) : Step ScopeId → Bool × Bool
  | .target => (true, label.2)
  | .part | .loop => (false, label.2)
  | .defaults kind _ | .body kind _ => (false, label.2 || kind.isClosure)

namespace Node

variable {node last : ResolvedNode} {path : List (Step ScopeId)}

/-- The occurrences in a part of a tree, given whether it is assigned to and inside a closure. -/
def references : Bool × Bool → Node Occurrence ScopeId → List Reference
  | (false, nested), .expr tree => tree.references nested
  | (true, nested), .expr tree => tree.targetReferences nested
  | (_, nested), .param tree => paramsReferences nested [tree]
  | _, .block tree => paramsReferences true tree.params ++ stmtsReferences true tree.body
  | (_, nested), .stmt tree => tree.references nested

/-- The occurrence at a part of a tree. -/
def reference (label : Bool × Bool) : Node Occurrence ScopeId → List Reference
  | .expr (.name loc occurrence) => [⟨loc, occurrence, label.1, label.2⟩]
  | _ => []

theorem exprsReferences_eq (nested : Bool) (trees : List ResolvedExpr) :
    exprsReferences nested trees = trees.flatMap (Expr.references nested) :=
  eq_flatMap rfl (fun _ _ => rfl) trees

theorem targetsReferences_eq (nested : Bool) (trees : List ResolvedExpr) :
    targetsReferences nested trees = trees.flatMap (Expr.targetReferences nested) :=
  eq_flatMap rfl (fun _ _ => rfl) trees

theorem stmtsReferences_eq (nested : Bool) (trees : List ResolvedStmt) :
    stmtsReferences nested trees = trees.flatMap (Stmt.references nested) :=
  eq_flatMap rfl (fun _ _ => rfl) trees

theorem paramsReferences_eq (nested : Bool) (trees : List ResolvedParam) :
    paramsReferences nested trees = trees.flatMap fun tree => paramsReferences nested [tree] := by
  induction trees with
  | nil => rfl
  | cons first rest ih =>
    rw [flatMap_cons, ← ih]
    rcases first with ⟨_, _, _ | _⟩ <;> simp [paramsReferences]

section

attribute [local simp] here children exprs stmts opened references reference Expr.references
  Expr.targetReferences Stmt.references exprsReferences_eq targetsReferences_eq stmtsReferences_eq
  Step.reference ScopeKind.isClosure flatMap_map Block.params Block.body

theorem references_eq (label : Bool × Bool) (target : label.1 = true → node.isTarget = true) :
    node.references label = node.here.flatMap (reference label) ++
      node.children.flatMap fun child => child.2.references (child.1.reference label) := by
  obtain ⟨_ | _, nested⟩ := label
  case true =>
    rcases node with tree | _ | _ | _
    case expr =>
      cases tree with
      | name | global | index => simp
      | _ => cases target rfl
    all_goals cases target rfl
  cases node with
  | expr tree =>
    cases tree with
    | call _ receiver _ _ block _ =>
      rcases receiver with _ | receiver <;> rcases block with _ | ⟨_, _, _, _⟩ <;> simp
    | lambda _ _ params _ => simp [paramsReferences_eq _ params]
    | block tree => cases tree; simp
    | param tree => rcases tree with ⟨_, _, _ | _⟩ <;> simp [paramsReferences]
    | _ => simp
  | param tree => rcases tree with ⟨_, _, _ | _⟩ <;> simp [paramsReferences]
  | block tree =>
    obtain ⟨_, _, params, _⟩ := tree
    simp [paramsReferences_eq _ params]
  | stmt tree =>
    cases tree with
    | define _ _ _ params _ => simp [paramsReferences_eq _ params]
    | conditional _ _ _ _ _ modifier _ => cases modifier <;> simp
    | jump _ _ value => cases value <;> simp
    | _ => simp

/-- A block's occurrences are those of its parameters and its body. -/
theorem block_references (block : ResolvedBlock) :
    block.references = (Node.block block).children.flatMap (·.2.references (false, false)) := by
  obtain ⟨_, _, params, _⟩ := block
  simp [Block.references, paramsReferences_eq _ params]

end

theorem gathers_references : Gathers (fun label step => Step.reference label step) reference
    (fun label node => node.Assigns ∧ (label.1 = true → node.isTarget = true)) references := by
  rintro label node ⟨assigns, target⟩
  refine ⟨fun child member => ⟨fun path last reaches => ?_, fun isTarget => ?_⟩,
    references_eq label target⟩
  · exact assigns _ last (.step member reaches)
  · obtain ⟨_ | _ | _ | _ | _, tree⟩ := child
    case target => exact assigns [] node (.here node) tree member
    all_goals cases isTarget

theorem mem_references (assigns : (Node.block block).Assigns) {reference : Reference} :
    reference ∈ block.references ↔ ∃ child ∈ (Node.block block).children, ∃ path loc occurrence,
      child.2.Reaches path (.expr (.name loc occurrence)) ∧ reference =
        ⟨loc, occurrence, (path.foldl Step.reference (false, false)).1,
          (path.foldl Step.reference (false, false)).2⟩ := by
  rw [block_references, mem_flatMap]
  refine exists_congr fun child => and_congr_right fun member => ?_
  have valid : child.2.Assigns ∧ ((false, false).1 = true → child.2.isTarget = true) :=
    ⟨fun path last reaches => assigns _ last (.step member reaches), nofun⟩
  rw [gathers_references.mem_iff child.2 valid]
  refine exists_congr fun path => ⟨?_, ?_⟩
  · rintro ⟨last, reaches, -, found⟩
    unfold Node.reference at found
    split at found
    · exact ⟨_, _, reaches, mem_singleton.1 found⟩
    · cases found
  · rintro ⟨loc, occurrence, reaches, rfl⟩
    exact ⟨_, reaches, mem_singleton_self _, mem_singleton_self _⟩

end Node

theorem references_resolved (valid : (Node.block block).WellFormed (.resolved floats)) :
    AllLead (isName · = true) block.references := by
  intro reference member
  obtain ⟨child, isChild, path, loc, occurrence, reaches, rfl⟩ :=
    (Node.mem_references valid.assigns).1 member
  obtain ⟨position, nameValid⟩ := (valid.children child isChild).reached reaches
  exact resolved_of_wellFormed nameValid

end References

theorem walkStmts_wellFormed {ν σ : Type} {wording : Wording ν} (trees : List (Stmt ν σ))
    (chain : Bool)
    (valid : stmtsWellFormed wording chain trees) :
    ∀ node ∈ walkStmts trees, node.WellFormed wording := by
  intro node member
  rw [Node.walkStmts_eq, mem_flatMap] at member
  obtain ⟨tree, isTree, member⟩ := member
  obtain ⟨-, path, reaches⟩ := Node.mem_walk.1 (show node ∈ (Node.stmt tree).walk from member)
  exact (Node.wellFormed_stmts valid tree isTree).reached reaches

section Analysis

variable {form : String → Prop}

theorem captureStep_ok (table : ScopeTable) (block : ScopeId) {captures : CaptureSet}
    {reference : Reference} (formed : ∀ capture ∈ captures, form capture.name)
    (leads : reference.occurrence.target.isSome = true) (valid : form reference.occurrence.name) :
    ∃ next, captureStep table block captures reference = .ok next ∧
      ∀ capture ∈ next, form capture.name := by
  unfold captureStep
  split
  · next nowhere =>
    rw [nowhere] at leads
    contradiction
  · exact ⟨captures, rfl, formed⟩
  · split
    · exact ⟨captures, rfl, formed⟩
    · refine ⟨_, rfl, ?_⟩
      unfold CaptureSet.note
      split
      · refine forall_mem_map.2 fun capture member => ?_
        split <;> exact formed capture member
      · exact forall_mem_append.2 ⟨formed, forall_mem_singleton.2 valid⟩

theorem foldlM_captureStep (table : ScopeTable) (block : ScopeId) {references : List Reference}
    (lead : AllLead form references) {captures : CaptureSet}
    (formed : ∀ capture ∈ captures, form capture.name) :
    ∃ next, references.foldlM (captureStep table block) captures = .ok next ∧
      ∀ capture ∈ next, form capture.name := by
  induction references generalizing captures with
  | nil => exact ⟨_, rfl, formed⟩
  | cons first rest ih =>
    obtain ⟨⟨leads, valid⟩, restLead⟩ := forall_mem_cons.1 lead
    obtain ⟨next, stepped, formed⟩ := captureStep_ok table block formed leads valid
    rw [foldlM_cons, stepped, ok_bind]
    exact ih restLead formed

theorem mapM_captures (table : ScopeTable) {blocks : List ResolvedBlock}
    (lead : ∀ block ∈ blocks, AllLead form block.references) :
    ∃ sets, blocks.mapM (fun block => do return (block.scope, ← captures table block)) = .ok sets ∧
      ∀ entry ∈ sets, ∀ capture ∈ entry.2, form capture.name := by
  induction blocks with
  | nil => exact ⟨[], rfl, nofun⟩
  | cons first rest ih =>
    obtain ⟨firstLead, restLead⟩ := forall_mem_cons.1 lead
    obtain ⟨found, captured, formed⟩ :=
      foldlM_captureStep table first.scope firstLead (forall_mem_nil _)
    obtain ⟨sets, ran, restFormed⟩ := ih restLead
    refine ⟨(first.scope, found) :: sets, ?_, forall_mem_cons.2 ⟨formed, restFormed⟩⟩
    rw [mapM_cons, captures, captured, ran]
    rfl

variable {resolution : Resolution}

theorem mem_blocks (member : block ∈ resolution.blocks) :
    .block block ∈ walkStmts resolution.program := by
  obtain ⟨node, there, isBlock⟩ := mem_filterMap.1 member
  cases node with
  | block other =>
    cases isBlock
    exact there
  | expr | param | stmt => contradiction

/-- Capture analysis of a resolved program succeeds, and captured names have the form of all names.
-/
theorem analyzeCaptures_formed (hoisted : ScopeId → Bool)
    (lead : ∀ block ∈ resolution.blocks, AllLead form block.references) :
    ∃ analysis, analyzeCaptures resolution hoisted = .ok analysis ∧
      ∀ scope, ∀ capture ∈ analysis.capturesOf scope, form capture.name := by
  obtain ⟨sets, ran, formed⟩ := mapM_captures resolution.table lead
  refine ⟨_, by rw [analyzeCaptures, ran]; rfl, fun scope => ?_⟩
  unfold CaptureAnalysis.capturesOf
  cases found : sets.lookup scope with
  | none => exact forall_mem_nil _
  | some captures => exact formed _ (mem_of_lookup found)

/-- What a block captures has names. -/
def CaptureSet.Named (captures : CaptureSet) : Prop :=
  ∀ capture ∈ captures, isName capture.name = true

theorem analyzeCaptures_named (hoisted : ScopeId → Bool)
    (valid : stmtsWellFormed (.resolved floats) false resolution.program) :
    ∃ analysis, analyzeCaptures resolution hoisted = .ok analysis ∧
      ∀ scope, (analysis.capturesOf scope).Named :=
  analyzeCaptures_formed hoisted fun _ member =>
    references_resolved (walkStmts_wellFormed _ _ valid _ (mem_blocks member))

end Analysis

end Hoist
