import Hoist.Proofs.Conversion.Links
import Hoist.Proofs.Syntax.Returns

/-!
Calls with a block that are left.  Such a call is refused: its method is one of the program, or
there is no helper for a call of this form.  A block that is hoisted holds no `return`, so
conversion keeps every `return` outside methods and lambdas, and a call that was refused is refused
again.
-/

namespace Hoist

/-- A call is left as it is, in a program that defines some methods. -/
def BlockCall.Refused {ν σ : Type} (defined : String → Bool) (table : HelperTable)
    (call : BlockCall ν σ) : Prop :=
  (call.receiver = none ∧ defined call.method = true) ∨
    ∀ helper, table.lookup call.method = some helper →
      helper.hasReceiver = call.receiver.isSome → call.args = [] →
      stmtsReturn call.block.body = true

theorem BlockCall.verdict_eq_error {call : BlockCall Occurrence ScopeId} {methods : Bindings}
    {table : HelperTable} :
    (∃ reason, call.verdict methods table = .error reason) ↔
      call.Refused (Plan.definesMethod methods) table := by
  unfold BlockCall.verdict Plan.classify BlockCall.Refused
  cases isUser : !call.receiver.isSome && Plan.definesMethod methods call.method with
  | true =>
    have isDefined : call.receiver = none ∧ Plan.definesMethod methods call.method = true := by
      simpa using isUser
    simp [isDefined]
  | false =>
    have notDefined : ¬ (call.receiver = none ∧ Plan.definesMethod methods call.method = true) := by
      simpa using isUser
    cases found : table.lookup call.method with
    | none => simp
    | some helper =>
      simp only [notDefined, false_or, Option.some.injEq, forall_eq', Bool.false_eq_true, if_false]
      by_cases hasReceiver : helper.hasReceiver = call.receiver.isSome
      · by_cases noArgs : call.args = []
        · cases stmtsReturn call.block.body <;> simp [hasReceiver, noArgs]
        · simp [hasReceiver, noArgs]
      · simp [hasReceiver]

/-- A part of a program in which a block is hoisted only if it holds no `return`. -/
def Node.Spared (input : ConversionInput) (node : Node Occurrence ScopeId) : Prop :=
  ∀ call helper, node.blockCall? = some call →
    input.plan.helper? call.block.scope = some helper →
      call.args = [] ∧ helper.hasReceiver = call.receiver.isSome ∧
        (paramsReturn call.block.params || stmtsReturn call.block.body) = false

/-- All parts of some code are such. -/
abbrev AllSpared (input : ConversionInput) (nodes : List (Node Occurrence ScopeId)) : Prop :=
  ∀ node ∈ nodes, node.Spared input

variable {input : ConversionInput} {naming : Naming} {wording : Wording Occurrence}

theorem Image.jump_returns (naming : Naming) {site : Site} {loc : Loc} {kind : JumpKind}
    {value : Option PlainExpr} (returns : (Stmt.jump loc kind value).returns = true) :
    (jump naming site loc kind value).returns = true := by
  unfold jump
  split
  · exact returns
  · cases kind <;> rfl

namespace Node

theorem Reaches.returns {ν σ : Type} {node last : Node ν σ} {path : List (Step σ)}
    (reaches : node.Reaches path last) (passes : ∀ step ∈ path, step.returns = true)
    (returns : last.returns = true) : node.returns = true := by
  induction reaches with
  | here => exact returns
  | step member _ ih =>
    rw [List.forall_mem_cons] at passes
    rw [returns_eq, Bool.or_eq_true]
    exact .inr (List.any_eq_true.2 ⟨_, member, by rw [passes.1, ih passes.2 returns]; rfl⟩)

variable {node : ResolvedNode}

theorem Spared.fits (spared : node.Spared input) (site : Site) : Part.Fits input ⟨site, node⟩ := by
  intro call helper isCall planned
  obtain ⟨noArgs, hasReceiver, -⟩ := spared call helper isCall planned
  exact ⟨noArgs, hasReceiver⟩

theorem WellFormed.called {step : Step ScopeId} {tree : ResolvedBlock}
    (valid : node.WellFormed wording) (member : (step, .block tree) ∈ node.children) :
    ∃ call, node.blockCall? = some call ∧ call.block = tree := by
  rcases node with parent | ⟨_, _, _ | _⟩ | ⟨_, _, _, _⟩ | parent
  case expr =>
    obtain ⟨position, valid⟩ := valid
    rcases parent <;> simp only [Node.children, exprs, opened, stmts] at member
    case call loc receiver method args block _ =>
      obtain rfl : block = some tree := by grind
      exact ⟨⟨loc, receiver, method, args, tree⟩, rfl, rfl⟩
    all_goals grind [Expr.WellFormed]
  case stmt => rcases parent <;> simp only [Node.children, exprs, opened, stmts] at member <;> grind
  all_goals simp only [Node.children, exprs, opened, stmts] at member; grind

theorem Spared.stays {child : ResolvedNode} {step : Step ScopeId}
    (spared : node.Spared input) (valid : node.WellFormed wording)
    (member : (step, child) ∈ node.children) (returns : child.returns = true) (site : Site) :
    Part.hoisted? input ⟨site, child⟩ = none := by
  cases child with
  | expr | param | stmt => rfl
  | block tree =>
    obtain ⟨call, isCall, rfl⟩ := valid.called member
    cases planned : input.plan.helper? call.block.scope with
    | none => rw [Part.hoisted?, planned, Option.map_none]
    | some helper =>
      obtain ⟨-, -, quiet⟩ := spared call helper isCall planned
      cases returns.symm.trans quiet

theorem image_returns {site : Site} (valid : node.WellFormed wording)
    (spared : AllSpared input node.walk) (staying : Part.hoisted? input ⟨site, node⟩ = none)
    (returns : node.returns = true) : (node.image input naming site).returns = true := by
  induction node using induct generalizing site with
  | step node ih =>
    rw [walk_eq, valid.here] at spared
    have own := spared node List.mem_cons_self
    rw [returns_eq, Bool.or_eq_true, List.any_eq_true] at returns
    obtain returns | ⟨⟨step, child⟩, member, passes⟩ := returns
    · unfold isReturn at returns
      split at returns
      · exact Image.jump_returns naming (by cases ‹Option ResolvedExpr› <;> rfl)
      · cases returns
    · rw [Bool.and_eq_true] at passes
      have childStays := own.stays valid member passes.2 (step.site input site)
      obtain ⟨more, parts, reaches⟩ := @image_child _ naming _ _ _ _ _ valid (own.fits site) member
        staying childStays
      refine reaches.returns ?_ (ih _ member (valid.children _ member) ?_ childStays passes.2)
      · rw [List.forall_mem_cons]
        exact ⟨by cases step <;> exact passes.1, fun step isMore => by rw [parts step isMore]; rfl⟩
      · exact fun part isPart =>
          spared part (List.mem_append_right _ (List.mem_flatMap.2 ⟨_, member, isPart⟩))

end Node

theorem Image.stmts_return (site : Site) (trees : List ResolvedStmt) (chain : Bool)
    (valid : stmtsWellFormed wording chain trees) (spared : AllSpared input (walkStmts trees))
    (returns : stmtsReturn trees = true) : stmtsReturn (stmts input naming site trees) = true := by
  rw [stmtsReturn_eq, List.any_eq_true] at returns ⊢
  obtain ⟨tree, member, returns⟩ := returns
  rw [Node.walkStmts_eq] at spared
  refine ⟨stmt input naming site tree, ?_, Node.image_returns
    (Node.wellFormed_stmts valid tree member)
    (fun node isNode => spared node (List.mem_flatMap_of_mem member isNode)) rfl returns⟩
  rw [stmts_eq_map]
  exact List.mem_map_of_mem member

end Hoist
