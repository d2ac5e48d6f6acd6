import Hoist.Proofs.Conversion.Program
import Hoist.Proofs.Scope.Captured

/-!
Converted programs can be written.  The image of a well-formed tree is well-formed in the same
position, whatever the names are, and so are the cells, the closures and the helpers around it.
-/

namespace Hoist

open List

open Lexeme

variable {floats : Float → Prop}

/-- All variables and captures of the program have names. -/
structure ConversionInput.Named (input : ConversionInput) : Prop where
  table : input.table.Named
  captures : ∀ scope, (input.analysis.capturesOf scope).Named

theorem isIntLiteral_zero : IsIntLiteral 0 := ⟨0, rfl, Nat.pow_pos (by decide)⟩

theorem cellContent_wellFormed {name : String} (loc : Loc) (position : Position)
    (named : isName name = true) :
    (HoistedClosure.cellContent loc name).WellFormed (.plain floats) position :=
  ⟨named, cons_ne_nil _ _, isIntLiteral_zero, trivial⟩

theorem argument_wellFormed {capture : Capture} (loc : Loc) (isCell : ScopeId → String → Bool)
    (position : Position) (named : isName capture.name = true) :
    (HoistedClosure.argument loc isCell capture).WellFormed (.plain floats) position := by
  unfold HoistedClosure.argument
  split
  · exact cellContent_wellFormed loc position named
  · exact named

namespace Conversion

variable {input : ConversionInput}

theorem name_wellFormed {site : Site} {loc : Loc} {occurrence : Occurrence} {position : Position}
    (valid : (Expr.name loc occurrence : ResolvedExpr).WellFormed (.resolved floats) position) :
    (name input site loc occurrence).WellFormed (.plain floats) position := by
  have named := (resolved_of_wellFormed valid).2
  unfold name
  split
  · split
    · exact cellContent_wellFormed loc position named
    · exact named
  · exact named

theorem name_isTarget (site : Site) (loc : Loc) (occurrence : Occurrence) :
    (name input site loc occurrence).isTarget = true := by
  unfold name
  split
  · split <;> rfl
  · rfl

theorem cellPrelude_wellFormed (named : input.Named) (scope : ScopeId) :
    stmtsWellFormed (.plain floats) false (cellPrelude input scope) := by
  refine stmtsWellFormed_iff.2 fun statement member => ?_
  obtain ⟨binding, there, made⟩ := mem_filterMap.1 member
  have isNamed : isName binding.name = true := by
    split at there
    · next found known => exact named.table found (mem_of_getElem? known) binding there
    · exact absurd there not_mem_nil
  split at made
  · cases made
    refine ⟨rfl, rfl, isNamed, ?_, trivial⟩
    split
    · exact isNamed
    · trivial
  · cases made

end Conversion

namespace Image

variable {input : ConversionInput} {naming : Naming}

theorem jump_wellFormed (valid : naming.Valid) (site : Site) (loc : Loc) (kind : JumpKind)
    {value : Option PlainExpr} (chain : Bool)
    (wellFormed : ∀ tree, value = some tree → tree.WellFormed (.plain floats) .operand) :
    (jump naming site loc kind value).WellFormed (.plain floats) chain := by
  have plain : ∀ kind, (Stmt.jump loc kind value : PlainStmt).WellFormed (.plain floats)
      chain := by
    intro kind
    cases value with
    | none => trivial
    | some tree => exact wellFormed tree rfl
  unfold jump
  split
  · exact plain kind
  · cases kind with
    | returnJump | nextJump => exact plain .returnJump
    | breakJump =>
      refine ⟨isSymbol_of_isName valid.stop, ?_, trivial⟩
      cases value with
      | none => trivial
      | some tree => exact (wellFormed tree rfl).ofOperand .argument

theorem closureCall_wellFormed (named : input.Named) (valid : naming.Valid) (site : Site)
    (loc : Loc) (scope : ScopeId) (position : Position) :
    (closureCall input naming site loc scope).WellFormed (.plain floats) position := by
  refine Expr.wellFormed_call.2 ⟨fun _ _ _ => rfl, nofun, valid.closure scope, ?_, nofun⟩
  refine exprsWellFormed_iff.2 (forall_mem_map.2 fun capture member => ?_)
  exact argument_wellFormed loc _ _ (named.captures scope capture member)

theorem hoistedCall_wellFormed (named : input.Named) (valid : naming.Valid) (site : Site)
    (loc : Loc) {receiver : Option PlainExpr} (helper : Helper) (blockLoc : Loc) (scope : ScopeId)
    (position : Position)
    (wellFormed : ∀ tree, receiver = some tree → tree.WellFormed (.plain floats) .operand) :
    (hoistedCall input naming site loc receiver helper blockLoc scope).WellFormed
      (.plain floats) position := by
  refine Expr.wellFormed_call.2 ⟨fun _ _ _ => rfl, nofun, valid.helper _, ?_, nofun⟩
  refine exprsWellFormed_iff.2 (forall_mem_append.2 ⟨?_, forall_mem_singleton.2
    (closureCall_wellFormed named valid site blockLoc scope .argument)⟩)
  split
  · intro tree member
    exact (wellFormed tree (by simpa using member)).ofOperand .argument
  · exact nofun

theorem expr_isTarget (site : Site) {tree : ResolvedExpr} (isTarget : tree.isTarget = true) :
    (expr input naming site tree).isTarget = true := by
  cases tree with
  | name loc occurrence => exact Conversion.name_isTarget site loc occurrence
  | global | index => rfl
  | _ => cases isTarget

theorem call_wellFormed (named : input.Named) (valid : naming.Valid) {site : Site} {loc : Loc}
    {receiver : Option ResolvedExpr} {method : String} {args : List ResolvedExpr}
    {tree : Option ResolvedBlock} {parens : Bool} {position : Position}
    (source : (Expr.call loc receiver method args tree parens).WellFormed (.resolved floats)
      position) (receiverValid : ∀ value, option input naming site receiver = some value →
      value.WellFormed (.plain floats) .operand)
    (argsValid : exprsWellFormed (.plain floats) .argument (exprs input naming site args))
    (blockValid : ∀ inner, tree = some inner →
      paramsWellFormed (.plain floats) (block input naming site inner).params ∧
        stmtsWellFormed (.plain floats) false (block input naming site inner).body) :
    (expr input naming site (.call loc receiver method args tree parens)).WellFormed
      (.plain floats) position := by
  obtain ⟨written, -, isMethod, -, -⟩ := Expr.wellFormed_call.1 source
  have written : tree = none → option input naming site receiver = none →
      exprs input naming site args = [] → parens = true := by
    intro noBlock noReceiver noArgs
    refine written ?_ ?_ noBlock
    · cases receiver with
      | none => rfl
      | some value => cases noReceiver
    · rw [exprs_eq_map] at noArgs
      exact map_eq_nil_iff.1 noArgs
  cases tree with
  | none =>
    exact Expr.wellFormed_call.2 ⟨fun noReceiver noArgs _ => written rfl noReceiver noArgs,
      receiverValid, isMethod, argsValid, fun _ none => absurd none.symm (Option.some_ne_none _)⟩
  | some inner =>
    rw [expr]
    split
    · refine Expr.wellFormed_call.2 ⟨fun _ _ none => absurd none (Option.some_ne_none _),
        receiverValid, isMethod, argsValid, ?_⟩
      rintro _ ⟨⟩
      exact blockValid inner rfl
    · exact hoistedCall_wellFormed named valid site loc _ _ _ position receiverValid

mutual

theorem expr_wellFormed (named : input.Named) (valid : naming.Valid)
    {site : Site} {position : Position} : (tree : ResolvedExpr) →
    tree.WellFormed (.resolved floats) position →
    (expr input naming site tree).WellFormed (.plain floats) position
  | .literal .., source => source
  | .symbol .., source => source
  | .name .., source => Conversion.name_wellFormed source
  | .global .., source => source
  | .constant .., source => source
  | .array _ elements, source => exprs_wellFormed named valid elements source
  | .splat _ value, source => ⟨source.1, expr_wellFormed named valid value source.2⟩
  | .range _ start stop _, source =>
    ⟨expr_wellFormed named valid start source.1,
      expr_wellFormed named valid stop source.2⟩
  | .binary _ _ left right, source =>
    ⟨source.1, expr_wellFormed named valid left source.2.1,
      expr_wellFormed named valid right source.2.2⟩
  | .unary _ _ operand, source => ⟨source.1, expr_wellFormed named valid operand source.2⟩
  | .ternary _ condition thenValue elseValue, source =>
    ⟨expr_wellFormed named valid condition source.1,
      expr_wellFormed named valid thenValue source.2.1,
      expr_wellFormed named valid elseValue source.2.2⟩
  | .lambda _ scope parameters body, source =>
    ⟨params_wellFormed named valid parameters source.1, stmtsWellFormed_append.2
      ⟨Conversion.cellPrelude_wellFormed named scope, stmts_wellFormed named valid body source.2⟩⟩
  | .call _ receiver _ args tree _, source => by
    obtain ⟨-, receiverSource, -, argsSource, blockSource⟩ := Expr.wellFormed_call.1 source
    exact call_wellFormed named valid source
      (option_wellFormed named valid receiver receiverSource)
      (exprs_wellFormed named valid args argsSource)
      (block_wellFormed named valid tree blockSource)
  | .index _ value args, source => by
    refine ⟨expr_wellFormed named valid value source.1, ?_,
      exprs_wellFormed named valid args source.2.2⟩
    rw [exprs_eq_map]
    exact fun none => source.2.1 (map_eq_nil_iff.1 none)
  | .assign _ target value, source =>
    ⟨source.1, expr_isTarget site source.2.1, expr_wellFormed named valid target source.2.2.1,
      expr_wellFormed named valid value source.2.2.2⟩
  | .opAssign _ target _ value, source =>
    ⟨source.1, expr_isTarget site source.2.1, source.2.2.1,
      expr_wellFormed named valid target source.2.2.2.1,
      expr_wellFormed named valid value source.2.2.2.2⟩
  | .multiAssign _ targets values, source => by
    obtain ⟨atHead, several, areTargets, targetsSource, nonempty, valuesSource⟩ := source
    refine ⟨atHead, ?_, ?_, exprs_wellFormed named valid targets targetsSource, ?_,
      exprs_wellFormed named valid values valuesSource⟩
    · rwa [exprs_eq_map, length_map]
    · rw [exprs_eq_map]
      exact forall_mem_map.2 fun target member => expr_isTarget site (areTargets target member)
    · rw [exprs_eq_map]
      exact fun none => nonempty (map_eq_nil_iff.1 none)
  | .block _, source | .param _, source | .stmt _, source => False.elim source

theorem option_wellFormed (named : input.Named) (valid : naming.Valid)
    {site : Site} : (tree : Option ResolvedExpr) →
    (∀ value, tree = some value → value.WellFormed (.resolved floats) .operand) →
    ∀ value, option input naming site tree = some value →
      value.WellFormed (.plain floats) .operand
  | none, _ => nofun
  | some tree, source => by
    rintro _ ⟨⟩
    exact expr_wellFormed named valid tree (source tree rfl)

theorem exprs_wellFormed (named : input.Named) (valid : naming.Valid)
    {site : Site} {position : Position} : (trees : List ResolvedExpr) →
    exprsWellFormed (.resolved floats) position trees →
    exprsWellFormed (.plain floats) position (exprs input naming site trees)
  | [], _ => trivial
  | first :: rest, source =>
    ⟨expr_wellFormed named valid first source.1,
      exprs_wellFormed named valid rest source.2⟩

theorem params_wellFormed (named : input.Named) (valid : naming.Valid)
    {site : Site} : (trees : List ResolvedParam) → paramsWellFormed (.resolved floats) trees →
    paramsWellFormed (.plain floats) (params input naming site trees)
  | [], _ => trivial
  | .mk _ _ none :: rest, source => ⟨source.1, params_wellFormed named valid rest source.2⟩
  | .mk _ _ (some value) :: rest, source =>
    ⟨source.1, expr_wellFormed named valid value source.2.1,
      params_wellFormed named valid rest source.2.2⟩

theorem block_wellFormed (named : input.Named) (valid : naming.Valid)
    {site : Site} : (tree : Option ResolvedBlock) →
    (∀ inner, tree = some inner → paramsWellFormed (.resolved floats) inner.params ∧
      stmtsWellFormed (.resolved floats) false inner.body) →
    ∀ inner, tree = some inner →
      paramsWellFormed (.plain floats) (block input naming site inner).params ∧
        stmtsWellFormed (.plain floats) false (block input naming site inner).body
  | none, _ => nofun
  | some (.mk _ scope parameters body), source => by
    rintro _ ⟨⟩
    exact ⟨params_wellFormed named valid parameters (source _ rfl).1, stmtsWellFormed_append.2
      ⟨Conversion.cellPrelude_wellFormed named scope,
        stmts_wellFormed named valid body (source _ rfl).2⟩⟩

theorem stmt_wellFormed (named : input.Named) (valid : naming.Valid)
    {site : Site} {chain : Bool} :
    (tree : ResolvedStmt) → tree.WellFormed (.resolved floats) chain →
    (stmt input naming site tree).WellFormed (.plain floats) chain
  | .define _ scope _ parameters body, source =>
    ⟨source.1, params_wellFormed named valid parameters source.2.1, stmtsWellFormed_append.2
      ⟨Conversion.cellPrelude_wellFormed named scope,
        stmts_wellFormed named valid body source.2.2⟩⟩
  | .expression _ value, source => expr_wellFormed named valid value source
  | .conditional _ condition thenBody elseBody _ _ _, source => by
    obtain ⟨conditionSource, thenSource, elseSource, marked, chained⟩ := source
    refine ⟨expr_wellFormed named valid condition conditionSource,
      stmts_wellFormed named valid thenBody thenSource,
      stmts_wellFormed named valid elseBody elseSource, fun isMarked => ?_, chained⟩
    obtain ⟨rfl, single, plain⟩ := marked isMarked
    rw [stmts_eq_map, stmts_eq_map, length_map]
    exact ⟨rfl, single, plain⟩
  | .whileLoop _ condition body, source =>
    ⟨expr_wellFormed named valid condition source.1,
      stmts_wellFormed named valid body source.2⟩
  | .jump loc kind none, _ => jump_wellFormed valid site loc kind chain nofun
  | .jump loc kind (some value), source => by
    refine jump_wellFormed valid site loc kind chain ?_
    rintro _ ⟨⟩
    exact expr_wellFormed named valid value source
  | .bare _, source => False.elim source

theorem stmts_wellFormed (named : input.Named) (valid : naming.Valid)
    {site : Site} {chain : Bool} : (trees : List ResolvedStmt) →
    stmtsWellFormed (.resolved floats) chain trees →
    stmtsWellFormed (.plain floats) chain (stmts input naming site trees)
  | [], _ => trivial
  | first :: rest, source => by
    have alone : (stmts input naming site rest).isEmpty = rest.isEmpty := by
      rw [stmts_eq_map, isEmpty_map]
    exact ⟨alone ▸ stmt_wellFormed named valid first source.1,
      stmts_wellFormed named valid rest source.2⟩

end

theorem lambdaParams_wellFormed {argument : String} {parameters : List PlainParam}
    (named : isName argument = true) (source : paramsWellFormed (.plain floats) parameters)
    (arity : Nat) (loc : Loc) :
    paramsWellFormed (.plain floats) (lambdaParams argument parameters arity loc).1 ∧
      stmtsWellFormed (.plain floats) false (lambdaParams argument parameters arity loc).2 := by
  have words := isName_of_paramsWellFormed source
  unfold lambdaParams
  split
  · exact ⟨trivial, stmtsWellFormed_iff.2 (forall_mem_map.2 fun param member =>
      ⟨rfl, rfl, words param member, trivial⟩)⟩
  · rcases parameters with _ | ⟨first, _ | ⟨second, rest⟩⟩
    · exact ⟨⟨named, trivial⟩, trivial⟩
    · exact ⟨source, trivial⟩
    · refine ⟨⟨named, trivial⟩, ⟨rfl, by simp, ?_, ?_, cons_ne_nil _ _, named, trivial⟩,
        trivial⟩
      · exact forall_mem_map.2 fun _ _ => rfl
      · exact exprsWellFormed_iff.2 (forall_mem_map.2 words)

theorem closure_wellFormed {name argument : String} {captures : CaptureSet} {inner : PlainBlock}
    (isNamed : isName name = true) (argued : isName argument = true) (named : captures.Named)
    (arity : Nat) (paramsValid : paramsWellFormed (.plain floats) inner.params)
    (bodyValid : stmtsWellFormed (.plain floats) false inner.body) :
    (closure name argument captures arity inner).definition.WellFormed (.plain floats)
      false := by
  obtain ⟨lambdaValid, frontValid⟩ := lambdaParams_wellFormed argued paramsValid arity inner.loc
  refine ⟨isNamed, paramsWellFormed_names (forall_mem_map.2 fun capture member => ?_),
    ⟨lambdaValid, stmtsWellFormed_append.2 ⟨frontValid, bodyValid⟩⟩, trivial⟩
  exact ⟨_, _, rfl, named capture member⟩

end Image

end Hoist
