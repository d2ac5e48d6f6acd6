import Hoist.Proofs.Syntax.Reform
import Hoist.Proofs.Syntax.Settling

/-!
Trees and tokens that differ in their places alone.  Two readers go alike if on such tokens they
give such trees, or fail both.  The relation is kept by every step of the grammar; on one side of it
the trees are also well-formed, so what a reader yields has its form and depends on no place.
-/

namespace Hoist

open Lexeme Reader

variable {α β : Type}

/-- Tokens with one spelling, that of their kind. -/
structure SameToken (floats : Float → Prop) (token other : Token) : Prop where
  placeless : token.placeless = other.placeless
  spelled : wellSpelled token.kind token.text.chars = true
  allowed : token.kind = .float → floats (floatValue token)

abbrev SameTokens (floats : Float → Prop) : List Token → List Token → Prop :=
  List.Forall₂ (SameToken floats)

section SameToken

variable {floats : Float → Prop} {token other : Token}

theorem SameToken.kind (same : SameToken floats token other) : other.kind = token.kind :=
  (congrArg Token.kind same.placeless).symm

theorem SameToken.text (same : SameToken floats token other) : other.text = token.text :=
  (congrArg Token.text same.placeless).symm

theorem SameToken.word (same : SameToken floats token other) : other.word = token.word :=
  congrArg Text.toString same.text

theorem SameToken.isName (same : SameToken floats token other)
    (kind : token.kind = .name ∨ token.kind = .command) : isName token.word = true := by
  have spelled := same.spelled
  rcases kind with kind | kind <;> rw [kind] at spelled <;> exact spelled

end SameToken

/-- Results in waiting that are alike or faults both. -/
inductive SameWaiting (same : α → α → Prop) : Waiting α → Waiting α → Prop
  | ok {tree other : α} (alike : same tree other) : SameWaiting same (.ok tree) (.ok other)
  | error (fault other : ParseError) : SameWaiting same (.error fault) (.error other)

theorem SameWaiting.bind {same : α → α → Prop} {also : β → β → Prop} {first other : Waiting α}
    {next further : α → Waiting β} (alike : SameWaiting same first other)
    (step : ∀ tree tree', same tree tree' → SameWaiting also (next tree) (further tree')) :
    SameWaiting also (first >>= next) (other >>= further) := by
  cases alike with
  | ok alike => exact step _ _ alike
  | error fault other => exact .error fault other

theorem SameWaiting.mono {same also : α → α → Prop} {item other : Waiting α}
    (alike : SameWaiting same item other) (le : ∀ tree tree', same tree tree' → also tree tree') :
    SameWaiting also item other := by
  cases alike with
  | ok alike => exact .ok (le _ _ alike)
  | error fault other => exact .error fault other

theorem SameWaiting.all {same : α → α → Prop} {items others : List (Waiting α)}
    (alike : List.Forall₂ (SameWaiting same) items others) :
    SameWaiting (fun trees trees' => List.Forall₂ same trees trees' ∧ trees.length = items.length)
      (waitAll items) (waitAll others) := by
  induction alike with
  | nil => exact .ok ⟨.nil, rfl⟩
  | cons first _ ih =>
    unfold waitAll at ih ⊢
    rw [List.mapM_cons, List.mapM_cons]
    refine first.bind fun tree tree' alike => ?_
    refine ih.bind fun trees trees' others => ?_
    exact .ok ⟨.cons alike others.1, congrArg (· + 1) others.2⟩

theorem SameWaiting.option {same : α → α → Prop} {item other : Option (Waiting α)}
    (alike : Option.Rel (SameWaiting same) item other) :
    SameWaiting (fun tree tree' => Option.Rel same tree tree' ∧ tree.isSome = item.isSome)
      (waitOption item) (waitOption other) := by
  cases alike with
  | none => exact .ok ⟨.none, rfl⟩
  | some alike =>
    cases alike with
    | ok alike => exact .ok ⟨.some alike, rfl⟩
    | error fault other => exact .error fault other

section Readers

variable {floats : Float → Prop}

/-- Results of readers that are alike, with the tokens left, or failures both. -/
inductive SameResult (floats : Float → Prop) (same : α → α → Prop) :
    Except (List Token) (α × List Token) → Except (List Token) (α × List Token) → Prop
  | ok {value other : α} {left right : List Token} (alike : same value other)
    (rest : SameTokens floats left right) :
    SameResult floats same (.ok (value, left)) (.ok (other, right))
  | stuck (left right : List Token) : SameResult floats same (.error left) (.error right)

/-- Readers that go alike on tokens of which the first is of a given kind. -/
def AlikeFrom (floats : Float → Prop) (next : Option TokenKind) (same : α → α → Prop)
    (run other : Reader α) : Prop :=
  ∀ ⦃left right⦄, SameTokens floats left right → left.head?.map Token.kind = next →
    SameResult floats same (run left) (other right)

def Alike (floats : Float → Prop) (same : α → α → Prop) (run other : Reader α) : Prop :=
  ∀ ⦃left right⦄, SameTokens floats left right →
    SameResult floats same (run left) (other right)

variable {same : α → α → Prop} {also : β → β → Prop} {run other : Reader α}
  {next further : α → Reader β}

theorem Alike.from (alike : Alike floats same run other) (next : Option TokenKind) :
    AlikeFrom floats next same run other :=
  fun _ _ tokens _ => alike tokens

theorem head?_kind {left right : List Token} (tokens : SameTokens floats left right) :
    right.head?.map Token.kind = left.head?.map Token.kind := by
  cases tokens with
  | nil => rfl
  | cons first _ => exact congrArg some first.kind

variable {result' result : Except (List Token) (α × List Token)} {wider : α → α → Prop}

theorem SameResult.bind (alike : SameResult floats same result result')
    (step : ∀ value value', same value value' → Alike floats also (next value) (further
      value')) :
    SameResult floats also (result >>= fun pair => next pair.1 pair.2)
      (result' >>= fun pair => further pair.1 pair.2) := by
  cases alike with
  | ok alike rest => exact step _ _ alike rest
  | stuck left right => exact .stuck left right

theorem SameResult.mono (alike : SameResult floats same result result')
    (le : ∀ value value', same value value' → wider value value') :
    SameResult floats wider result result' := by
  cases alike with
  | ok alike rest => exact .ok (le _ _ alike) rest
  | stuck left right => exact .stuck left right

theorem Alike.mono (alike : Alike floats same run other)
    (le : ∀ value value', same value value' → wider value value') : Alike floats wider run other :=
  fun _ _ tokens => (alike tokens).mono le

theorem Alike.bind (alike : Alike floats same run other) (step : ∀ value value', same value value' →
      Alike floats also (next value) (further value')) :
    Alike floats also (run >>= next) (other >>= further) :=
  fun _ _ tokens => (alike tokens).bind step

theorem AlikeFrom.bind {kind : Option TokenKind} (alike : AlikeFrom floats kind same run other)
    (step : ∀ value value', same value value' →
      Alike floats also (next value) (further value')) :
    AlikeFrom floats kind also (run >>= next) (other >>= further) :=
  fun _ _ tokens starts => (alike tokens starts).bind step

theorem alike_pure {value value' : α} (alike : same value value') :
    Alike floats same (pure value) (pure value') :=
  fun _ _ tokens => .ok alike tokens

theorem alike_stuck : Alike floats same stuck stuck :=
  fun left right _ => .stuck left right

theorem alike_peek {next further : Option TokenKind → Reader β}
    (step : ∀ kind, AlikeFrom floats kind also (next kind) (further kind)) :
    Alike floats also (peek >>= next) (peek >>= further) := by
  intro left right tokens
  have known := step _ tokens rfl
  rw [run_bind, run_bind, run_peek, run_peek, head?_kind tokens]
  exact known

theorem alike_nextIs {next further : Bool → Reader β} (kind : TokenKind)
    (found : AlikeFrom floats (some kind) also (next true) (further true))
    (other : Alike floats also (next false) (further false)) :
    Alike floats also (nextIs kind >>= next) (nextIs kind >>= further) := by
  intro left right tokens
  rw [run_bind, run_bind, run_nextIs, run_nextIs, head?_kind tokens]
  cases fits : left.head?.map Token.kind == some kind with
  | true => exact found tokens (by simpa using fits)
  | false => exact other tokens

theorem alikeFrom_advance (kind : TokenKind) : AlikeFrom floats (some kind)
      (fun token other => SameToken floats token other ∧ token.kind = kind) advance advance := by
  intro left right tokens starts
  cases tokens with
  | nil => contradiction
  | cons first rest => exact .ok ⟨first, Option.some.inj starts⟩ rest

theorem alike_advance : Alike floats (SameToken floats) advance advance := by
  intro left right tokens
  cases tokens with
  | nil => exact .stuck [] []
  | cons first rest => exact .ok first rest

theorem alike_expect (kind : TokenKind) :
    Alike floats (fun token other => SameToken floats token other ∧ token.kind = kind)
      (expect kind) (expect kind) := by
  intro left right tokens
  cases tokens with
  | nil => exact .stuck [] []
  | @cons token other left right first rest =>
    by_cases fits : token.kind = kind
    · rw [run_expect fits, run_expect (first.kind.trans fits)]
      exact .ok ⟨first, fits⟩ rest
    · rw [run_expect_ne fits, run_expect_ne (first.kind ▸ fits)]
      exact .stuck _ _

theorem alike_accept (kind : TokenKind) : Alike floats Eq (accept kind) (accept kind) := by
  intro left right tokens
  by_cases fits : left.head?.map Token.kind = some kind
  · cases tokens with
    | nil => contradiction
    | cons first rest =>
      rw [run_accept (Option.some.inj fits), run_accept (first.kind.trans (Option.some.inj fits))]
      exact .ok rfl rest
  · rw [run_accept_ne fits, run_accept_ne (head?_kind tokens ▸ fits)]
    exact .ok rfl tokens

theorem alike_accepted {next further : Bool → Reader β} (kind : TokenKind)
    (found : Alike floats also (next true) (further true))
    (other : Alike floats also (next false) (further false)) :
    Alike floats also (accept kind >>= next) (accept kind >>= further) := by
  refine (alike_accept kind).bind ?_
  rintro (_ | _) _ rfl
  · exact other
  · exact found

theorem alike_skipTerminators : Alike floats (fun _ _ => True) skipTerminators
    skipTerminators := by
  intro left right tokens
  rw [run_skipTerminators, run_skipTerminators]
  refine .ok trivial ?_
  induction tokens with
  | nil => exact .nil
  | cons first rest ih =>
    rw [List.dropWhile_cons, List.dropWhile_cons, first.kind]
    split
    · exact ih
    · exact .cons first rest

theorem Alike.discard (alike : Alike floats same run other) :
    Alike floats (fun _ _ => True) (discard run) (discard other) := by
  intro left right tokens
  have result := alike tokens
  rw [run_discard, run_discard]
  exact result.bind fun _ _ _ => alike_pure trivial

theorem alike_terminators : Alike floats (fun _ _ => True) terminators terminators :=
  (alike_expect .terminator).discard.bind fun _ _ _ => alike_skipTerminators

theorem alike_thenMark : Alike floats (fun _ _ => True) thenMark thenMark := by
  refine alike_accepted .kwThen (alike_pure trivial) ?_
  exact alike_terminators.bind fun _ _ _ => (alike_accept .kwThen).discard

end Readers

section Trees

variable {floats : Float → Prop} {position : Position}

/-- Expressions with one form, which may stand in a position. -/
structure SameExpr (floats : Float → Prop) (position : Position) (tree other : PlainExpr) :
    Prop where
  wellFormed : tree.WellFormed (.plain floats) position
  unplaced : tree.reform .unplaced = other.reform .unplaced

structure SameParams (floats : Float → Prop) (trees others : List PlainParam) : Prop where
  wellFormed : paramsWellFormed (.plain floats) trees
  unplaced : reformParams .unplaced trees = reformParams .unplaced others

structure SameStmts (floats : Float → Prop) (chain : Bool) (trees others : List PlainStmt) :
    Prop where
  wellFormed : stmtsWellFormed (.plain floats) chain trees
  unplaced : reformStmts .unplaced trees = reformStmts .unplaced others

abbrev SameParam (floats : Float → Prop) (tree other : PlainParam) : Prop :=
  SameParams floats [tree] [other]

abbrev SameStmt (floats : Float → Prop) (tree other : PlainStmt) : Prop :=
  SameStmts floats false [tree] [other]

structure SameBlock (floats : Float → Prop) (tree other : PlainBlock) : Prop where
  params : SameParams floats tree.params other.params
  body : SameStmts floats false tree.body other.body

theorem SameExpr.weaken {tree other : PlainExpr} (same : SameExpr floats .operand tree other) :
    SameExpr floats position tree other :=
  ⟨same.wellFormed.ofOperand position, same.unplaced⟩

theorem sameExprs {trees others : List PlainExpr}
    (same : List.Forall₂ (SameExpr floats position) trees others) :
    exprsWellFormed (.plain floats) position trees ∧
      reformExprs .unplaced trees = reformExprs .unplaced others := by
  induction same with
  | nil => exact ⟨trivial, rfl⟩
  | cons first _ ih =>
    obtain ⟨wellFormed, unplaced⟩ := ih
    rw [exprsWellFormed, reformExprs, reformExprs, first.unplaced, unplaced]
    exact ⟨⟨first.wellFormed, wellFormed⟩, rfl⟩

theorem sameParams {trees others : List PlainParam}
    (same : List.Forall₂ (SameParam floats) trees others) : SameParams floats trees others := by
  induction same with
  | nil => exact ⟨trivial, rfl⟩
  | @cons tree other trees others first _ ih =>
    obtain ⟨firstValid, firstUnplaced⟩ := first
    obtain ⟨wellFormed, unplaced⟩ := ih
    rcases tree with ⟨name, loc, _ | value⟩ <;> rcases other with ⟨name', loc', _ | value'⟩ <;>
      simp only [reformParams, List.cons.injEq, Param.mk.injEq, Option.some.injEq, reduceCtorEq,
        and_false, true_and, and_true] at firstUnplaced
    · subst firstUnplaced
      exact ⟨⟨firstValid.1, wellFormed⟩, by rw [reformParams, reformParams, unplaced]⟩
    · obtain ⟨rfl, same⟩ := firstUnplaced
      exact ⟨⟨firstValid.1, firstValid.2.1, wellFormed⟩, by
        rw [reformParams, reformParams, unplaced, same]⟩

variable {value' value condition' condition target' : PlainExpr}
  {body' others trees : List PlainStmt} {params' : List PlainParam} {args' args : List PlainExpr}
  {name : String} {op : BinaryOp}

theorem SameStmts.cons {tree other : PlainStmt} (first : SameStmt floats tree other)
    (rest : SameStmts floats false trees others) :
    SameStmts floats false (tree :: trees) (other :: others) where
  wellFormed := ⟨first.wellFormed.1, rest.wellFormed⟩
  unplaced := by
    have same := List.head_eq_of_cons_eq first.unplaced
    rw [reformStmts, reformStmts, same, rest.unplaced]

/-- What may stand in any body may stand in an else branch. -/
theorem SameStmts.chained (same : SameStmts floats false trees others) (chain : Bool) :
    SameStmts floats chain trees others where
  wellFormed := stmtsWellFormed_chained chain same.wellFormed
  unplaced := same.unplaced

variable {loc loc' : Loc}

theorem SameExpr.splat (same : SameExpr floats .operand value value') :
    SameExpr floats .argument (.splat loc value) (.splat loc' value') :=
  ⟨⟨rfl, same.wellFormed⟩, by rw [Expr.reform, Expr.reform, same.unplaced]⟩

theorem SameExpr.array {elements elements' : List PlainExpr}
    (same : List.Forall₂ (SameExpr floats .argument) elements elements') :
    SameExpr floats position (.array loc elements) (.array loc' elements') :=
  ⟨(sameExprs same).1, by rw [Expr.reform, Expr.reform, (sameExprs same).2]⟩

theorem SameExpr.range {start start' stop stop' : PlainExpr} (exclusive : Bool)
    (sameStart : SameExpr floats .operand start start')
    (sameStop : SameExpr floats .operand stop stop') :
    SameExpr floats position (.range loc start stop exclusive)
      (.range loc' start' stop' exclusive) :=
  ⟨⟨sameStart.wellFormed, sameStop.wellFormed⟩, by
    rw [Expr.reform, Expr.reform, sameStart.unplaced, sameStop.unplaced]⟩

theorem SameExpr.binary {left left' right right' : PlainExpr} (binds : op.level?.isSome = true)
    (sameLeft : SameExpr floats .operand left left')
    (sameRight : SameExpr floats .operand right right') :
    SameExpr floats position (.binary loc op left right) (.binary loc' op left' right') :=
  ⟨⟨binds, sameLeft.wellFormed, sameRight.wellFormed⟩, by
    rw [Expr.reform, Expr.reform, sameLeft.unplaced, sameRight.unplaced]⟩

theorem SameExpr.unary {op : UnaryOp} {operand operand' : PlainExpr} (known : op.isKnown = true)
    (same : SameExpr floats .operand operand operand') :
    SameExpr floats position (.unary loc op operand) (.unary loc' op operand') :=
  ⟨⟨known, same.wellFormed⟩, by rw [Expr.reform, Expr.reform, same.unplaced]⟩

theorem SameExpr.ternary {thenValue thenValue' elseValue elseValue' : PlainExpr}
    (sameCondition : SameExpr floats .operand condition condition')
    (sameThen : SameExpr floats .operand thenValue thenValue')
    (sameElse : SameExpr floats .operand elseValue elseValue') :
    SameExpr floats position (.ternary loc condition thenValue elseValue)
      (.ternary loc' condition' thenValue' elseValue') :=
  ⟨⟨sameCondition.wellFormed, sameThen.wellFormed, sameElse.wellFormed⟩, by
    rw [Expr.reform, Expr.reform, sameCondition.unplaced, sameThen.unplaced, sameElse.unplaced]⟩

theorem SameExpr.lambda {params : List PlainParam} {body : List PlainStmt}
    (sameParams : SameParams floats params params') (sameBody : SameStmts floats false body body') :
    SameExpr floats position (.lambda loc () params body) (.lambda loc' () params' body') :=
  ⟨⟨sameParams.wellFormed, sameBody.wellFormed⟩, by
    rw [Expr.reform, Expr.reform, sameParams.unplaced, sameBody.unplaced]⟩

theorem SameBlock.reform {block block' : PlainBlock} (same : SameBlock floats block block') :
    block.reform .unplaced = block'.reform .unplaced := by
  rw [Block.reform, Block.reform, same.params.unplaced, same.body.unplaced]

theorem SameExpr.call {receiver receiver' : Option PlainExpr} {method : String}
    {block block' : Option PlainBlock} {parens : Bool}
    (written : receiver = none → args = [] → block = none → parens = true)
    (name : isName method = true)
    (sameReceiver : Option.Rel (SameExpr floats .operand) receiver receiver')
    (sameArgs : List.Forall₂ (SameExpr floats .argument) args args')
    (sameBlock : Option.Rel (SameBlock floats) block block') :
    SameExpr floats position (.call loc receiver method args block parens)
      (.call loc' receiver' method args' block' parens) where
  wellFormed := by
    refine Expr.wellFormed_call.2 ⟨written, ?_, name, (sameExprs sameArgs).1, ?_⟩
    · rintro value rfl
      cases sameReceiver with
      | some same => exact same.wellFormed
    · rintro inner rfl
      cases sameBlock with
      | some same => exact ⟨same.params.wellFormed, same.body.wellFormed⟩
  unplaced := by
    rw [Expr.reform_call, Expr.reform_call, (sameExprs sameArgs).2]
    congr 1
    · cases sameReceiver with
      | none => rfl
      | some same => exact congrArg some same.unplaced
    · cases sameBlock with
      | none => rfl
      | some same => exact congrArg some same.reform

theorem SameExpr.index (same : SameExpr floats .operand value value') (nonempty : args ≠ [])
    (sameArgs : List.Forall₂ (SameExpr floats .argument) args args') :
    SameExpr floats position (.index loc value args) (.index loc' value' args') :=
  ⟨⟨same.wellFormed, nonempty, (sameExprs sameArgs).1⟩, by
    rw [Expr.reform, Expr.reform, same.unplaced, (sameExprs sameArgs).2]⟩

theorem SameExpr.assign {target : PlainExpr} (assigns : position.assigns = true)
    (isTarget : target.isTarget = true) (sameTarget : SameExpr floats .operand target target')
    (same : SameExpr floats .assigned value value') :
    SameExpr floats position (.assign loc target value) (.assign loc' target' value') :=
  ⟨⟨assigns, isTarget, sameTarget.wellFormed, same.wellFormed⟩, by
    rw [Expr.reform, Expr.reform, sameTarget.unplaced, same.unplaced]⟩

theorem SameExpr.opAssign {target : PlainExpr} (assigns : position.assigns = true)
    (isTarget : target.isTarget = true) (opAssigns : op.assigns = true)
    (sameTarget : SameExpr floats .operand target target')
    (same : SameExpr floats .assigned value value') :
    SameExpr floats position (.opAssign loc target op value)
      (.opAssign loc' target' op value') :=
  ⟨⟨assigns, isTarget, opAssigns, sameTarget.wellFormed, same.wellFormed⟩, by
    rw [Expr.reform, Expr.reform, sameTarget.unplaced, same.unplaced]⟩

theorem SameExpr.multiAssign {targets targets' values values' : List PlainExpr}
    (several : 2 ≤ targets.length) (areTargets : ∀ target ∈ targets, target.isTarget = true)
    (sameTargets : List.Forall₂ (SameExpr floats .operand) targets targets')
    (nonempty : values ≠ [])
    (sameValues : List.Forall₂ (SameExpr floats .argument) values values') :
    SameExpr floats .head (.multiAssign loc targets values)
      (.multiAssign loc' targets' values') :=
  ⟨⟨rfl, several, areTargets, (sameExprs sameTargets).1, nonempty, (sameExprs sameValues).1⟩, by
    rw [Expr.reform, Expr.reform, (sameExprs sameTargets).2, (sameExprs sameValues).2]⟩

theorem SameParam.bare (valid : isName name = true) :
    SameParam floats (.mk name loc none) (.mk name loc' none) :=
  ⟨⟨valid, trivial⟩, rfl⟩

theorem SameParam.default (valid : isName name = true)
    (same : SameExpr floats .operand value value') :
    SameParam floats (.mk name loc (some value)) (.mk name loc' (some value')) :=
  ⟨⟨valid, same.wellFormed, trivial⟩, by rw [reformParams, reformParams, same.unplaced]; rfl⟩

theorem SameStmt.define {params : List PlainParam} {body : List PlainStmt}
    (valid : isName name = true) (sameParams : SameParams floats params params')
    (sameBody : SameStmts floats false body body') :
    SameStmt floats (.define loc () name params body) (.define loc' () name params' body') :=
  ⟨⟨⟨valid, sameParams.wellFormed, sameBody.wellFormed⟩, trivial⟩, by
    simp only [reformStmts, Stmt.reform, sameParams.unplaced, sameBody.unplaced]⟩

theorem SameStmt.expression (same : SameExpr floats .head value value') :
    SameStmt floats (.expression loc value) (.expression loc' value') :=
  ⟨⟨same.wellFormed, trivial⟩, by simp only [reformStmts, Stmt.reform, same.unplaced]⟩

theorem SameStmts.conditional {thenBody thenBody' elseBody elseBody' : List PlainStmt}
    {negated modifier elsif chain : Bool}
    (marked : modifier = true → elseBody = [] ∧ thenBody.length = 1 ∧ elsif = false)
    (chained : elsif = true → chain = true ∧ negated = false)
    (sameCondition : SameExpr floats .operand condition condition')
    (sameThen : SameStmts floats false thenBody thenBody')
    (sameElse : SameStmts floats (!negated) elseBody elseBody') :
    SameStmts floats chain
      [.conditional loc condition thenBody elseBody negated modifier elsif]
      [.conditional loc' condition' thenBody' elseBody' negated modifier elsif] :=
  ⟨⟨⟨sameCondition.wellFormed, sameThen.wellFormed, sameElse.wellFormed, marked,
      by simpa using chained⟩, trivial⟩, by
    simp only [reformStmts, Stmt.reform, sameCondition.unplaced, sameThen.unplaced,
      sameElse.unplaced]
    rfl⟩

theorem SameStmt.whileLoop {body : List PlainStmt}
    (sameCondition : SameExpr floats .operand condition condition')
    (sameBody : SameStmts floats false body body') :
    SameStmt floats (.whileLoop loc condition body) (.whileLoop loc' condition' body') :=
  ⟨⟨⟨sameCondition.wellFormed, sameBody.wellFormed⟩, trivial⟩, by
    simp only [reformStmts, Stmt.reform, sameCondition.unplaced, sameBody.unplaced]⟩

theorem SameStmt.jump {kind : JumpKind} (same : SameExpr floats .operand value value') :
    SameStmt floats (.jump loc kind (some value)) (.jump loc' kind (some value')) :=
  ⟨⟨same.wellFormed, trivial⟩, by simp only [reformStmts, Stmt.reform, same.unplaced]⟩

end Trees

end Hoist
