import Hoist.Proofs.Syntax.ReadRows

/-!
Reading a written tree.  The tokens of a tree that text can spell are read as the same tree, up to
what text does not keep.
-/

namespace Hoist

open Reader Lexeme Piece Row

variable {tree : PlainExpr}

theorem readsExpr_word {kind : TokenKind} {text : Text} (starts : kind.startsPrimary = true)
    (read : ∀ fuel rest, Next TokenKind.leavesBare rest →
      readPrimary (fuel + 2) (⟨kind, text, default, 0, 0⟩ :: rest) = .ok (settled tree, rest)) :
    ReadsExpr Level.postfixForm [.word kind text.toList] tree := by
  refine readsExpr_of_primary (by simp [starts]) fun fuel rest enough bare => ?_
  obtain ⟨fuel, rfl⟩ : ∃ less, fuel = less + 1 := ⟨fuel - 1, by simp at enough; omega⟩
  rw [tokens_word, Text.ofList_toList]
  exact read fuel rest bare

theorem readsExpr_name (name : String) :
    ReadsExpr Level.postfixForm [spelled .name name] (.name default name) := by
  refine readsExpr_word rfl fun fuel rest bare => ?_
  have noParen : Skips .leftParen rest := bare.skips rfl
  simp [readPrimary, readCallArgs, noParen, readBlock?_none bare]
  rfl

theorem readsExpr_symbol (name : String) :
    ReadsExpr Level.postfixForm [spelled .symbol (":" ++ name)] (.symbol default name) := by
  refine readsExpr_word rfl fun fuel rest _ => ?_
  simp [readPrimary]
  rfl

theorem readsExpr_global (name : String) :
    ReadsExpr Level.postfixForm [spelled .global ("$" ++ name)] (.global default name) := by
  refine readsExpr_word rfl fun fuel rest _ => ?_
  simp [readPrimary]
  rfl

theorem readsExpr_constant (name : String) :
    ReadsExpr Level.postfixForm [spelled .constant name] (.constant default name) := by
  refine readsExpr_word rfl fun fuel rest _ => ?_
  simp [readPrimary]
  rfl

theorem readsExpr_literal {value : Literal} (valid : value.WellFormed IsFloatWord) :
    ReadsExpr Level.postfixForm [literal value] (Reform.reread.literal value) := by
  cases value with
  | nil => exact readsExpr_word rfl fun _ _ _ => rfl
  | bool value => cases value <;> exact readsExpr_word rfl fun _ _ _ => rfl
  | int value =>
    obtain ⟨n, rfl, small⟩ := valid
    refine readsExpr_word rfl fun fuel rest _ => ?_
    have word : Decimal.readNat? ((Text.ofString (toString (Int.ofNat n).natAbs)).chars.filter
        (· != '_')) = some n := by
      rw [Text.chars_ofString]
      exact Decimal.readNat?_toString small
    simp only [readPrimary, run_bind, run_peek, ok_bind, List.head?_cons, Option.map_some,
      run_advance, run_pure, intLiteral, word]
    rfl
  | str value =>
    refine readsExpr_word rfl fun fuel rest _ => ?_
    simp [readPrimary, stringLiteral, StringLiteral.read_render]
    rfl
  | float value =>
    rw [literal_float]
    by_cases infinite : Decimal.floatText Decimal.literalStyle value = "inf"
    · have kind : floatKind value = .name := if_pos infinite
      have read : Reform.reread.literal (.float value) = .name default "inf" := if_pos infinite
      rw [kind, infinite, read]
      exact readsExpr_name "inf"
    · have kind : floatKind value = .float := if_neg infinite
      have read : Reform.reread.literal (.float value) = .literal default (.float value) :=
        if_neg infinite
      rw [kind, read]
      refine readsExpr_word rfl fun fuel rest _ => ?_
      simp only [readPrimary, run_bind, run_peek, ok_bind, List.head?_cons, Option.map_some,
        run_advance, run_pure, floatLiteral]
      rw [Decimal.floatValue_floatText (valid.resolve_right infinite) rfl]
      rfl

theorem operandLevels_le {op : BinaryOp} {level : Nat} (binds : op.level? = some level) :
    (Printer.operandLevels op level).1 ≤ Level.postfixForm ∧
      (Printer.operandLevels op level).2 ≤ Level.postfixForm := by
  cases op <;> simp only [BinaryOp.level?, Option.some.injEq, reduceCtorEq] at binds
  all_goals
    subst binds
    decide

theorem isTarget_reread (isTarget : tree.isTarget = true) :
    (tree.reform .reread).isTarget = true := by
  cases tree with
  | name | global | index => rfl
  | _ => contradiction

theorem le_reachedLevel_postfixForm (own : Nat) (bounded : own ≤ Level.postfixForm) :
    reachedLevel Level.postfixForm own = Level.postfixForm := by
  unfold reachedLevel
  split <;> omega

theorem ReadsExpr.asPostfix {own : Nat} {row : Row} (read : ReadsExpr own row tree) :
    ReadsExpr Level.postfixForm (atLevel Level.postfixForm own row) tree := by
  have reached := @readsExpr_atLevel Level.postfixForm own row tree read
  rwa [le_reachedLevel_postfixForm own read.bounded] at reached

/-- The row of the block of a call. -/
def blockRow (depth : Nat) : Option PlainBlock → Row
  | none => []
  | some (.mk _ _ parameters body) => .gap 0 :: braces depth (params depth parameters) body

theorem expr_call_none (depth : Nat) (loc : Loc) (method : String) (args : List PlainExpr)
    (block : Option PlainBlock) (parens : Bool) :
    expr depth (.call loc none method args block parens) =
      spelled .name method :: (argList parens (exprsAt depth Level.ternary args) ++
        blockRow depth block) := by
  rcases block with _ | ⟨blockLoc, scope, parameters, body⟩ <;> simp [expr, blockRow]

theorem tokens_bracedLines (depth : Nat) (opening lines : Row) :
    tokens (bracedLines depth opening lines) =
      tokens opening ++ (tokens lines ++ [written .rightBrace "\x7d"]) := by
  simp [bracedLines, rightBrace]

section Call

variable {depth : Nat} {loc : Loc} {method : String} {args : List PlainExpr}
  {block : Option PlainBlock} {parens : Bool}
  (each : List.Forall₂ ReadsArg (exprsAt depth Level.ternary args) (reformExprs .reread args))
  (inside : ReadsBlock (blockRow depth block) (block.map (Block.reform .reread)))

include each inside

theorem readsExpr_call_none (isCall : args = [] → block = none → parens = true) :
    ReadsExpr Level.postfixForm (expr depth (.call loc none method args block parens))
      ((Expr.call loc none method args block parens).reform .reread) := by
  have isCall : reformExprs .reread args = [] → block.map (Block.reform .reread) = none →
      parens = true := by
    intro noArgs noBlock
    refine isCall ?_ (Option.map_eq_none_iff.1 noBlock)
    rw [← List.isEmpty_iff, ← reformExprs_isEmpty .reread, noArgs]
    rfl
  have whole := @readsExpr_call method parens _ _ _ _ each inside isCall
  rw [reformExprs_isEmpty] at whole
  rw [expr_call_none, Expr.reform_call]
  exact whole

theorem readsExpr_call_some {receiver : PlainExpr}
    (readReceiver : ReadsExpr receiver.level (expr depth receiver) (receiver.reform .reread)) :
    ReadsExpr Level.postfixForm (expr depth (.call loc (some receiver) method args block parens))
      ((Expr.call loc (some receiver) method args block parens).reform .reread) := by
  have whole := @readsExpr_method method parens _ _ _ _ each inside _ _ readReceiver.asPostfix
  rw [reformExprs_isEmpty] at whole
  rw [expr_call_some, expr_call_none, Expr.reform_call]
  exact whole

end Call

/-- What the row of a tree is read as where the tree may stand: an expression, or one of the forms
that only have a place there. -/
def ReadsAs (position : Position) (level : Nat) (row : Row) (tree : PlainExpr) : Prop :=
  ReadsExpr level row tree ∨
    match position with
    | .operand => False
    | .argument => level = Level.postfixForm ∧ ReadsArg row tree
    | .assigned => level = 0 ∧ ReadsHead false row tree
    | .head => ReadsHead true row tree

section ReadsAs

variable {level own : Nat} {row : Row} {tree : PlainExpr}

theorem ReadsAs.operand (read : ReadsAs .operand own row tree) : ReadsExpr own row tree :=
  read.resolve_right id

theorem ReadsAs.argument (bounded : level ≤ Level.postfixForm)
    (read : ReadsAs .argument own row tree) : ReadsArg (atLevel level own row) tree := by
  rcases read with read | ⟨rfl, read⟩
  · exact (readsExpr_atLevel read).argument
  · rwa [atLevel, if_neg (by omega)]

theorem ReadsAs.head (read : ReadsAs .head own row tree) : ReadsHead true row tree := by
  rcases read with read | read
  · exact read.atHead true
  · exact read

end ReadsAs

/-- An assignment stands on the right of another one without parentheses. -/
theorem reads_assigned {depth : Nat} (valid : tree.WellFormed (.plain IsFloatWord) .assigned)
    (read : ReadsAs .assigned tree.level (expr depth tree) (tree.reform .reread)) :
    ReadsHead false (atLevel (Printer.assignedLevel tree) tree.level (expr depth tree))
      (tree.reform .reread) := by
  rcases read with read | ⟨assigns, read⟩
  · exact (readsExpr_atLevel read).atHead false
  · have bare : Printer.assignedLevel tree = 0 := by
      cases tree with
      | assign | opAssign => rfl
      | multiAssign => exact absurd valid.1 (by decide)
      | binary loc op left right =>
        obtain ⟨level, binds⟩ := Option.isSome_iff_exists.1 valid.1
        have := BinaryOp.level_range binds
        rw [Expr.level_binary, binds, Option.getD_some] at assigns
        omega
      | unary loc op operand =>
        rw [Expr.level_unary] at assigns
        split at assigns <;> exact absurd assigns (by decide)
      | _ => exact nomatch assigns
    rwa [bare, atLevel, if_neg (Nat.not_lt_zero _)]

/-- The targets of an assignment to several of them. -/
theorem exprsAt_length_le {trees : List PlainExpr} {n : Nat} (depth level : Nat)
    (several : n ≤ trees.length) : n ≤ (exprsAt depth level trees).length := by
  rwa [exprsAt_length]

theorem isTarget_reformExprs {trees : List PlainExpr}
    (areTargets : ∀ tree ∈ trees, tree.isTarget = true) :
    ∀ tree ∈ reformExprs .reread trees, tree.isTarget = true := by
  induction trees with
  | nil => exact nofun
  | cons first rest ih =>
    rw [reformExprs]
    refine List.forall_mem_cons.2 ⟨isTarget_reread (areTargets first (by simp)), ?_⟩
    exact ih fun tree member => areTargets tree (by simp [member])

theorem eq_of_writtenAfter {modifier : Bool} {thenBody elseBody : List PlainStmt}
    (fits : writtenAfter modifier thenBody elseBody = true) :
    ∃ only, thenBody = [only] ∧ elseBody = [] := by
  rcases thenBody with _ | ⟨only, _ | ⟨second, rest⟩⟩
  · simp [writtenAfter] at fits
  · simp only [writtenAfter, Bool.and_eq_true, List.isEmpty_iff] at fits
    exact ⟨only, rfl, fits.1.2⟩
  · simp [writtenAfter] at fits

/-- A conditional is read as it is written: after the statement it governs, or as a block. -/
theorem reads_conditional {depth : Nat} {loc : Loc} {condition : PlainExpr}
    {thenBody elseBody : List PlainStmt} {negated modifier : Bool}
    (readCondition : ReadsExpr condition.level (expr depth condition) (condition.reform .reread))
    (readThen : ReadsBody (stmts (depth + 1) thenBody) (reformStmts .reread thenBody))
    (readOnly : ∀ only, thenBody = [only] → ReadsStmt (stmt depth only) (only.reform .reread))
    (readElse : ReadsElse (!negated) (elseLines depth (!negated) elseBody)
      (reformStmts .reread elseBody)) :
    ReadsStmt (stmt depth (.conditional loc condition thenBody elseBody negated modifier false))
      ((Stmt.conditional loc condition thenBody elseBody negated modifier false).reform
        .reread) := by
  cases fits : writtenAfter modifier thenBody elseBody with
  | false =>
    have whole := readsStmt_conditional (@readsExpr_atLevel Level.keyword _ _ _ readCondition) depth
      negated readThen readElse
    rw [Stmt.reform, show Reform.reread.modifier modifier thenBody elseBody = false from fits]
    rcases thenBody with _ | ⟨only, _ | ⟨second, rest⟩⟩ <;>
    · rw [stmt, if_neg (by rw [fits]; exact Bool.false_ne_true)]
      · exact whole
      all_goals
        intro _ same
        cases same
  | true =>
    obtain ⟨only, rfl, rfl⟩ := eq_of_writtenAfter fits
    have whole := readsStmt_after (@readsExpr_atLevel Level.keyword _ _ _ readCondition) negated
      (readOnly only rfl)
    rw [Stmt.reform, show Reform.reread.modifier modifier [only] [] = true from fits, stmt,
      if_pos fits]
    exact whole

mutual

theorem reads_expr (depth : Nat) {position : Position} : (tree : PlainExpr) →
    tree.WellFormed (.plain IsFloatWord) position →
    ReadsAs position tree.level (expr depth tree) (tree.reform .reread)
  | .literal _ _, valid => .inl (readsExpr_literal valid)
  | .symbol _ name, _ => .inl (readsExpr_symbol name)
  | .name _ name, _ => .inl (readsExpr_name name)
  | .global _ name, _ => .inl (readsExpr_global name)
  | .constant _ name, _ => .inl (readsExpr_constant name)
  | .array _ elements, valid =>
    .inl (readsExpr_array (reads_args depth _ (by decide) elements valid))
  | .splat _ value, valid => by
    obtain ⟨rfl, valid⟩ := valid
    have read := (reads_expr depth value valid).operand
    exact .inr ⟨rfl, readsArg_splat (readsExpr_atLevel read)⟩
  | .range _ start stop _, valid => by
    have readStart := (reads_expr depth start valid.1).operand
    have readStop := (reads_expr depth stop valid.2).operand
    exact .inl (readsExpr_range (readsExpr_atLevel readStart) (readsExpr_atLevel readStop)
      (le_reachedLevel (by decide)) (le_reachedLevel (by decide)))
  | .binary loc op left right, valid => by
    have readLeft := (reads_expr depth left valid.2.1).operand
    have readRight := (reads_expr depth right valid.2.2).operand
    obtain ⟨level, binds⟩ := Option.isSome_iff_exists.1 valid.1
    have bounds := operandLevels_le binds
    rw [Expr.level_binary, expr, binds]
    exact .inl (readsExpr_binary binds (readsExpr_atLevel readLeft) (readsExpr_atLevel readRight)
      (le_reachedLevel bounds.1) (le_reachedLevel bounds.2))
  | .unary loc op operand, valid => by
    have read := (reads_expr depth operand valid.2).operand
    rw [Expr.level_unary, expr]
    split
    · next same =>
      subst same
      exact .inl (readsExpr_not (readsExpr_atLevel read) (le_reachedLevel (by decide)))
    · next other =>
      exact .inl (readsExpr_unary valid.1 other (readsExpr_atLevel read)
        (le_reachedLevel (by decide)))
  | .ternary _ condition thenValue elseValue, valid => by
    have readCondition := (reads_expr depth condition valid.1).operand
    have readThen := (reads_expr depth thenValue valid.2.1).operand
    have readElse := (reads_expr depth elseValue valid.2.2).operand
    exact .inl (readsExpr_ternary (readsExpr_atLevel readCondition) (readsExpr_atLevel readThen)
      (readsExpr_atLevel readElse) (le_reachedLevel (by decide)) (le_reachedLevel (by decide))
      (le_reachedLevel (by decide)))
  | .lambda _ _ parameters body, valid =>
    .inl (readsExpr_lambda (reads_params depth parameters valid.1)
      (reads_braces depth [] body valid.2))
  | .call _ none _ args none _, valid => by
    obtain ⟨isCall, -, -, argsValid, -⟩ := Expr.wellFormed_call.1 valid
    have each := reads_args depth Level.ternary (by decide) args argsValid
    exact .inl (readsExpr_call_none each (.inl ⟨rfl, rfl⟩) (isCall rfl))
  | .call _ none _ args (some (.mk _ _ parameters body)) _, valid => by
    obtain ⟨-, -, -, argsValid, blockValid⟩ := Expr.wellFormed_call.1 valid
    obtain ⟨paramsValid, bodyValid⟩ := blockValid _ rfl
    have each := reads_args depth Level.ternary (by decide) args argsValid
    have inside := (reads_braces depth (params depth parameters) body bodyValid).block
      (reads_params depth parameters paramsValid)
    exact .inl (readsExpr_call_none each inside nofun)
  | .call _ (some receiver) _ args none _, valid => by
    obtain ⟨-, receiverValid, -, argsValid, -⟩ := Expr.wellFormed_call.1 valid
    have readReceiver := (reads_expr depth receiver (receiverValid _ rfl)).operand
    have each := reads_args depth Level.ternary (by decide) args argsValid
    exact .inl (readsExpr_call_some each (.inl ⟨rfl, rfl⟩) readReceiver)
  | .call _ (some receiver) _ args (some (.mk _ _ parameters body)) _, valid => by
    obtain ⟨-, receiverValid, -, argsValid, blockValid⟩ := Expr.wellFormed_call.1 valid
    obtain ⟨paramsValid, bodyValid⟩ := blockValid _ rfl
    have readReceiver := (reads_expr depth receiver (receiverValid _ rfl)).operand
    have each := reads_args depth Level.ternary (by decide) args argsValid
    have inside := (reads_braces depth (params depth parameters) body bodyValid).block
      (reads_params depth parameters paramsValid)
    refine .inl (readsExpr_call_some each ?_ readReceiver)
    exact inside
  | .index _ value args, valid => by
    have readValue := (reads_expr depth value valid.1).operand
    exact .inl (readsExpr_index (reads_args depth _ (by decide) args valid.2.2) readValue.asPostfix
      (exprsAt_ne_nil depth _ valid.2.1))
  | .assign _ target value, valid => by
    have readTarget := (reads_expr depth target valid.2.2.1).operand
    have readValue := reads_assigned valid.2.2.2 (reads_expr depth value valid.2.2.2)
    have whole := fun several => @readsHead_assign _ _ _ _ several readTarget.asPostfix readValue
      (isTarget_reread valid.2.1)
    cases position with
    | operand | argument => exact absurd valid.1 (by decide)
    | assigned => exact .inr ⟨rfl, whole false⟩
    | head => exact .inr (whole true)
  | .opAssign _ target op value, valid => by
    have readTarget := (reads_expr depth target valid.2.2.2.1).operand
    have readValue := reads_assigned valid.2.2.2.2 (reads_expr depth value valid.2.2.2.2)
    have whole := fun several => @readsHead_opAssign _ _ _ _ several readTarget.asPostfix readValue
      (isTarget_reread valid.2.1) _ valid.2.2.1
    cases position with
    | operand | argument => exact absurd valid.1 (by decide)
    | assigned => exact .inr ⟨rfl, whole false⟩
    | head => exact .inr (whole true)
  | .multiAssign _ targets values, valid => by
    obtain ⟨rfl, several, areTargets, targetsValid, nonempty, valuesValid⟩ := valid
    have readTargets := reads_targets depth targets targetsValid
    have readValues := reads_args depth Level.ternary (by decide) values valuesValid
    exact .inr (readsHead_multiAssign readTargets (isTarget_reformExprs areTargets)
      (exprsAt_length_le depth _ several) readValues (exprsAt_ne_nil depth _ nonempty))
  | .block _, valid | .param _, valid | .stmt _, valid => False.elim valid

theorem reads_args (depth level : Nat) (bounded : level ≤ Level.postfixForm) :
    (trees : List PlainExpr) → exprsWellFormed (.plain IsFloatWord) .argument trees →
    List.Forall₂ ReadsArg (exprsAt depth level trees) (reformExprs .reread trees)
  | [], _ => .nil
  | first :: rest, valid =>
    .cons ((reads_expr depth first valid.1).argument bounded)
      (reads_args depth level bounded rest valid.2)

theorem reads_targets (depth : Nat) : (trees : List PlainExpr) →
    exprsWellFormed (.plain IsFloatWord) .operand trees →
    List.Forall₂ (ReadsExpr Level.postfixForm) (exprsAt depth Level.postfixForm trees)
      (reformExprs .reread trees)
  | [], _ => .nil
  | first :: rest, valid =>
    .cons (reads_expr depth first valid.1).operand.asPostfix
      (reads_targets depth rest valid.2)

theorem reads_params (depth : Nat) : (trees : List PlainParam) →
    paramsWellFormed (.plain IsFloatWord) trees →
    List.Forall₂ ReadsParam (params depth trees) (reformParams .reread trees)
  | [], _ => .nil
  | .mk name _ none :: rest, valid => .cons (readsParam_bare name) (reads_params depth rest valid.2)
  | .mk name _ (some value) :: rest, valid =>
    .cons (readsParam_default name (readsExpr_atLevel (reads_expr depth value valid.2.1).operand))
      (reads_params depth rest valid.2.2)

theorem reads_braces (depth : Nat) (rows : List Row) : (body : List PlainStmt) →
    stmtsWellFormed (.plain IsFloatWord) false body →
    ReadsBraces rows (braces depth rows body) (reformStmts .reread body)
  | [], _ => by
    refine ⟨[], ?_, readsBody_nil⟩
    rw [braces]
    split
    · next empty =>
      rw [List.isEmpty_iff.1 empty]
      rfl
    · rw [tokens_append]
      rfl
  | [only], valid => by
    have line := reads_stmt 0 only valid.1
    have inner := reads_stmt (depth + 1) only valid.1
    rw [braces]
    split
    · refine ⟨stmt 0 only, ?_, readsBody_line line⟩
      simp only [tokens_append, tokens_gap, rightBrace, tokens_spelled, tokens_nil]
    · refine ⟨stmt (depth + 1) only ++ [.lineEnd true], ?_, readsBody_cons inner readsBody_nil⟩
      rw [tokens_bracedLines]
  | first :: second :: rest, valid => by
    have head := reads_stmt (depth + 1) first valid.1
    have tail := reads_stmts (depth + 1) (second :: rest) valid.2
    rw [braces]
    · exact ⟨_, tokens_bracedLines .., readsBody_cons head tail⟩
    · simp

theorem reads_stmt (depth : Nat) : (tree : PlainStmt) →
    tree.WellFormed (.plain IsFloatWord) false →
    ReadsStmt (stmt depth tree) (tree.reform .reread)
  | .define _ _ name parameters body, valid =>
    readsStmt_define depth name (reads_params depth parameters valid.2.1)
      (reads_stmts (depth + 1) body valid.2.2)
  | .expression _ value, valid => readsStmt_expression depth (reads_expr depth value valid).head
  | .conditional _ _ _ _ _ _ true, valid => absurd (valid.2.2.2.2 rfl).1 Bool.false_ne_true
  | .conditional _ condition [] elseBody negated _ false, valid => by
    have readCondition := (reads_expr depth condition valid.1).operand
    have readElse := reads_elseLines depth (!negated) elseBody valid.2.2.1
    exact reads_conditional readCondition readsBody_nil nofun readElse
  | .conditional _ condition [only] elseBody negated _ false, valid => by
    have readCondition := (reads_expr depth condition valid.1).operand
    have readInner := reads_stmt (depth + 1) only valid.2.1.1
    have readOnly := reads_stmt depth only valid.2.1.1
    have readElse := reads_elseLines depth (!negated) elseBody valid.2.2.1
    exact reads_conditional readCondition (readsBody_cons readInner readsBody_nil)
      (by rintro _ ⟨⟩; exact readOnly) readElse
  | .conditional _ condition (first :: second :: rest) elseBody negated _ false, valid => by
    have readCondition := (reads_expr depth condition valid.1).operand
    have readFirst := reads_stmt (depth + 1) first valid.2.1.1
    have readRest := reads_stmts (depth + 1) (second :: rest) valid.2.1.2
    have readElse := reads_elseLines depth (!negated) elseBody valid.2.2.1
    exact reads_conditional readCondition (readsBody_cons readFirst readRest) nofun readElse
  | .whileLoop _ condition body, valid =>
    readsStmt_while depth (readsExpr_atLevel (reads_expr depth condition valid.1).operand)
      (reads_stmts (depth + 1) body valid.2)
  | .jump _ kind none, _ => readsStmt_jump_none depth kind
  | .jump _ kind (some value), valid =>
    readsStmt_jump depth kind (readsExpr_atLevel (reads_expr depth value valid).operand)
  | .bare _, valid => False.elim valid

theorem reads_elseLines (depth : Nat) (chain : Bool) : (trees : List PlainStmt) →
    stmtsWellFormed (.plain IsFloatWord) chain trees →
    ReadsElse chain (elseLines depth chain trees) (reformStmts .reread trees)
  | [], _ => readsElse_nil chain
  | [.conditional _ condition thenBody elseBody negated modifier true], valid => by
    obtain ⟨⟨conditionValid, thenValid, elseValid, marked, chained⟩, -⟩ := valid
    obtain ⟨inChain, rfl⟩ := chained rfl
    obtain rfl : chain = true := (Bool.and_eq_true_iff.1 inChain).1
    have readCondition := (reads_expr depth condition conditionValid).operand
    have readThen := reads_stmts (depth + 1) thenBody thenValid
    have readElse := reads_elseLines depth true elseBody elseValid
    have below : Reform.reread.modifier modifier thenBody elseBody = false := by
      cases modifier with
      | false => rfl
      | true => exact absurd (marked rfl).2.2 (by decide)
    have whole := readsElse_elsif (@readsExpr_atLevel Level.keyword _ _ _ readCondition) depth
      readThen readElse
    rw [elseLines, if_pos (show (true && true && !false) = true from rfl), reformStmts,
      Stmt.reform, below]
    exact whole
  | [.conditional loc condition thenBody elseBody negated modifier false], valid => by
    obtain ⟨⟨conditionValid, thenValid, elseValid, marked, -⟩, -⟩ := valid
    have line := reads_stmt (depth + 1)
      (.conditional loc condition thenBody elseBody negated modifier false)
      ⟨conditionValid, thenValid, elseValid, marked, nofun⟩
    rw [elseLines, if_neg (by simp)]
    exact readsElse_lines depth chain (readsBody_cons line readsBody_nil)
  | [.define loc scope name parameters body], valid => by
    have line := reads_stmt (depth + 1) (.define loc scope name parameters body) valid.1
    exact readsElse_lines depth chain (readsBody_cons line readsBody_nil)
  | [.expression loc value], valid => by
    have line := reads_stmt (depth + 1) (.expression loc value) valid.1
    exact readsElse_lines depth chain (readsBody_cons line readsBody_nil)
  | [.whileLoop loc condition body], valid => by
    have line := reads_stmt (depth + 1) (.whileLoop loc condition body) valid.1
    exact readsElse_lines depth chain (readsBody_cons line readsBody_nil)
  | [.jump loc kind value], valid => by
    have line := reads_stmt (depth + 1) (.jump loc kind value) (by cases value <;> exact valid.1)
    exact readsElse_lines depth chain (readsBody_cons line readsBody_nil)
  | [.bare _], valid => False.elim valid.1
  | first :: second :: rest, valid => by
    have head := reads_stmt (depth + 1) first (Bool.and_false chain ▸ valid.1)
    have tail := reads_stmts (depth + 1) (second :: rest) valid.2
    rw [elseLines_of_plain (.inl (List.cons_ne_nil _ _))]
    exact readsElse_lines depth chain (readsBody_cons head tail)

theorem reads_stmts (depth : Nat) : (trees : List PlainStmt) →
    stmtsWellFormed (.plain IsFloatWord) false trees →
    ReadsBody (stmts depth trees) (reformStmts .reread trees)
  | [], _ => readsBody_nil
  | first :: rest, valid =>
    readsBody_cons (reads_stmt depth first valid.1) (reads_stmts depth rest valid.2)

end

/-- The blank lines of a program carry no tokens. -/
theorem tokens_program (trees : PlainProgram) :
    tokens (program trees) = tokens (stmts 0 trees) := by
  fun_induction program trees with
  | case1 => rfl
  | case2 only => rfl
  | case3 first rest _ ih =>
    simp only [stmts, tokens_append, tokens_lineEnd_true, ih]
    split <;> rfl

theorem ReadsBody.parseTokens {row : Row} {trees : PlainProgram} (reads : ReadsBody row trees) :
    parseTokens (tokens row) = .ok trees := by
  have read := reads.read next_nil
  rw [List.append_nil] at read
  have whole := read (parseFuel (tokens row)) (by unfold parseFuel; omega)
  unfold Hoist.parseTokens
  rw [show (readStmts (parseFuel (tokens row))).run (tokens row) = .ok (.ok trees, []) from whole]

theorem parseTokens_program {trees : PlainProgram}
    (valid : stmtsWellFormed (.plain IsFloatWord) false trees) :
    parseTokens (tokens (program trees)) = .ok (reformStmts .reread trees) := by
  rw [tokens_program]
  exact (reads_stmts 0 trees valid).parseTokens

end Hoist
