import Hoist.Proofs.Syntax.JoinedRows
import Hoist.Proofs.Syntax.Reform
import Hoist.Proofs.Syntax.Settling

/-!
Reading the rows of written trees, one form at a time.  Each lemma takes what the parts of a row are
read as and says what the row is read as.  What comes after the row is carried along: an operand is
handed to the search for suffixes or operators at the level where its own operators end, and a
statement to the conditions that may follow it.
-/

namespace Hoist

open List

open Reader Lexeme Piece Row

/-- A token of written text, without a place. -/
abbrev written (kind : TokenKind) (spelling : String) : Token :=
  ⟨kind, .ofString spelling, default, 0, 0⟩

/-- What may follow a name that is no call. -/
def TokenKind.leavesBare : TokenKind → Bool
  | .leftParen | .leftBrace | .kwDo => false
  | _ => true

/-- Rows that are read as a tree by every reader of expressions, at a level of their own. -/
def Reads (level : Nat) (row : Row) (tree : PlainExpr) : Prop :=
  ∀ ⦃floor : Nat⦄ ⦃accepts : List Token → Prop⦄ ⦃run : Nat → Reader Phrase⦄,
    ReadsFrom floor accepts run → floor ≤ level →
    ∀ ⦃rest : List Token⦄ ⦃cost : Nat⦄ ⦃result : Except (List Token) (Phrase × List Token)⦄,
      tightness rest ≤ Level.after level → accepts rest →
      Settles cost (fun fuel => climb fuel (Level.after level) floor (settled tree) rest) result →
      Settles (cost + 64 * (tokens row).length + 8)
        (fun fuel => run fuel (tokens row ++ rest)) result

def ReadsPostfix (row : Row) (tree : PlainExpr) : Prop :=
  ∀ ⦃commands : Bool⦄ ⦃rest : List Token⦄ ⦃cost : Nat⦄
    ⦃result : Except (List Token) (Phrase × List Token)⦄, Next TokenKind.leavesBare rest →
    Settles cost (fun fuel => readSuffixes fuel commands (settled tree) rest) result →
    Settles (cost + 64 * (tokens row).length)
      (fun fuel => readPostfix fuel commands (tokens row ++ rest)) result

/-- Rows of expressions that bind at a level. -/
structure ReadsExpr (level : Nat) (row : Row) (tree : PlainExpr) : Prop where
  positive : Level.keyword ≤ level
  bounded : level ≤ Level.postfixForm
  starts : Starts TokenKind.startsExpression (tokens row)
  reads : Reads level row tree
  postfixed : level = Level.postfixForm →
    Starts TokenKind.startsPrimary (tokens row) ∧ ReadsPostfix row tree

variable {rest : List Token} {row lines : Row} {tree : PlainExpr} {level : Nat} {rows : List Row}
  {trees : List PlainStmt}

theorem leavesBare_of_tightness (loose : tightness rest < Level.postfixForm) :
    Next TokenKind.leavesBare rest := by
  cases rest with
  | nil => exact next_nil
  | cons token more =>
    rw [next_cons]
    rw [tightness] at loose
    cases kind : token.kind <;> first | rfl | simp [kind, TokenKind.tightness] at loose

theorem settles_suffixes_stop {commands : Bool} {value : Phrase} {tokens : List Token}
    (loose : tightness tokens < Level.postfixForm) :
    Settles 1 (fun fuel => readSuffixes fuel commands value tokens) (.ok (value, tokens)) := by
  refine settles_step fun fuel (_ : 0 ≤ fuel) => ?_
  cases tokens with
  | nil => rfl
  | cons token rest =>
    obtain ⟨kind, text, loc, start, stop⟩ := token
    cases kind <;> first | rfl | exact absurd loose (Nat.lt_irrefl _)

theorem readsExpr_of_postfixForm (starts : Starts TokenKind.startsPrimary (tokens row))
    (read : ReadsPostfix row tree) :
    ReadsExpr Level.postfixForm row tree where
  positive := by decide
  bounded := Nat.le_refl _
  starts := starts.mono fun _ fits => (Bool.and_eq_true_iff.1 fits).1
  postfixed _ := ⟨starts, read⟩
  reads := by
    intro floor accepts run starter _ rest cost result loose accepted settles
    have loose : tightness rest < Level.postfixForm := Nat.lt_succ_of_le loose
    have whole := starter.primary (starts.append rest) accepted loose
      (fun commands => @read commands _ _ _ (leavesBare_of_tightness loose)
        (settles_suffixes_stop loose)) settles
    exact whole.mono (by omega)

theorem readsExpr_of_primary (starts : Starts TokenKind.startsPrimary (tokens row))
    (read : ∀ fuel rest, 64 * (tokens row).length ≤ fuel + 2 → Next TokenKind.leavesBare rest →
      readPrimary (fuel + 1) (tokens row ++ rest) = .ok (settled tree, rest)) :
    ReadsExpr Level.postfixForm row tree := by
  refine readsExpr_of_postfixForm starts ?_
  intro commands rest cost result bare settles fuel enough
  have nonempty : 0 < (tokens row).length := by
    obtain ⟨token, more, same, -⟩ := starts
    simp [same]
  obtain ⟨fuel, rfl⟩ : ∃ less, fuel = less + 1 + 1 := ⟨fuel - 2, by omega⟩
  simp only [readPostfix, run_bind, read fuel rest (by omega) bare, ok_bind]
  exact settles _ (by omega)

theorem readsExpr_of_suffix {value suffix : Row} {valueTree : PlainExpr}
    (readValue : ReadsExpr Level.postfixForm value valueTree)
    (starts : Starts TokenKind.leavesBare (tokens suffix))
    (read : ∀ commands fuel rest, 64 * (tokens suffix).length ≤ fuel + 1 →
      Next TokenKind.leavesBare rest →
      readSuffixes (fuel + 1) commands (settled valueTree) (tokens suffix ++ rest) =
        readSuffixes fuel commands (settled tree) rest) :
    ReadsExpr Level.postfixForm (value ++ suffix) tree := by
  obtain ⟨primary, postfixed⟩ := readValue.postfixed rfl
  refine readsExpr_of_postfixForm (by rw [tokens_append]; exact primary.append _) ?_
  intro commands rest cost result bare settles
  have first : Next TokenKind.leavesBare (tokens suffix ++ rest) := by
    obtain ⟨token, more, same, fits, -⟩ := starts
    simpa [same] using fits
  have nonempty : 0 < (tokens suffix).length := by
    obtain ⟨token, more, same, -⟩ := starts
    simp [same]
  have step : Settles (cost + 64 * (tokens suffix).length - 1 + 1)
      (fun fuel => readSuffixes fuel commands (settled valueTree) (tokens suffix ++ rest)) result :=
    settles_step fun fuel enough =>
      (read commands fuel rest (by omega) bare).trans (settles fuel (by omega))
  have whole := postfixed first step
  rw [tokens_append, append_assoc]
  exact whole.mono (by rw [length_append]; omega)

theorem Level.after_range (level : Nat) :
    level - 1 ≤ Level.after level ∧ Level.after level ≤ level := by
  unfold Level.after
  split <;> omega

/-- A whole operand, in front of something that binds less tightly than it. -/
theorem ReadsExpr.operand {level floor : Nat} {row : Row} {tree : PlainExpr}
    (read : ReadsExpr level row tree) (reached : floor ≤ level) {rest : List Token}
    (loose : tightness rest < floor) :
    Settles (64 * (tokens row).length + 24) (fun fuel => readExpr fuel floor (tokens row ++ rest))
      (.ok (settled tree, rest)) := by
  have after := Level.after_range level
  have bounded : level ≤ 13 := read.bounded
  have stop := @settles_climb_stop (settled tree) rest floor loose (by omega) (Level.after level)
  exact (read.reads (readsFrom_readExpr floor) reached (by omega) trivial stop).mono (by omega)

/-- An operand in front of something that ends every expression. -/
theorem ReadsExpr.closed {level : Nat} {row : Row} {tree : PlainExpr}
    (read : ReadsExpr level row tree) {rest : List Token} (loose : tightness rest = 0) :
    Settles (64 * (tokens row).length + 24)
      (fun fuel => readExpr fuel Level.keyword (tokens row ++ rest)) (.ok (settled tree, rest)) :=
  read.operand read.positive (loose ▸ Nat.zero_lt_one)

theorem readsExpr_inParens (read : ReadsExpr level row tree) :
    ReadsExpr Level.postfixForm (inParens row) tree := by
  refine readsExpr_of_primary (by simp [inParens, leftParen, TokenKind.startsPrimary]; decide) ?_
  intro fuel rest enough _
  have inner := @ReadsExpr.closed _ _ _ read (written .rightParen ")" :: rest) rfl
  simp [inParens, leftParen, rightParen] at enough
  simp [inParens, leftParen, rightParen, readPrimary, inner fuel (by omega)]
  rfl

def reachedLevel (level own : Nat) : Nat := if own < level then Level.postfixForm else own

theorem le_reachedLevel {own : Nat} (bounded : level ≤ Level.postfixForm) :
    level ≤ reachedLevel level own := by
  unfold reachedLevel
  split <;> omega

theorem readsExpr_atLevel {level own : Nat} {row : Row} {tree : PlainExpr}
    (read : ReadsExpr own row tree) :
    ReadsExpr (reachedLevel level own) (atLevel level own row) tree := by
  unfold reachedLevel atLevel
  split
  · exact readsExpr_inParens read
  · exact read

theorem readsExpr_of_prefix {own : Nat} {token : Token} {prefixed : Row}
    {operand : PlainExpr} (read : ReadsExpr own row operand) (positive : Level.keyword ≤ level)
    (bounded : level < Level.postfixForm) (reached : level ≤ own)
    (after : Level.after level + 1 = level) (split : tokens prefixed = token :: tokens row)
    (starts : token.kind.isPrefix = true) (noPlace : token.loc = default)
    (step : ∀ floor fuel rest result, floor ≤ level →
      Settles fuel (fun fuel => readExpr fuel level (tokens row ++ rest))
        (.ok (settled operand, rest)) →
      Settles fuel (fun fuel => climb fuel (Level.after level) floor (settled tree) rest) result →
      readExpr (fuel + 2) floor (token :: (tokens row ++ rest)) = result) :
    ReadsExpr level prefixed tree where
  positive := positive
  bounded := bounded.le
  starts := by
    rw [split, starts_cons]
    refine ⟨?_, noPlace⟩
    cases kind : token.kind <;> first | rfl | simp [kind, TokenKind.isPrefix] at starts
  postfixed same := absurd same bounded.ne
  reads := by
    intro floor accepts run starter low rest cost result loose _ settles
    have operand := read.operand reached (show tightness rest < level by omega)
    have inner : Settles (cost + 64 * (tokens row).length + 26)
        (fun fuel => readExpr fuel floor (token :: (tokens row ++ rest))) result := by
      intro fuel enough
      obtain ⟨fuel, rfl⟩ : ∃ less, fuel = less + 2 := ⟨fuel - 2, by omega⟩
      exact step floor fuel rest result low (operand.mono (by omega)) (settles.mono (by omega))
    have whole := starter.prefixed (starts_cons.2 ⟨starts, noPlace⟩) inner
    rw [split]
    exact whole.mono (by rw [length_cons]; omega)

theorem readsExpr_not (read : ReadsExpr level row tree) (reached : Level.negation ≤ level) :
    ReadsExpr Level.negation (conditionHead .kwNot "not" row)
      (.unary default .keywordNot tree) := by
  refine readsExpr_of_prefix read (by decide) (by decide) reached rfl rfl rfl rfl ?_
  intro floor fuel rest result low operand settles
  rw [readExpr]
  simp [Nat.not_lt.2 low, operand]
  exact settles _ (by omega)

theorem readsExpr_unary {op : UnaryOp} (known : op.isKnown = true) (other : op ≠ .keywordNot)
    (read : ReadsExpr level row tree) (reached : Level.unary ≤ level) :
    ReadsExpr Level.unary (spelled op.kind op.spelling :: row) (.unary default op tree) := by
  refine readsExpr_of_prefix read (by decide) (by decide) reached rfl rfl ?_ rfl ?_
  · cases op with
    | negate | bang => rfl
    | keywordNot | other => contradiction
  · intro floor fuel rest result low operand settles
    have unary : readUnary (fuel + 1) floor op
        (written op.kind op.spelling :: (tokens row ++ rest)) = result := by
      simp [readUnary, Nat.not_lt.2 low, operand]
      exact settles _ (Nat.le_refl _)
    rw [readExpr]
    cases op with
    | negate | bang => exact unary
    | keywordNot | other => contradiction

theorem tightness_ne_unary (tokens : List Token) : tightness tokens ≠ Level.unary := by
  cases tokens with
  | nil => decide
  | cons token rest =>
    rw [tightness]
    cases token.kind <;> decide

variable {op : BinaryOp} {ending : Token} {params : List PlainParam} {stmt : PlainStmt}

theorem le_after_operandLevels (binds : op.level? = some level) :
    level ≤ Level.after (Printer.operandLevels op level).1 := by
  cases op <;> simp only [BinaryOp.level?, Option.some.injEq, reduceCtorEq] at binds
  all_goals
    subst binds
    decide

theorem after_le_operandLevels (binds : op.level? = some level) :
    Level.after level < (Printer.operandLevels op level).2 ∨
      Level.after level = Level.unary ∧ (Printer.operandLevels op level).2 = Level.unary := by
  cases op <;> simp only [BinaryOp.level?, Option.some.injEq, reduceCtorEq] at binds
  all_goals
    subst binds
    decide

/-- A row whose first operand is joined to others by an operator. -/
theorem readsExpr_of_infix {own : Nat} {token : Token} {words : List Token} {left others : Row}
    {leftTree : PlainExpr} (read : ReadsExpr own left leftTree) (positive : Level.keyword ≤ level)
    (bounded : level < Level.postfixForm) (reached : level ≤ Level.after own)
    (split : tokens others = token :: words) (tight : token.kind.tightness = level)
    (step : ∀ floor fuel rest, floor ≤ level → tightness rest ≤ Level.after level →
      64 * words.length + 24 ≤ fuel →
      climb (fuel + 1) level floor (settled leftTree) (token :: (words ++ rest)) =
        climb fuel (Level.after level) floor (settled tree) rest) :
    ReadsExpr level (left ++ others) tree where
  positive := positive
  bounded := bounded.le
  starts := by
    rw [tokens_append]
    exact read.starts.append _
  postfixed same := absurd same bounded.ne
  reads := by
    intro floor accepts run starter low rest cost result loose _ settles
    have after := Level.after_range own
    have high : own ≤ 13 := read.bounded
    have positive : 1 ≤ level := positive
    have joined : Settles (cost + 64 * words.length + 24 + 1)
        (fun fuel => climb fuel level floor (settled leftTree) (token :: (words ++ rest))) result :=
      settles_step fun fuel enough =>
        (step floor fuel rest low loose (by omega)).trans (settles fuel (by omega))
    have accepted := starter.operator token (words ++ rest) (by omega)
    have tight : tightness (token :: (words ++ rest)) = level := tight
    have whole := read.reads starter (by omega) (by omega) accepted
      (settles_climb_down reached tight.le joined)
    rw [tokens_append, split, append_assoc, cons_append]
    exact whole.mono (by rw [length_append, length_cons]; omega)

theorem readsExpr_binary {leftLevel rightLevel : Nat} {left right : Row}
    {leftTree rightTree : PlainExpr} (binds : op.level? = some level)
    (readLeft : ReadsExpr leftLevel left leftTree)
    (readRight : ReadsExpr rightLevel right rightTree)
    (leftReached : (Printer.operandLevels op level).1 ≤ leftLevel)
    (rightReached : (Printer.operandLevels op level).2 ≤ rightLevel) :
    ReadsExpr level (left ++ .gap 0 :: spelled op.kind op.spelling :: .gap 0 :: right)
      (.binary default op leftTree rightTree) := by
  have range := BinaryOp.level_range binds
  have reached := (le_after_operandLevels binds).trans (Level.after_mono leftReached)
  refine readsExpr_of_infix readLeft (show 1 ≤ level by omega)
    (show level < 13 by omega) reached rfl
    (tightness_kind binds) ?_
  intro floor fuel rest low loose enough
  have looser : tightness rest < (Printer.operandLevels op level).2 := by
    have := tightness_ne_unary rest
    have := after_le_operandLevels binds
    omega
  exact climb_binary binds rfl rfl low (readRight.operand rightReached looser fuel enough)

theorem readsExpr_range {startLevel stopLevel : Nat} {start stop : Row} {exclusive : Bool}
    {startTree stopTree : PlainExpr} (readStart : ReadsExpr startLevel start startTree)
    (readStop : ReadsExpr stopLevel stop stopTree)
    (startReached : Level.disjunction ≤ startLevel) (stopReached : Level.disjunction ≤ stopLevel) :
    ReadsExpr Level.range
      (start ++ (if exclusive then spelled .dot3 "..." else spelled .dot2 "..") :: stop)
      (.range default startTree stopTree exclusive) := by
  have reached : Level.range ≤ Level.after startLevel :=
    Nat.le_trans (by decide) (Level.after_mono startReached)
  have step : ∀ (dots : Token) (floor fuel : Nat) (rest : List Token),
      (dots.kind = if exclusive then .dot3 else .dot2) → floor ≤ Level.range →
      tightness rest ≤ Level.after Level.range → 64 * (tokens stop).length + 24 ≤ fuel →
      climb (fuel + 1) Level.range floor (settled startTree) (dots :: (tokens stop ++ rest)) =
        climb fuel (Level.after Level.range) floor
          (settled (.range default startTree stopTree exclusive)) rest := by
    intro dots floor fuel rest kind low loose enough
    exact climb_range kind low (readStop.operand stopReached
      (Nat.lt_of_le_of_lt loose (by decide)) fuel enough)
  cases exclusive <;>
    exact readsExpr_of_infix readStart (by decide) (by decide) reached rfl rfl
      fun floor fuel rest => step _ floor fuel rest rfl

theorem readsExpr_ternary {conditionLevel thenLevel elseLevel : Nat}
    {condition thenValue elseValue : Row} {conditionTree thenTree elseTree : PlainExpr}
    (readCondition : ReadsExpr conditionLevel condition conditionTree)
    (readThen : ReadsExpr thenLevel thenValue thenTree)
    (readElse : ReadsExpr elseLevel elseValue elseTree)
    (conditionReached : Level.range ≤ conditionLevel) (thenReached : Level.ternary ≤ thenLevel)
    (elseReached : Level.ternary ≤ elseLevel) :
    ReadsExpr Level.ternary
      (condition ++ .gap 0 :: spelled .question "?" :: .gap 0 ::
        (thenValue ++ .gap 0 :: spelled .colon ":" :: .gap 0 :: elseValue))
      (.ternary default conditionTree thenTree elseTree) := by
  have reached : Level.ternary ≤ Level.after conditionLevel :=
    Nat.le_trans (by decide) (Level.after_mono conditionReached)
  have split : tokens (.gap 0 :: spelled .question "?" :: .gap 0 ::
      (thenValue ++ .gap 0 :: spelled .colon ":" :: .gap 0 :: elseValue)) =
        written .question "?" :: (tokens thenValue ++ written .colon ":" :: tokens elseValue) := by
    simp
  refine readsExpr_of_infix readCondition (by decide) (by decide) reached split rfl ?_
  intro floor fuel rest low loose enough
  rw [length_append, length_cons] at enough
  rw [append_assoc, cons_append]
  have readThen := @ReadsExpr.operand _ _ _ _ readThen thenReached
    (written .colon ":" :: (tokens elseValue ++ rest)) (Nat.zero_lt_succ _) fuel (by omega)
  have readElse := readElse.operand elseReached
    (Nat.lt_of_le_of_lt loose (show Level.after Level.ternary < Level.ternary by decide)) fuel
    (by omega)
  exact climb_ternary rfl rfl low readThen readElse

/-- Tokens that start an argument. -/
def TokenKind.startsArg (kind : TokenKind) : Bool := kind.startsExpression || kind == .star

/-- Rows of arguments. -/
structure ReadsArg (row : Row) (tree : PlainExpr) : Prop where
  starts : Starts TokenKind.startsArg (tokens row)
  read : ∀ ⦃rest : List Token⦄, tightness rest = 0 →
    Settles (64 * (tokens row).length + 25) (fun fuel => readArg fuel (tokens row ++ rest))
      (.ok (.ok tree, rest))

theorem ReadsExpr.argument (read : ReadsExpr level row tree) : ReadsArg row tree where
  starts := read.starts.mono fun _ fits => Bool.or_eq_true_iff.2 (.inl fits)
  read := by
    intro rest loose
    refine settles_step fun fuel enough => ?_
    simp [readArg, read.starts.skips (show TokenKind.star.startsExpression = false from rfl) rest,
      read.closed loose fuel enough]
    rfl

theorem readsArg_splat (read : ReadsExpr level row tree) :
    ReadsArg (spelled .star "*" :: row) (.splat default tree) where
  starts := ⟨_, _, rfl, rfl, rfl⟩
  read := by
    intro rest loose
    refine settles_step fun fuel enough => ?_
    simp only [tokens_spelled, length_cons] at enough
    simp [readArg, read.closed loose fuel (by omega)]
    rfl

theorem tokens_separated_cons {first second : Row} {rest : List Row} :
    tokens (separated (first :: second :: rest)) =
      tokens first ++ written .comma "," :: tokens (separated (second :: rest)) := by
  rw [separated, tokens_append]
  · rfl
  · simp

/-- The first row of several decides how they start. -/
theorem starts_separated {allowed : TokenKind → Bool} (starts : Starts allowed (tokens row))
    (rows : List Row) : Starts allowed (tokens (separated (row :: rows))) := by
  cases rows with
  | nil => exact starts
  | cons second rows =>
    rw [tokens_separated_cons]
    exact starts.append _

/-- Kinds that close a list of arguments. -/
def TokenKind.closesArgs : TokenKind → Bool
  | .rightParen | .rightBracket => true
  | _ => false

theorem settles_args {trees : List PlainExpr} (each : List.Forall₂ ReadsArg rows trees)
    (nonempty : rows ≠ []) (closes : ending.kind.closesArgs = true) (rest : List Token) :
    Settles (64 * (tokens (separated rows)).length + 32)
      (fun fuel => readArgs fuel ending.kind (tokens (separated rows) ++ ending :: rest))
      (.ok (trees.map .ok, ending :: rest)) := by
  have noComma : Skips .comma (ending :: rest) := by
    rw [skips_cons]
    rintro kind
    simp [kind, TokenKind.closesArgs] at closes
  have loose : tightness (ending :: rest) = 0 := by
    rw [tightness]
    cases kind : ending.kind <;> simp_all [TokenKind.closesArgs, TokenKind.tightness]
  have noStart : ending.kind.startsArg = false := by
    cases kind : ending.kind <;> simp_all [TokenKind.closesArgs, TokenKind.startsArg,
      TokenKind.startsExpression]
  induction each with
  | nil => contradiction
  | @cons row tree rows trees first others ih =>
    refine settles_step fun fuel enough => ?_
    cases others with
    | nil =>
      simp only [separated] at enough ⊢
      simp [readArgs, first.read loose fuel (by omega), noComma]
    | @cons second _ others _ secondRead _ =>
      have more := (starts_separated secondRead.starts others).skips noStart (ending :: rest)
      rw [tokens_separated_cons, length_append, length_cons] at enough
      have head := @ReadsArg.read _ _ first (written .comma "," ::
        (tokens (separated (second :: others)) ++ ending :: rest)) rfl fuel (by omega)
      rw [tokens_separated_cons]
      simp [readArgs, head, more, ih (by simp) fuel (by omega)]

theorem settles_openArgs {trees : List PlainExpr} (each : List.Forall₂ ReadsArg rows trees)
    (nonempty : rows ≠ []) (loose : tightness rest = 0) (last : Skips .comma rest) :
    Settles (64 * (tokens (separated rows)).length + 32)
      (fun fuel => readOpenArgs fuel (tokens (separated rows) ++ rest))
      (.ok (trees.map .ok, rest)) := by
  induction each with
  | nil => contradiction
  | @cons row tree rows trees first others ih =>
    refine settles_step fun fuel enough => ?_
    cases others with
    | nil =>
      simp only [separated] at enough ⊢
      simp [readOpenArgs, first.read loose fuel (by omega), last]
    | @cons second _ others =>
      rw [tokens_separated_cons, length_append, length_cons] at enough
      have head := @ReadsArg.read _ _ first (written .comma "," ::
        (tokens (separated (second :: others)) ++ rest)) rfl fuel (by omega)
      rw [tokens_separated_cons]
      simp [readOpenArgs, head, ih (by simp) fuel (by omega)]

/-- The arguments of a call, if a list of them is written. -/
def writtenArgs (parens : Bool) (trees : List PlainExpr) : Option (List PlainExpr) :=
  if parens || !trees.isEmpty then some trees else none

@[simp] theorem writtenArgs_getD (parens : Bool) (trees : List PlainExpr) :
    (writtenArgs parens trees).getD [] = trees := by
  cases trees with
  | nil => cases parens <;> rfl
  | cons first rest => simp [writtenArgs]

@[simp] theorem writtenArgs_isSome (parens : Bool) (trees : List PlainExpr) :
    (writtenArgs parens trees).isSome = (parens || !trees.isEmpty) := by
  unfold writtenArgs
  split <;> simp_all

theorem settles_argList {trees : List PlainExpr} (parens : Bool)
    (each : List.Forall₂ ReadsArg rows trees) (bare : Skips .leftParen rest) :
    Settles (64 * (tokens (argList parens rows)).length + 1)
      (fun fuel => readCallArgs fuel (tokens (argList parens rows) ++ rest))
      (.ok ((writtenArgs parens trees).map (List.map .ok), rest)) := by
  refine settles_step fun fuel enough => ?_
  cases each with
  | nil => cases parens <;> simp [argList, readCallArgs, bare, leftParen, rightParen, writtenArgs]
  | @cons row tree rows trees first others =>
    have read := settles_args (.cons first others) (cons_ne_nil _ _)
      (show (written .rightParen ")").kind.closesArgs = true from rfl) rest
    have nonempty := (starts_separated first.starts rows).skips
      (show TokenKind.rightParen.startsArg = false from rfl) (written .rightParen ")" :: rest)
    simp [argList, inParens, leftParen, rightParen] at enough
    simp [argList, inParens, leftParen, rightParen, readCallArgs, nonempty, read fuel (by omega),
      writtenArgs]

/-- Rows of a block after a call, or none. -/
def ReadsBlock (row : Row) (block : Option PlainBlock) : Prop :=
  row = [] ∧ block = none ∨
    ∃ inner, block = some inner ∧ (∃ more, tokens row = written .leftBrace "\x7b" :: more) ∧
      ∀ rest, Settles (64 * (tokens row).length) (fun fuel => readBlock? fuel (tokens row ++ rest))
        (.ok (some (.ok inner), rest))

theorem readBlock?_none (bare : Next TokenKind.leavesBare rest) (fuel : Nat) :
    readBlock? (fuel + 1) rest = .ok (none, rest) := by
  cases rest with
  | nil => rfl
  | cons token more =>
    have noBrace : token.kind ≠ .leftBrace := skips_cons.1 (bare.skips rfl)
    have noDo : token.kind ≠ .kwDo := skips_cons.1 (bare.skips rfl)
    simp [readBlock?, noBrace, noDo]

section Block

variable {row : Row} {block : Option PlainBlock} {rest : List Token}

theorem ReadsBlock.settles (read : ReadsBlock row block) (bare : Next TokenKind.leavesBare rest) :
    Settles (64 * (tokens row).length + 1) (fun fuel => readBlock? fuel (tokens row ++ rest))
      (.ok (block.map .ok, rest)) := by
  rcases read with ⟨rfl, rfl⟩ | ⟨inner, rfl, -, read⟩
  · exact settles_step fun fuel (_ : 0 ≤ fuel) => readBlock?_none bare fuel
  · exact (read rest).mono (by omega)

theorem ReadsBlock.bare (read : ReadsBlock row block) (bare : Next TokenKind.leavesBare rest) :
    Skips .leftParen (tokens row ++ rest) := by
  rcases read with ⟨rfl, rfl⟩ | ⟨inner, rfl, ⟨more, words⟩, -⟩
  · exact bare.skips rfl
  · simp [words]

end Block

@[simp] theorem word_ofString (kind : TokenKind) (spelling : String) (loc : Loc)
    (start stop : Nat) :
    (⟨kind, .ofString spelling, loc, start, stop⟩ : Token).word = spelling :=
  Text.toString_ofString spelling

section Call

variable {name : String} {parens : Bool} {rows : List Row} {trees : List PlainExpr} {row : Row}
  {block : Option PlainBlock} (each : List.Forall₂ ReadsArg rows trees)
    (read : ReadsBlock row block)

include each read

/-- A call without a receiver. -/
theorem readsExpr_call (isCall : trees = [] → block = none → parens = true) :
    ReadsExpr Level.postfixForm (spelled .name name :: (argList parens rows ++ row))
      (.call default none name trees block (parens || !trees.isEmpty)) := by
  refine readsExpr_of_primary (by simp; rfl) fun fuel rest enough bare => ?_
  simp only [tokens_spelled, tokens_append, length_cons, length_append] at enough
  have called : ¬ (writtenArgs parens trees = none ∧ block = none) := by
    rintro ⟨noArgs, noBlock⟩
    cases trees with
    | nil => simp [writtenArgs, isCall rfl noBlock] at noArgs
    | cons first rest => simp [writtenArgs] at noArgs
  simp [readPrimary, settles_argList parens each (read.bare bare) fuel (by omega),
    read.settles bare fuel (by omega), called, waitAll_getD]
  rfl

theorem readsExpr_method {receiver : Row} {receiverTree : PlainExpr}
    (readReceiver : ReadsExpr Level.postfixForm receiver receiverTree) :
    ReadsExpr Level.postfixForm
      (receiver ++ spelled .dot "." :: spelled .name name :: (argList parens rows ++ row))
      (.call default (some receiverTree) name trees block (parens || !trees.isEmpty)) := by
  refine readsExpr_of_suffix readReceiver (by simp; rfl) fun commands fuel rest enough bare => ?_
  simp only [tokens_spelled, tokens_append, length_cons, length_append] at enough
  simp [readSuffixes, settles_argList parens each (read.bare bare) fuel (by omega),
    read.settles bare fuel (by omega), waitAll_getD, settled]

end Call

section Brackets

variable {rows : List Row} {trees : List PlainExpr} (each : List.Forall₂ ReadsArg rows trees)

include each

theorem readsExpr_index {value : Row} {valueTree : PlainExpr}
    (readValue : ReadsExpr Level.postfixForm value valueTree) (nonempty : rows ≠ []) :
    ReadsExpr Level.postfixForm
      (value ++ spelled .leftBracket "[" :: (separated rows ++ [spelled .rightBracket "]"]))
      (.index default valueTree trees) := by
  refine readsExpr_of_suffix readValue (by simp; rfl) fun commands fuel rest enough _ => ?_
  have read := settles_args each nonempty
    (show (written .rightBracket "]").kind.closesArgs = true from rfl) rest
  simp at enough
  simp [readSuffixes, read fuel (by omega), settled]

theorem readsExpr_array : ReadsExpr Level.postfixForm
      (spelled .leftBracket "[" :: (separated rows ++ [spelled .rightBracket "]"]))
      (.array default trees) := by
  refine readsExpr_of_primary (by simp; rfl) fun fuel rest enough _ => ?_
  cases each with
  | nil => simp [separated, readPrimary, settled, waitAll]; rfl
  | @cons row tree rows trees first others =>
    have read := settles_args (.cons first others) (cons_ne_nil _ _)
      (show (written .rightBracket "]").kind.closesArgs = true from rfl) rest
    have nonempty := (starts_separated first.starts rows).skips
      (show TokenKind.rightBracket.startsArg = false from rfl) (written .rightBracket "]" :: rest)
    simp at enough
    simp [readPrimary, nonempty, read fuel (by omega), settled, -map_cons]

end Brackets

/-- The default of a parameter, which may be left out. -/
def ReadsDefault (row : Row) (value : Option PlainExpr) : Prop :=
  row = [] ∧ value = none ∨
    ∃ level more tree, row = .gap 0 :: spelled .assign "=" :: .gap 0 :: more ∧ value = some tree ∧
      ReadsExpr level more tree

/-- Rows of parameters. -/
def ReadsParam (row : Row) (param : PlainParam) : Prop :=
  ∃ name others value, row = spelled .name name :: others ∧ param = .mk name default value ∧
    ReadsDefault others value

theorem readsParam_bare (name : String) : ReadsParam [spelled .name name] (.mk name default none) :=
  ⟨name, [], none, rfl, rfl, .inl ⟨rfl, rfl⟩⟩

theorem readsParam_default (name : String) (read : ReadsExpr level row tree) :
    ReadsParam (spelled .name name :: .gap 0 :: spelled .assign "=" :: .gap 0 :: row)
      (.mk name default (some tree)) :=
  ⟨name, _, some tree, rfl, rfl, .inr ⟨level, row, tree, rfl, rfl, read⟩⟩

theorem ReadsParam.starts {param : PlainParam} (read : ReadsParam row param) :
    Starts (· == .name) (tokens row) := by
  obtain ⟨name, others, value, rfl, -⟩ := read
  simp

/-- A parameter in front of what comes after it in the list. -/
theorem readParamList_cons {param : PlainParam} (read : ReadsParam row param)
    {fuel : Nat} {next : Token} (loose : next.kind.tightness = 0)
    (noAssign : next.kind ≠ .assign) (enough : 64 * (tokens row).length ≤ fuel) :
    readParamList (fuel + 1) (tokens row ++ next :: rest) = (do
      if ← accept .comma then return .ok param :: (← readParamList fuel) else return [.ok param] :
        Reader (List (Waiting PlainParam))) (next :: rest) := by
  obtain ⟨name, others, value, rfl, rfl, ⟨rfl, rfl⟩ | ⟨level, more, tree, rfl, rfl, read⟩⟩ := read
  · simp [readParamList, noAssign, waitOption]
  · simp at enough
    simp [readParamList, @ReadsExpr.closed _ _ _ read (next :: rest) loose fuel
      (by omega), waitOption,
      settled]
    rfl

theorem settles_paramRows (each : List.Forall₂ ReadsParam rows params) (nonempty : rows ≠ [])
    (loose : ending.kind.tightness = 0) (noComma : ending.kind ≠ .comma)
    (noAssign : ending.kind ≠ .assign) (rest : List Token) :
    Settles (64 * (tokens (separated rows)).length + 32)
      (fun fuel => readParamList fuel (tokens (separated rows) ++ ending :: rest))
      (.ok (params.map .ok, ending :: rest)) := by
  induction each with
  | nil => contradiction
  | @cons row param rows params first others ih =>
    refine settles_step fun fuel enough => ?_
    cases others with
    | nil =>
      rw [separated] at enough ⊢
      rw [readParamList_cons first loose noAssign (by omega)]
      simp [noComma]
    | cons =>
      rw [tokens_separated_cons, length_append, length_cons] at enough
      rw [tokens_separated_cons, append_assoc, cons_append,
        readParamList_cons first rfl (by decide) (by omega)]
      simp [ih (by simp) fuel (by omega)]

/-- A list of parameters between two kinds of tokens, which may be left out. -/
def ReadsParams (opening closing : TokenKind) (cost : Nat) (tokens : List Token)
    (params : List PlainParam) (rest : List Token) : Prop :=
  params = [] ∧ tokens = rest ∧ Skips opening rest ∨
    ∃ token more, tokens = token :: more ∧ token.kind = opening ∧
      Settles cost (fun fuel => readParams fuel closing more) (.ok (params.map .ok, rest))

theorem settles_params (each : List.Forall₂ ReadsParam rows params) (nonempty : rows ≠ [])
    (loose : ending.kind.tightness = 0) (noComma : ending.kind ≠ .comma)
    (noAssign : ending.kind ≠ .assign) (noName : ending.kind ≠ .name) (rest : List Token) :
    Settles (64 * (tokens (separated rows)).length + 33)
      (fun fuel => readParams fuel ending.kind (tokens (separated rows) ++ ending :: rest))
      (.ok (params.map .ok, rest)) := by
  refine settles_step fun fuel enough => ?_
  have read := settles_paramRows each nonempty loose noComma noAssign rest fuel enough
  cases each with
  | nil => contradiction
  | @cons row param rows params first others =>
    have starts := (starts_separated first.starts rows).skips (beq_eq_false_iff_ne.2 noName)
      (ending :: rest)
    simp [readParams, starts, read]

theorem readsParams_paramList
    (each : List.Forall₂ ReadsParam rows params) (bare : Skips .leftParen rest) :
    ReadsParams .leftParen .rightParen (64 * (tokens (paramList rows)).length)
      (tokens (paramList rows) ++ rest) params rest := by
  cases each with
  | nil => exact .inl ⟨rfl, rfl, bare⟩
  | @cons row param rows params first others =>
    have read := settles_params (.cons first others) (cons_ne_nil _ _)
      (show (written .rightParen ")").kind.tightness = 0 from rfl) (by decide)
        (by decide) (by decide)
      rest
    refine .inr ⟨written .leftParen "(", tokens (separated (row :: rows)) ++
      written .rightParen ")" :: rest, ?_, rfl, read.mono ?_⟩
    · simp [paramList, inParens, leftParen, rightParen]
    · simp [paramList, inParens, leftParen, rightParen]
      omega

theorem readsParams_blockHead {rows : List Row} {params : List PlainParam}
    (each : List.Forall₂ ReadsParam rows params) {rest : List Token} (bare : Skips .pipe rest) :
    ∃ more, tokens (blockHead rows) = written .leftBrace "\x7b" :: more ∧
      ReadsParams .pipe .pipe (64 * more.length) (more ++ rest) params rest := by
  cases each with
  | nil => exact ⟨[], rfl, .inl ⟨rfl, rfl, bare⟩⟩
  | @cons row param rows params first others =>
    have read := settles_params (.cons first others) (cons_ne_nil _ _)
      (show (written .pipe "|").kind.tightness = 0 from rfl) (by decide) (by decide)
        (by decide) rest
    refine ⟨written .pipe "|" :: (tokens (separated (row :: rows)) ++ [written .pipe "|"]), ?_,
      .inr ⟨written .pipe "|", tokens (separated (row :: rows)) ++ written .pipe "|" ::
        rest, ?_, rfl,
        read.mono ?_⟩⟩
    · simp [blockHead, leftBrace, pipe]
    · simp
    · simp
      omega

def TokenKind.closesBody : TokenKind → Bool
  | .kwEnd | .kwElse | .kwElsif | .rightBrace => true
  | _ => false

/-- Kinds that may follow a statement. -/
def TokenKind.endsStmt (kind : TokenKind) : Bool :=
  kind.closesBody || kind == .terminator || kind == .kwIf || kind == .kwUnless

theorem tightness_of_endsStmt (ends : Next TokenKind.endsStmt rest) : tightness rest = 0 := by
  cases rest with
  | nil => rfl
  | cons token more =>
    rw [next_cons] at ends
    rw [tightness]
    cases kind : token.kind <;> first | rfl | (rw [kind] at ends; contradiction)

theorem endsStmt_of_closesBody (closes : Next TokenKind.closesBody rest) :
    Next TokenKind.endsStmt rest :=
  closes.mono fun kind fits => by simp [TokenKind.endsStmt, fits]

/-- Rows of statements, in front of the conditions that may follow them. -/
structure ReadsStmt (row : Row) (stmt : PlainStmt) : Prop where
  starts : Starts TokenKind.startsStatement (tokens row)
  read : ∀ ⦃rest : List Token⦄ ⦃cost : Nat⦄
    ⦃result : Except (List Token) (Waiting PlainStmt × List Token)⦄, Next TokenKind.endsStmt rest →
    Settles cost (fun fuel => readModifiers fuel default (.ok stmt) rest) result →
    Settles (cost + 64 * (tokens row).length + 40)
      (fun fuel => readStmt fuel (tokens row ++ rest)) result

/-- Rows of bodies. -/
structure ReadsBody (row : Row) (trees : List PlainStmt) : Prop where
  starts : tokens row = [] ∨ Starts TokenKind.startsStatement (tokens row)
  read : ∀ ⦃rest : List Token⦄, Next TokenKind.closesBody rest →
    Settles (64 * (tokens row).length + 44) (fun fuel => readStmts fuel (tokens row ++ rest))
      (.ok (.ok trees, rest))

theorem ReadsBody.skips (read : ReadsBody row trees) (closes : Next TokenKind.closesBody rest)
    {kind : TokenKind} (noStart : kind.startsStatement = false) (noEnd : kind.closesBody = false) :
    Skips kind (tokens row ++ rest) := by
  rcases read.starts with empty | starts
  · rw [empty]
    exact closes.skips noEnd
  · exact starts.skips noStart rest

theorem readsBody_nil : ReadsBody [] [] where
  starts := .inl rfl
  read := by
    intro rest closes
    refine settles_step fun fuel _ => ?_
    cases rest with
    | nil => rfl
    | cons token more =>
      have noTerminator : token.kind ≠ .terminator := skips_cons.1 (closes.skips rfl)
      have noStart : token.kind.startsStatement = false := by
        rw [next_cons] at closes
        cases kind : token.kind <;> first | rfl | (rw [kind] at closes; contradiction)
      simp [readStmts, noTerminator, noStart]

/-- A whole statement, in front of something that is no condition on it. -/
theorem ReadsStmt.whole {row : Row} {stmt : PlainStmt} (read : ReadsStmt row stmt)
    {rest : List Token} (ends : Next TokenKind.endsStmt rest) (noIf : Skips .kwIf rest)
    (noUnless : Skips .kwUnless rest) :
    Settles (64 * (tokens row).length + 41) (fun fuel => readStmt fuel (tokens row ++ rest))
      (.ok (.ok stmt, rest)) := by
  have stop : Settles 1 (fun fuel => readModifiers fuel default (.ok stmt) rest)
      (.ok (.ok stmt, rest)) := by
    refine settles_step fun fuel (_ : 0 ≤ fuel) => ?_
    cases rest with
    | nil => rfl
    | cons token more => simp [readModifiers, skips_cons.1 noIf, skips_cons.1 noUnless]
  exact (read.read ends stop).mono (by omega)

theorem readStmts_cons {tokens : List Token} (starts : Starts TokenKind.startsStatement tokens)
    (fuel : Nat) :
    readStmts (fuel + 1) tokens = (do
      let first ← readStmt fuel
      if ← nextIs .terminator then
        let rest ← readStmts fuel
        return do return (← first) :: (← rest)
      else return do return [← first] : Reader (Waiting (List PlainStmt))) tokens := by
  obtain ⟨token, more, rfl, starts, -⟩ := starts
  have noTerminator : (token.kind == .terminator) = false := by
    rw [beq_eq_false_iff_ne]
    rintro kind
    rw [kind] at starts
    contradiction
  simp [readStmts, noTerminator, starts]

theorem readsBody_line (read : ReadsStmt row stmt) : ReadsBody row [stmt] where
  starts := .inr read.starts
  read := by
    intro rest closes
    refine settles_step fun fuel enough => ?_
    have first := read.whole (endsStmt_of_closesBody closes) (closes.skips rfl) (closes.skips rfl)
    have noTerminator : Skips .terminator rest := closes.skips rfl
    rw [readStmts_cons (read.starts.append rest)]
    simp [first fuel (by omega), noTerminator]

theorem readsBody_cons {stmts : List PlainStmt}
    (read : ReadsStmt row stmt) (others : ReadsBody lines stmts) :
    ReadsBody (row ++ .lineEnd true :: lines) (stmt :: stmts) where
  starts := by
    rw [tokens_append]
    exact .inr (read.starts.append _)
  read := by
    intro rest closes
    refine settles_step fun fuel enough => ?_
    simp only [tokens_append, tokens_lineEnd_true, append_assoc, cons_append,
      length_append, length_cons] at enough ⊢
    obtain ⟨fuel, rfl⟩ : ∃ less, fuel = less + 1 := ⟨fuel - 1, by omega⟩
    have first := @ReadsStmt.whole row stmt read
      (written .terminator "\n" :: (tokens lines ++ rest))
      (by simp; rfl) (by simp) (by simp) (fuel + 1) (by omega)
    -- the end of the line is skipped with the fuel of the next statement
    have skipped : readStmts (fuel + 1) (written .terminator "\n" :: (tokens lines ++ rest)) =
        readStmts (fuel + 1) (tokens lines ++ rest) := by
      rw [readStmts, run_bind, run_bind, run_skipTerminators, run_skipTerminators]
      rfl
    rw [readStmts_cons (read.starts.append _)]
    simp [first, skipped, others.read closes (fuel + 1) (by omega)]

/-- Braces around a body, with the parameters of a block. -/
def ReadsBraces (rows : List Row) (row : Row) (trees : List PlainStmt) : Prop :=
  ∃ inner, tokens row = tokens (blockHead rows) ++
    (tokens inner ++ [written .rightBrace "\x7d"]) ∧ ReadsBody inner trees

theorem next_brace (rest : List Token) :
    Next TokenKind.closesBody (written .rightBrace "\x7d" :: rest) := next_cons.2 rfl

theorem ReadsBraces.block (read : ReadsBraces rows row trees)
    (each : List.Forall₂ ReadsParam rows params) :
    ReadsBlock (.gap 0 :: row) (some (.mk default () params trees)) := by
  obtain ⟨inner, words, body⟩ := read
  refine .inr ⟨_, rfl, ?_, ?_⟩
  · obtain ⟨more, head, -⟩ := @readsParams_blockHead rows params each [] (by simp)
    exact ⟨_, by rw [tokens_gap, words, head]; rfl⟩
  · intro rest
    have bare := body.skips (next_brace rest) (show TokenKind.pipe.startsStatement =
      false from rfl) rfl
    obtain ⟨more, head, readParams⟩ := readsParams_blockHead each bare
    have closed := body.read (next_brace rest)
    refine (settles_step fun fuel enough => ?_).mono
      (by simp [words, head]; omega : 64 * (more.length + (tokens inner).length) + 45 + 1 ≤ _)
    rw [tokens_gap, words, head]
    rcases readParams with ⟨rfl, same, bare⟩ | ⟨pipe, others, same, pipeKind, readParams⟩
    · simp [readBlock?, same, bare, closed fuel (by omega), waitAll]
    · simp [readBlock?, same, pipeKind, readParams fuel (by omega), closed fuel (by omega)]

theorem readsExpr_lambda (each : List.Forall₂ ReadsParam rows params)
    (read : ReadsBraces [] row trees) :
    ReadsExpr Level.postfixForm (spelled .arrow "->" :: (paramList rows ++ .gap 0 :: row))
      (.lambda default () params trees) := by
  obtain ⟨inner, words, body⟩ := read
  refine readsExpr_of_primary (by simp; rfl) fun fuel rest enough _ => ?_
  have readParams := readsParams_paramList each (show Skips .leftParen (written .leftBrace "\x7b" ::
    (tokens inner ++ written .rightBrace "\x7d" :: rest)) by simp)
  simp [words, blockHead, leftBrace] at enough
  obtain ⟨fuel, rfl⟩ : ∃ less, fuel = less + 1 := ⟨fuel - 1, by omega⟩
  have braced : readBraced (fuel + 1) (written .leftBrace "\x7b" ::
      (tokens inner ++ written .rightBrace "\x7d" :: rest)) = .ok (.ok trees, rest) := by
    simp [readBraced, body.read (next_brace rest) fuel (by omega)]
  rw [tokens_spelled, tokens_append, tokens_gap, words]
  rcases readParams with ⟨rfl, same, bare⟩ | ⟨opening, others, same, openingKind, readParams⟩
  · simp [readPrimary, same, braced, blockHead, leftBrace]
    rfl
  · simp [readPrimary, same, openingKind, readParams (fuel + 1) (by omega), braced, blockHead,
      leftBrace]
    rfl

/-- A whole expression at the head of a statement or as a condition. -/
theorem ReadsExpr.head (read : ReadsExpr level row tree) (forms : HeadForms)
    (ends : Next TokenKind.endsStmt rest) :
    Settles (64 * (tokens row).length + 24) (fun fuel => readHead fuel forms (tokens row ++ rest))
      (.ok (settled tree, rest)) := by
  have after := Level.after_range level
  have bounded : level ≤ 13 := read.bounded
  have loose := tightness_of_endsStmt ends
  have stop := @settles_climb_stop (settled tree) rest Level.keyword (loose ▸ Nat.zero_lt_one)
    (by decide) (Level.after level)
  have endsHead : Next TokenKind.endsHead rest := ends.mono fun kind fits => by
    cases kind <;> first | rfl | contradiction
  exact (read.reads (readsFrom_readHead forms) read.positive (by omega) endsHead stop).mono
    (by omega)

/-- Rows at the head of a statement, and on the right of an assignment unless they assign to several
targets. -/
structure ReadsHead (several : Bool) (row : Row) (tree : PlainExpr) : Prop where
  starts : Starts TokenKind.startsExpression (tokens row)
  read : ∀ ⦃forms : HeadForms⦄ ⦃rest : List Token⦄, forms.assignment = true →
    (several = true → forms.severalTargets = true) → Next TokenKind.endsStmt rest →
    Settles (64 * (tokens row).length + 32) (fun fuel => readHead fuel forms (tokens row ++ rest))
      (.ok (settled tree, rest))

theorem ReadsExpr.atHead (read : ReadsExpr level row tree) (several : Bool) :
    ReadsHead several row tree where
  starts := read.starts
  read forms _ _ _ ends := (read.head forms ends).mono (by omega)

/-- A first target or operand in front of a token that ends it. -/
theorem ReadsExpr.target {row : Row} {tree : PlainExpr}
    (read : ReadsExpr Level.postfixForm row tree) (commands : Bool) {rest : List Token}
    (loose : tightness rest = 0) :
    Settles (64 * (tokens row).length + 1)
      (fun fuel => readPostfix fuel commands (tokens row ++ rest)) (.ok (settled tree, rest)) := by
  have loose : tightness rest < Level.postfixForm := loose ▸ Nat.zero_lt_succ _
  obtain ⟨-, postfixed⟩ := read.postfixed rfl
  exact (@postfixed commands _ _ _ (leavesBare_of_tightness loose)
    (settles_suffixes_stop loose)).mono (by omega)

theorem assignOperator_spelled (assigns : op.assigns = true) :
    assignOperator (written .opAssign (op.spelling ++ "=")) = op := by
  cases op with
  | add | subtract | multiply | divide | logicalOr | logicalAnd => rfl
  | _ => contradiction

section Assignment

variable {target value : Row} {targetTree valueTree : PlainExpr} {several : Bool}
  (readTarget : ReadsExpr Level.postfixForm target targetTree)
  (readValue : ReadsHead false value valueTree)

include readTarget readValue

theorem readsHead_assignment {kind : TokenKind} {spelling : String} (loose : kind.tightness = 0)
    (step : ∀ {forms : HeadForms} {fuel : Nat} {tokens words rest : List Token},
      forms.assignment = true → Starts TokenKind.startsPrimary tokens →
      readPostfix fuel true tokens = .ok (settled targetTree, written kind spelling :: words) →
      readHead fuel .assigned words = .ok (settled valueTree, rest) →
      readHead (fuel + 1) forms tokens = .ok (settled tree, rest)) :
    ReadsHead several (target ++ .gap 0 :: spelled kind spelling :: .gap 0 :: value) tree where
  starts := by
    rw [tokens_append]
    exact readTarget.starts.append _
  read := by
    intro forms rest assigns _ ends
    refine settles_step fun fuel enough => ?_
    simp only [tokens_append, tokens_gap, tokens_spelled, length_append, length_cons,
      append_assoc, cons_append] at enough ⊢
    have loose : tightness (written kind spelling :: (tokens value ++ rest)) = 0 := loose
    exact step assigns ((readTarget.postfixed rfl).1.append _)
      (readTarget.target true loose fuel (by omega))
      (@ReadsHead.read _ _ _ readValue .assigned rest rfl nofun ends fuel (by omega))

variable (isTarget : targetTree.isTarget = true)

include isTarget

theorem readsHead_assign :
    ReadsHead several (target ++ .gap 0 :: spelled .assign "=" :: .gap 0 :: value)
      (.assign default targetTree valueTree) := by
  refine readsHead_assignment readTarget readValue rfl ?_
  intro forms fuel tokens words rest assigns starts first second
  rw [readHead_primary starts, run_bind_of_ok first]
  simp [assigns, second, settled, assignable_ok isTarget]

theorem readsHead_opAssign {op : BinaryOp} (opAssigns : op.assigns = true) : ReadsHead several
      (target ++ .gap 0 :: spelled .opAssign (op.spelling ++ "=") :: .gap 0 :: value)
      (.opAssign default targetTree op valueTree) := by
  refine readsHead_assignment readTarget readValue rfl ?_
  intro forms fuel tokens words rest assigns starts first second
  rw [readHead_primary starts, run_bind_of_ok first]
  simp [assigns, second, settled, assignable_ok isTarget, assignOperator_spelled opAssigns]

end Assignment

/-- The tokens of further rows, each after a comma. -/
def commaTokens : List Row → List Token
  | [] => []
  | row :: rows => written .comma "," :: (tokens row ++ commaTokens rows)

theorem tokens_separated (row : Row) (rows : List Row) :
    tokens (separated (row :: rows)) = tokens row ++ commaTokens rows := by
  induction rows generalizing row with
  | nil => simp [separated, commaTokens]
  | cons second rows ih => rw [tokens_separated_cons, ih, commaTokens]

theorem settles_targets {trees : List PlainExpr}
    (each : List.Forall₂ (ReadsExpr Level.postfixForm) rows trees) (rest : List Token) :
    Settles (64 * (commaTokens rows).length + 1)
      (fun fuel => readTargets fuel (commaTokens rows ++ written .assign "=" :: rest))
      (.ok (trees.map settled, written .assign "=" :: rest)) := by
  induction each with
  | nil => exact settles_step fun fuel (_ : 0 ≤ fuel) => by simp [readTargets, commaTokens]
  | @cons row tree rows trees first others ih =>
    have loose : tightness (commaTokens rows ++ written .assign "=" :: rest) = 0 := by
      cases rows <;> rfl
    refine settles_step fun fuel enough => ?_
    simp only [commaTokens, length_cons, length_append] at enough
    simp [readTargets, commaTokens, first.target false loose fuel (by omega), ih fuel (by omega)]

theorem readsHead_multiAssign {targets values : List Row} {targetTrees valueTrees : List PlainExpr}
    (readTargets : List.Forall₂ (ReadsExpr Level.postfixForm) targets targetTrees)
    (areTargets : ∀ tree ∈ targetTrees, tree.isTarget = true) (several : 2 ≤ targets.length)
    (readValues : List.Forall₂ ReadsArg values valueTrees) (nonempty : values ≠ []) :
    ReadsHead true
      (separated targets ++ .gap 0 :: spelled .assign "=" :: .gap 0 :: separated values)
      (.multiAssign default targetTrees valueTrees) := by
  obtain ⟨⟩ | ⟨first, others⟩ := readTargets
  · exact absurd several (by decide)
  next row tree rows trees =>
  refine ⟨?_, ?_⟩
  · rw [tokens_append, tokens_separated, append_assoc]
    exact first.starts.append _
  · intro forms rest assigns accepts ends
    refine settles_step fun fuel enough => ?_
    simp only [tokens_append, tokens_separated, tokens_gap, tokens_spelled, append_assoc,
      cons_append, length_append, length_cons] at enough ⊢
    have readValues := settles_openArgs readValues nonempty (tightness_of_endsStmt ends)
      (ends.skips rfl) fuel (by omega)
    have readOthers := settles_targets others (tokens (separated values) ++ rest) fuel (by omega)
    have areTargets : (settled tree :: trees.map settled).map
        (fun phrase => phrase.tree >>= assignable) = (tree :: trees).map .ok := by
      rw [← map_cons, map_map]
      exact map_congr_left fun tree member => assignable_ok (areTargets tree member)
    cases rows with
    | nil => exact absurd several (by simp)
    | cons second rows =>
      have readFirst := @ReadsExpr.target _ _ first true (commaTokens (second :: rows) ++
        written .assign "=" :: (tokens (separated values) ++ rest)) rfl fuel (by omega)
      rw [readHead_primary ((first.postfixed rfl).1.append _), run_bind_of_ok readFirst]
      simp only [commaTokens, cons_append, append_assoc] at readOthers
      simp [commaTokens, accepts rfl, readOthers, readValues, areTargets, -map_cons]
      rfl

@[simp] theorem tokens_indent (depth : Nat) : tokens (indent depth) = [] := by
  cases depth <;> rfl

@[simp] theorem tokens_inBlock (depth : Nat) (head lines : Row) :
    tokens (inBlock depth head lines) =
      tokens head ++ written .terminator "\n" :: (tokens lines ++ [written .kwEnd "end"]) := by
  simp [inBlock, endWord]

/-- A statement that is read without a look at the conditions after it. -/
theorem readsStmt_of_simple (starts : Starts TokenKind.startsStatement (tokens row))
    (read : ∀ fuel rest, 64 * (tokens row).length + 38 ≤ fuel → Next TokenKind.endsStmt rest →
      readSimpleStmt (fuel + 1) (tokens row ++ rest) = .ok (.ok stmt, rest)) :
    ReadsStmt row stmt where
  starts := starts
  read := by
    intro rest cost result ends settles fuel enough
    obtain ⟨fuel, rfl⟩ : ∃ less, fuel = less + 1 + 1 := ⟨fuel - 2, by omega⟩
    have simple := read fuel rest (by omega) ends
    obtain ⟨token, more, words, -, noPlace⟩ := starts
    rw [words] at simple ⊢
    simp only [readStmt, run_bind, run_get, ok_bind, cons_append, head?_cons, noPlace]
      at simple ⊢
    rw [simple]
    exact settles (fuel + 1) (by omega)

theorem readsStmt_expression (depth : Nat) (read : ReadsHead true row tree) :
    ReadsStmt (indent depth ++ row) (.expression default tree) := by
  have starts : Starts TokenKind.startsExpression (tokens (indent depth ++ row)) := by
    simpa using read.starts
  refine readsStmt_of_simple (starts.mono fun kind fits => ?_) fun fuel rest enough ends => ?_
  · cases kind <;> first | rfl | contradiction
  · have head := @ReadsHead.read _ _ _ read .statement rest rfl (fun _ => rfl) ends fuel
      (by simp at enough; omega)
    rw [tokens_append, tokens_indent, nil_append] at starts ⊢
    obtain ⟨⟨kind, text, loc, start, stop⟩, more, words, fits, -⟩ := starts
    rw [words] at head ⊢
    cases kind <;> first | contradiction | (simp [readSimpleStmt] at head ⊢; simp [head]; rfl)

theorem startsStatement_jump (kind : JumpKind) : kind.tokenKind.startsStatement = true := by
  cases kind <;> rfl

theorem readSimpleStmt_jump (kind : JumpKind) (fuel : Nat) (words : List Token) :
    readSimpleStmt (fuel + 1) (written kind.tokenKind kind.keyword :: words) =
      readJump fuel kind (written kind.tokenKind kind.keyword :: words) := by
  cases kind <;> rfl

theorem readsStmt_jump_none (depth : Nat) (kind : JumpKind) :
    ReadsStmt (indent depth ++ [spelled kind.tokenKind kind.keyword])
      (.jump default kind none) := by
  refine readsStmt_of_simple (by simp [startsStatement_jump]) fun fuel rest enough ends => ?_
  obtain ⟨fuel, rfl⟩ : ∃ less, fuel = less + 1 := ⟨fuel - 1, by omega⟩
  have bare : Next (fun kind => !kind.startsExpression) rest := ends.mono fun kind fits => by
    cases kind <;> first | rfl | contradiction
  simp only [tokens_append, tokens_indent, tokens_spelled, tokens_nil, nil_append,
    cons_append, readSimpleStmt_jump]
  cases rest with
  | nil => simp [readJump]
  | cons token more => simp_all [readJump]

theorem readsStmt_jump (depth : Nat) (kind : JumpKind) (read : ReadsExpr level row tree) :
    ReadsStmt (indent depth ++ conditionHead kind.tokenKind kind.keyword row)
      (.jump default kind (some tree)) := by
  refine readsStmt_of_simple (by simp [conditionHead, startsStatement_jump])
    fun fuel rest enough ends => ?_
  obtain ⟨fuel, rfl⟩ : ∃ less, fuel = less + 1 := ⟨fuel - 1, by omega⟩
  simp [conditionHead] at enough
  have operand := read.closed (tightness_of_endsStmt ends) fuel (by omega)
  obtain ⟨token, more, words, starts, -⟩ := read.starts
  simp only [conditionHead, tokens_append, tokens_indent, tokens_spelled, tokens_gap,
    nil_append, cons_append, readSimpleStmt_jump]
  rw [words] at operand ⊢
  simp [readJump, starts] at operand ⊢
  simp [operand]
  rfl

theorem next_end (rest : List Token) : Next TokenKind.closesBody (written .kwEnd "end" :: rest) :=
  next_cons.2 rfl

theorem next_line (rest : List Token) :
    Next TokenKind.endsStmt (written .terminator "\n" :: rest) :=
  next_cons.2 rfl

theorem ReadsBody.noTerminator (read : ReadsBody row trees)
    (closes : Next TokenKind.closesBody rest) :
    Skips .terminator (tokens row ++ rest) := read.skips closes rfl rfl

theorem ReadsBody.noThen (read : ReadsBody row trees) (closes : Next TokenKind.closesBody rest) :
    Skips .kwThen (tokens row ++ rest) := read.skips closes rfl rfl

theorem readsStmt_define (depth : Nat) (name : String)
    (each : List.Forall₂ ReadsParam rows params) (read : ReadsBody lines trees) :
    ReadsStmt
      (inBlock depth (spelled .kwDef "def" :: .gap 0 :: spelled .name name :: paramList rows) lines)
      (.define default () name params trees) := by
  refine readsStmt_of_simple (by simp; rfl) fun fuel rest enough _ => ?_
  have readParams := readsParams_paramList each (show Skips .leftParen (written .terminator "\n" ::
    (tokens lines ++ written .kwEnd "end" :: rest)) by simp)
  simp at enough
  rw [tokens_inBlock]
  rcases readParams with ⟨rfl, same, bare⟩ | ⟨opening, others, same, openingKind, readParams⟩
  · simp [readSimpleStmt, same, read.noTerminator (next_end rest),
      read.read (next_end rest) fuel (by omega)]
    rfl
  · simp [readSimpleStmt, same, openingKind, readParams fuel (by omega),
      read.noTerminator (next_end rest), read.read (next_end rest) fuel (by omega)]

theorem readsStmt_while {condition : Row} (depth : Nat)
    (readCondition : ReadsExpr level condition tree) (read : ReadsBody lines trees) :
    ReadsStmt (inBlock depth (conditionHead .kwWhile "while" condition) lines)
      (.whileLoop default tree trees) := by
  refine readsStmt_of_simple (by simp [conditionHead]; rfl) fun fuel rest enough _ => ?_
  simp [conditionHead] at enough
  simp [conditionHead, readSimpleStmt, readCondition.head .condition (next_line _) fuel (by omega),
    read.noTerminator (next_end rest), read.read (next_end rest) fuel (by omega)]
  rfl

/-- Rows of else branches.  Only those of `if`, which `chain`, may be an `elsif`. -/
structure ReadsElse (chain : Bool) (row : Row) (trees : List PlainStmt) : Prop where
  closes : ∀ ⦃rest : List Token⦄, Next TokenKind.closesBody rest →
    Next TokenKind.closesBody (tokens row ++ rest)
  chained : ∀ ⦃rest : List Token⦄, chain = true →
    Settles (64 * (tokens row).length + 44)
      (fun fuel => readElse fuel (tokens row ++ written .kwEnd "end" :: rest))
      (.ok (.ok trees, written .kwEnd "end" :: rest))
  plain : chain = false → row = [] ∧ trees = [] ∨
    ∃ lines, tokens row = written .kwElse "else" :: tokens lines ∧ ReadsBody lines trees

theorem readsElse_nil (chain : Bool) : ReadsElse chain [] [] where
  closes _ closes := closes
  chained _ _ := settles_step fun fuel _ => by simp [readElse]
  plain _ := .inl ⟨rfl, rfl⟩

theorem readsElse_lines (depth : Nat) (chain : Bool) (read : ReadsBody lines trees) :
    ReadsElse chain (indent depth ++ spelled .kwElse "else" :: .lineEnd false :: lines) trees where
  closes _ _ := by simp; rfl
  chained := by
    intro rest _
    refine settles_step fun fuel enough => ?_
    simp at enough
    simp [readElse, read.read (next_end rest) fuel (by omega)]
  plain _ := .inr ⟨lines, by simp, read⟩

section Condition

variable {level : Nat} {condition lines others : Row} {tree : PlainExpr}
  {trees elseTrees : List PlainStmt} (readCondition : ReadsExpr level condition tree)

include readCondition

theorem readsElse_elsif (depth : Nat) (read : ReadsBody lines trees)
    (readOthers : ReadsElse true others elseTrees) :
    ReadsElse true
      (indent depth ++ conditionHead .kwElsif "elsif" condition ++ .lineEnd true ::
        (lines ++ others))
      [.conditional default tree trees elseTrees false false true] where
  closes _ _ := by simp [conditionHead]; rfl
  chained := by
    intro rest _
    have closes := readOthers.closes (next_end rest)
    refine settles_step fun fuel enough => ?_
    simp [conditionHead] at enough
    simp [conditionHead, readElse, readCondition.head .condition (next_line _) fuel (by omega),
      read.noTerminator closes, read.noThen closes, read.read closes fuel (by omega),
      readOthers.chained rfl fuel (by omega)]
    rfl
  plain := nofun

theorem readsStmt_conditional (depth : Nat) (negated : Bool) (read : ReadsBody lines trees)
    (readOthers : ReadsElse (!negated) others elseTrees) :
    ReadsStmt
      (inBlock depth (conditionHead (if negated then .kwUnless else .kwIf)
        (if negated then "unless" else "if") condition) (lines ++ others))
      (.conditional default tree trees elseTrees negated false false) := by
  refine readsStmt_of_simple (by cases negated <;> simp [conditionHead] <;> rfl)
    fun fuel rest enough _ => ?_
  have closes := readOthers.closes (next_end rest)
  have head := fun rest => readCondition.head .condition (next_line rest)
  simp [conditionHead] at enough
  cases negated with
  | false =>
    simp [conditionHead, readSimpleStmt, head _ fuel (by omega), read.noTerminator closes,
      read.noThen closes, read.read closes fuel (by omega), readOthers.chained rfl fuel (by omega)]
    rfl
  | true =>
    rcases readOthers.plain rfl with ⟨rfl, rfl⟩ | ⟨elseLines, words, readElse⟩
    · rw [tokens_nil, nil_append] at closes
      simp [conditionHead, readSimpleStmt, head _ fuel (by omega), read.noTerminator closes,
        read.noThen closes, read.read closes fuel (by omega)]
      rfl
    · rw [words, length_cons] at enough
      rw [words, cons_append] at closes
      simp [conditionHead, readSimpleStmt, words, head _ fuel (by omega), read.noTerminator closes,
        read.noThen closes, read.read closes fuel (by omega),
        readElse.read (next_end rest) fuel (by omega)]
      rfl

theorem readsStmt_after (negated : Bool) (read : ReadsStmt row stmt) : ReadsStmt
      (row ++ .gap 0 :: conditionHead (if negated then .kwUnless else .kwIf)
        (if negated then "unless" else "if") condition)
      (.conditional default tree [stmt] [] negated true false) where
  starts := by
    rw [tokens_append]
    exact read.starts.append _
  read := by
    intro rest cost result ends settles
    have operand := readCondition.closed (tightness_of_endsStmt ends)
    have step : Settles (cost + 64 * (tokens condition).length + 24 + 1)
        (fun fuel => readModifiers fuel default (.ok stmt)
          (written (if negated then .kwUnless else .kwIf) (if negated then "unless" else "if") ::
            (tokens condition ++ rest))) result := by
      refine settles_step fun fuel enough => ?_
      rw [← settles fuel (by omega)]
      cases negated <;> simp [readModifiers, operand fuel (by omega)] <;> rfl
    have whole := read.read (next_cons.2 (by cases negated <;> rfl)) step
    simp only [conditionHead, tokens_append, tokens_spelled, tokens_gap, cons_append,
      append_assoc, length_cons, length_append]
    exact whole.mono (by omega)

end Condition

end Hoist
