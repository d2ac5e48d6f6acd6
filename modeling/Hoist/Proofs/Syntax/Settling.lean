import Hoist.Proofs.Steps
import Hoist.Proofs.Syntax.Rows

/-!
Steps of the grammar.  With enough fuel a reader settles on a result.  The lemmas on operators say
what is read after an operand, down to the level where its own operators end; the two readers of
whole expressions differ in what they look for after the first operand.
-/

namespace Hoist

open Reader

variable {α β : Type}

def Next (allowed : TokenKind → Bool) (tokens : List Token) : Prop :=
  ∀ token ∈ tokens.head?, allowed token.kind = true

def Skips (kind : TokenKind) (tokens : List Token) : Prop := Next (· != kind) tokens

/-- There is a next token; it is of an allowed kind and has no place. -/
def Starts (allowed : TokenKind → Bool) (tokens : List Token) : Prop :=
  ∃ token rest, tokens = token :: rest ∧ allowed token.kind = true ∧ token.loc = default

variable {kind : TokenKind}

section Next

variable {allowed others : TokenKind → Bool} {token : Token} {tokens rest : List Token}

@[simp] theorem next_nil : Next allowed [] := nofun

@[simp] theorem next_cons : Next allowed (token :: rest) ↔ allowed token.kind = true := by
  simp [Next]

@[simp] theorem skips_nil : Skips kind [] := next_nil

@[simp] theorem skips_cons : Skips kind (token :: rest) ↔ token.kind ≠ kind := by
  simp [Skips]

theorem Next.mono (next : Next allowed tokens)
    (imp : ∀ kind, allowed kind = true → others kind = true) : Next others tokens :=
  fun token member => imp _ (next token member)

theorem Next.skips (next : Next allowed tokens) (other : allowed kind = false) :
    Skips kind tokens :=
  next.mono fun found fits => bne_iff_ne.2 (by rintro rfl; simp [other] at fits)

@[simp] theorem starts_cons :
    Starts allowed (token :: rest) ↔ allowed token.kind = true ∧ token.loc = default := by
  simp [Starts]

theorem Starts.append (starts : Starts allowed tokens) (rest : List Token) :
    Starts allowed (tokens ++ rest) := by
  obtain ⟨token, more, rfl, fits⟩ := starts
  exact ⟨token, more ++ rest, rfl, fits⟩

theorem Starts.mono (starts : Starts allowed tokens)
    (imp : ∀ kind, allowed kind = true → others kind = true) : Starts others tokens := by
  obtain ⟨token, more, same, fits, noPlace⟩ := starts
  exact ⟨token, more, same, imp _ fits, noPlace⟩

theorem Starts.skips (starts : Starts allowed tokens)
    (other : allowed kind = false) (rest : List Token) : Skips kind (tokens ++ rest) := by
  obtain ⟨token, more, rfl, fits, -⟩ := starts
  rw [List.cons_append, skips_cons]
  rintro rfl
  simp [other] at fits

end Next

variable {token : Token}

namespace Reader

variable {kind : TokenKind} {tokens : List Token}

@[simp] theorem run_bind (first : Reader α) (next : α → Reader β) (tokens : List Token) :
    (first >>= next) tokens = (first tokens >>= fun result => next result.1 result.2) := rfl

theorem run_bind_of_ok {first : Reader α} {next : α → Reader β}
    {tokens rest : List Token} {value : α}
    (read : first tokens = .ok (value, rest)) : (first >>= next) tokens = next value rest := by
  rw [run_bind, read, ok_bind]

@[simp] theorem run_pure (value : α) (tokens : List Token) :
    (pure value : Reader α) tokens = .ok (value, tokens) := rfl

@[simp] theorem run_map (change : α → β) (first : Reader α) (tokens : List Token) :
    (change <$> first) tokens =
      (first tokens >>= fun result => .ok (change result.1, result.2)) := rfl

@[simp] theorem run_discard (first : Reader α) (tokens : List Token) :
    (discard first : Reader PUnit) tokens =
      (first tokens >>= fun result => .ok (⟨⟩, result.2)) := rfl

@[simp] theorem run_get (tokens : List Token) :
    (get : Reader (List Token)) tokens = .ok (tokens, tokens) := rfl

@[simp] theorem run_peek (tokens : List Token) :
    peek tokens = .ok (tokens.head?.map Token.kind, tokens) := rfl

theorem run_nextIs (kind : TokenKind) (tokens : List Token) :
    nextIs kind tokens = .ok (tokens.head?.map Token.kind == some kind, tokens) := rfl

@[simp] theorem run_advance (token : Token) (rest : List Token) :
    advance (token :: rest) = .ok (token, rest) := rfl

@[simp] theorem run_skipTerminators (tokens : List Token) :
    skipTerminators tokens = .ok (⟨⟩, tokens.dropWhile (·.kind == .terminator)) := rfl

@[simp] theorem run_expect (fits : token.kind = kind)
    (rest : List Token) : expect kind (token :: rest) = .ok (token, rest) := by
  subst fits
  simp only [expect, run_bind, run_get, ok_bind, beq_self_eq_true, if_true]
  rfl

theorem run_expect_ne (other : token.kind ≠ kind)
    (rest : List Token) : expect kind (token :: rest) = .error (token :: rest) := by
  simp only [expect, run_bind, run_get, ok_bind, beq_iff_eq, other, if_false]
  rfl

@[simp] theorem run_accept (fits : token.kind = kind) (rest : List Token) :
    accept kind (token :: rest) = .ok (true, rest) := by
  subst fits
  simp [accept, run_nextIs]

theorem run_accept_ne (other : tokens.head?.map Token.kind ≠ some kind) :
    accept kind tokens = .ok (false, tokens) := by
  simp [accept, run_nextIs, other]

theorem head?_ne_of_skips (skips : Skips kind tokens) :
    tokens.head?.map Token.kind ≠ some kind := by
  cases tokens with
  | nil => simp
  | cons token rest => simpa using skips

@[simp] theorem run_accept_skips (skips : Skips kind tokens) :
    accept kind tokens = .ok (false, tokens) := run_accept_ne (head?_ne_of_skips skips)

@[simp] theorem run_nextIs_skips (skips : Skips kind tokens) :
    nextIs kind tokens = .ok (false, tokens) := by
  simp [run_nextIs, beq_eq_false_iff_ne.2 (head?_ne_of_skips skips)]

@[simp] theorem run_nextIs_cons (kind : TokenKind) (token : Token) (rest : List Token) :
    nextIs kind (token :: rest) = .ok (token.kind == kind, token :: rest) := rfl

@[simp] theorem run_terminators {terminator : Token} (fits : terminator.kind = .terminator)
    (skips : Skips .terminator tokens) : terminators (terminator :: tokens) = .ok (⟨⟩, tokens) := by
  have kept : tokens.dropWhile (·.kind == .terminator) = tokens := by
    cases tokens with
    | nil => rfl
    | cons token rest => simpa using skips
  simp [terminators, fits, kept]

@[simp] theorem run_thenMark {terminator : Token} (fits : terminator.kind = .terminator)
    (skips : Skips .terminator tokens) (noThen : Skips .kwThen tokens) :
    thenMark (terminator :: tokens) = .ok (⟨⟩, tokens) := by
  simp [thenMark, fits, skips, noThen]

end Reader

/-- With fuel of at least `cost` the runs have one result. -/
abbrev Settles (cost : Nat) (run : Nat → α) (result : α) : Prop :=
  ∀ fuel, cost ≤ fuel → run fuel = result

variable {cost : Nat} {op : BinaryOp}

theorem Settles.mono {more : Nat} {run : Nat → α} {result : α}
    (settles : Settles cost run result) (le : cost ≤ more) : Settles more run result :=
  fun fuel enough => settles fuel (le.trans enough)

/-- What a run does with one unit of fuel more than its parts need. -/
theorem settles_step {run : Nat → α} {result : α}
    (step : ∀ fuel, cost ≤ fuel → run (fuel + 1) = result) : Settles (cost + 1) run result := by
  intro fuel enough
  cases fuel with
  | zero => omega
  | succ fuel => exact step fuel (by omega)

/-- How tightly a token binds to the expression in front of it, if it goes on with it. -/
def TokenKind.tightness : TokenKind → Nat
  | .kwAnd | .kwOr => Level.keyword
  | .question => Level.ternary
  | .dot2 | .dot3 => Level.range
  | .orOr => Level.disjunction
  | .andAnd => Level.conjunction
  | .eqEq | .notEq => Level.equality
  | .less | .greater | .lessEq | .greaterEq => Level.comparison
  | .plus | .minus => Level.sum
  | .star | .slash | .percent => Level.term
  | .pow => Level.power
  | .dot | .leftBracket | .leftParen | .leftBrace | .kwDo => Level.postfixForm
  | _ => 0

/-- How tightly the first token binds to what is in front of it. -/
def tightness (tokens : List Token) : Nat :=
  match tokens with
  | [] => 0
  | token :: _ => token.kind.tightness

/-- The level from which operators are looked for after an expression of a level. -/
def Level.after (level : Nat) : Nat :=
  if level = Level.negation ∨ level = Level.ternary ∨ level = Level.range ∨
      level = Level.equality ∨ Level.unary ≤ level then level - 1 else level

theorem Level.after_mono {low high : Nat} (le : low ≤ high) :
    Level.after low ≤ Level.after high := by
  unfold Level.after
  unfold Level.negation Level.ternary Level.range Level.equality Level.unary
  split_ifs <;> omega

/-- A tree that was read, without its place. -/
def settled (tree : PlainExpr) : Phrase := ⟨default, .ok tree⟩

variable {level : Nat} {tokens : List Token}

theorem tightness_of_binaryAt (operator : TokenKind.binaryAt level kind = some op) :
    kind.tightness = level := by
  cases kind <;> simp [TokenKind.binaryAt, Option.filter_eq_some_iff] at operator
  all_goals
    obtain ⟨rfl, binds⟩ := operator
    simp only [BinaryOp.level?, Option.some.injEq] at binds
    exact binds

theorem binaryAt_eq_none (loose : tightness tokens < level) :
    (tokens.head?.map Token.kind).bind (TokenKind.binaryAt level) = none := by
  cases tokens with
  | nil => rfl
  | cons token rest =>
    cases found : TokenKind.binaryAt level token.kind with
    | none => simp [found]
    | some op =>
      have := tightness_of_binaryAt found
      simp only [tightness] at loose
      omega

variable {fuel : Nat}

section Climb

variable {left : Phrase} {rest : List Token} {level floor : Nat}

theorem climb_done (below : level < floor) (fuel : Nat) :
    climb (fuel + 1) level floor left rest = .ok (left, rest) := by
  simp [climb, below]

/-- A level without an operator at the next token is passed over. -/
theorem climb_pass (reached : floor ≤ level + 1) (loose : tightness rest ≤ level) (fuel : Nat) :
    climb (fuel + 1) (level + 1) floor left rest = climb fuel level floor left rest := by
  have other : ∀ kind : TokenKind, level < kind.tightness →
      rest.head?.map Token.kind ≠ some kind := by
    intro kind tight
    cases rest with
    | nil => simp
    | cons token rest =>
      simp only [List.head?_cons, Option.map_some, ne_eq, Option.some.injEq]
      rintro rfl
      exact absurd tight (Nat.not_lt.2 loose)
  rw [climb, if_neg (Nat.not_lt.2 reached)]
  by_cases ternary : level + 1 = Level.ternary
  · have noQuestion := run_accept_ne (other .question (by simp [TokenKind.tightness, ← ternary]))
    rw [if_pos (beq_iff_eq.2 ternary), run_bind, noQuestion, ok_bind]
    rfl
  · rw [if_neg (by simpa using ternary)]
    by_cases range : level + 1 = Level.range
    · have noDot2 := other .dot2 (by simp [TokenKind.tightness, ← range])
      have noDot3 := other .dot3 (by simp [TokenKind.tightness, ← range])
      rw [if_pos (beq_iff_eq.2 range), run_bind, run_peek, ok_bind,
        if_neg (by simp [noDot2, noDot3])]
      rfl
    · rw [if_neg (by simpa using range), run_bind, run_peek, ok_bind]
      simp only [binaryAt_eq_none (Nat.lt_succ_of_le loose)]
      rfl

/-- Operators are looked for from the level at which one may stand. -/
theorem settles_climb_down {top : Nat} {result : Except (List Token) (Phrase × List Token)}
    (le : level ≤ top) (loose : tightness rest ≤ level)
    (settles : Settles cost (fun fuel => climb fuel level floor left rest) result) :
    Settles (cost + (top - level)) (fun fuel => climb fuel top floor left rest) result := by
  induction top, le using Nat.le_induction with
  | base => simpa using settles
  | succ top le ih =>
    by_cases reached : floor ≤ top + 1
    · refine (settles_step fun fuel enough => ?_).mono (by omega : cost + (top - level) + 1 ≤ _)
      rw [climb_pass reached (loose.trans le)]
      exact ih fuel enough
    · intro fuel enough
      have same : climb (fuel + 1) level floor left rest = result := settles (fuel + 1) (by omega)
      rw [climb_done (by omega)] at same
      rw [← same]
      cases fuel with
      | zero => omega
      | succ fuel => exact climb_done (by omega) fuel

theorem settles_climb_stop (loose : tightness rest < floor) (positive : 0 < floor) (level : Nat) :
    Settles (level + 2) (fun fuel => climb fuel level floor left rest) (.ok (left, rest)) := by
  by_cases below : level < floor
  · exact (settles_step fun fuel _ => climb_done below fuel).mono (by omega : 0 + 1 ≤ _)
  · have done : Settles 1 (fun fuel => climb fuel (floor - 1) floor left rest) (.ok (left, rest)) :=
      settles_step fun fuel _ => climb_done (by omega) fuel
    exact (settles_climb_down (by omega) (by omega) done).mono (by omega)

theorem BinaryOp.level_range (binds : op.level? = some level) :
    level = 1 ∨ 5 ≤ level ∧ level ≤ 10 ∨ level = 12 := by
  cases op <;> simp only [BinaryOp.level?, Option.some.injEq, reduceCtorEq] at binds
  all_goals
    subst binds
    decide

theorem binaryAt_kind (binds : op.level? = some level) :
    TokenKind.binaryAt level op.kind = some op := by
  cases op <;> simp only [BinaryOp.level?, Option.some.injEq, reduceCtorEq] at binds
  all_goals
    subst binds
    rfl

theorem tightness_kind (binds : op.level? = some level) :
    op.kind.tightness = level := tightness_of_binaryAt (binaryAt_kind binds)

theorem climb_binary {leftTree rightTree : PlainExpr} (binds : op.level? = some level)
    (kind : token.kind = op.kind)
    (noPlace : token.loc = default) (reached : floor ≤ level)
    (read : readExpr fuel (Printer.operandLevels op level).2 tokens =
      .ok (settled rightTree, rest)) :
    climb (fuel + 1) level floor (settled leftTree) (token :: tokens) =
      climb fuel (Level.after level) floor
        (settled (.binary default op leftTree rightTree)) rest := by
  have range := BinaryOp.level_range binds
  have noTernary : ¬ (level == Level.ternary) = true := by
    simp only [beq_iff_eq, Level.ternary]
    omega
  have noRange : ¬ (level == Level.range) = true := by
    simp only [beq_iff_eq, Level.range]
    omega
  rw [climb, if_neg (Nat.not_lt.2 reached), if_neg noTernary, if_neg noRange]
  simp only [run_bind, run_peek, ok_bind, List.head?_cons, Option.map_some, kind,
    Option.bind_some, binaryAt_kind binds, run_advance]
  by_cases power : op = .power
  · subst power
    obtain rfl : Level.power = level := Option.some.inj binds
    have read : readExpr fuel Level.unary tokens = .ok (settled rightTree, rest) := read
    simp only [beq_self_eq_true, if_true, run_bind, read, ok_bind]
    rfl
  · have noPower : ¬ (level == Level.power) = true := by
      intro equal
      obtain rfl := beq_iff_eq.1 equal
      cases op <;> contradiction
    have rightLevel : (Printer.operandLevels op level).2 = level + 1 := by
      unfold Printer.operandLevels
      rw [if_neg power]
      split <;> rfl
    have after : Level.after level =
        if (level == Level.equality) = true then level - 1 else level := by
      simp only [beq_iff_eq, Level.power] at noPower
      simp only [beq_iff_eq]
      unfold Level.after
      unfold Level.negation Level.ternary Level.range Level.equality Level.unary
      split_ifs <;> omega
    rw [rightLevel] at read
    rw [after, if_neg noPower]
    simp only [run_bind, read, ok_bind, noPlace]
    rfl

theorem climb_ternary {question colon : Token} {elseTokens : List Token}
    {condition thenTree elseTree : PlainExpr} (kind : question.kind = .question)
    (colonKind : colon.kind = .colon) (reached : floor ≤ Level.ternary)
    (readThen : readExpr fuel Level.ternary tokens = .ok (settled thenTree, colon :: elseTokens))
    (readElse : readExpr fuel Level.ternary elseTokens = .ok (settled elseTree, rest)) :
    climb (fuel + 1) Level.ternary floor (settled condition) (question :: tokens) =
      climb fuel (Level.after Level.ternary) floor
        (settled (.ternary default condition thenTree elseTree)) rest := by
  simp only [climb, if_neg (Nat.not_lt.2 reached), beq_self_eq_true, run_bind, run_accept kind,
    ok_bind, if_true, readThen, run_discard, run_expect colonKind, readElse]
  rfl

theorem climb_range {dots : Token} {start stop : PlainExpr} {exclusive : Bool}
    (kind : dots.kind = if exclusive then .dot3 else .dot2) (reached : floor ≤ Level.range)
    (read : readExpr fuel Level.disjunction tokens = .ok (settled stop, rest)) :
    climb (fuel + 1) Level.range floor (settled start) (dots :: tokens) =
      climb fuel (Level.after Level.range) floor (settled (.range default start stop exclusive))
        rest := by
  rw [climb, if_neg (Nat.not_lt.2 reached), if_neg (by decide), if_pos (beq_self_eq_true _)]
  cases exclusive <;> simp [kind, read] <;> rfl

end Climb

/-- The kinds that go before an operand. -/
def TokenKind.isPrefix : TokenKind → Bool
  | .kwNot | .minus | .bang => true
  | _ => false

def TokenKind.startsPrimary (kind : TokenKind) : Bool := kind.startsExpression && !kind.isPrefix

/-- Readers of whole expressions down to a level.  They differ in what may follow the first operand:
at the head of a statement an assignment is looked for there. -/
structure ReadsFrom (floor : Nat) (accepts : List Token → Prop) (run : Nat → Reader Phrase) :
    Prop where
  operator : ∀ token rest, 0 < token.kind.tightness → accepts (token :: rest)
  primary : ∀ {tokens rest : List Token} {left : Phrase} {readCost cost : Nat}
    {result : Except (List Token) (Phrase × List Token)}, Starts TokenKind.startsPrimary tokens →
    accepts rest → tightness rest < Level.postfixForm →
    (∀ commands, Settles readCost (fun fuel => readPostfix fuel commands tokens)
      (.ok (left, rest))) →
    Settles cost (fun fuel => climb fuel Level.power floor left rest) result →
    Settles (readCost + cost + 1) (fun fuel => run fuel tokens) result
  prefixed : ∀ {tokens : List Token} {cost : Nat}
    {result : Except (List Token) (Phrase × List Token)}, Starts TokenKind.isPrefix tokens →
    Settles cost (fun fuel => readExpr fuel floor tokens) result →
    Settles (cost + 1) (fun fuel => run fuel tokens) result

theorem readExpr_primary (starts : Starts TokenKind.startsPrimary tokens) (fuel floor : Nat) :
    readExpr (fuel + 1) floor tokens =
      (readPostfix fuel false tokens >>= fun left =>
        climb fuel Level.power floor left.1 left.2) := by
  obtain ⟨⟨kind, text, loc, start, stop⟩, more, rfl, fits, -⟩ := starts
  cases kind <;> first | rfl | contradiction

theorem readsFrom_readExpr (floor : Nat) :
    ReadsFrom floor (fun _ => True) (fun fuel => readExpr fuel floor) where
  operator _ _ _ := trivial
  primary := by
    intro tokens rest left readCost cost result starts _ _ read settles
    refine settles_step fun fuel enough => ?_
    have read : readPostfix fuel false tokens = .ok (left, rest) := read false fuel (by omega)
    rw [readExpr_primary starts, read]
    exact settles fuel (by omega)
  prefixed _ settles := settles.mono (Nat.le_succ _)

/-- What may follow an expression at the head of a statement. -/
def TokenKind.endsHead : TokenKind → Bool
  | .assign | .opAssign | .comma => false
  | _ => true

/-- The choice that is made at the head of a statement after its first operand. -/
theorem run_peek_else {onDot onAssign onOpAssign onComma otherwise : Reader α}
    (noDot : Skips .dot tokens) (ends : Next TokenKind.endsHead tokens) :
    (peek >>= fun kind => match kind with
      | some .dot => onDot
      | some .assign => onAssign
      | some .opAssign => onOpAssign
      | some .comma => onComma
      | _ => otherwise) tokens = otherwise tokens := by
  cases tokens with
  | nil => rfl
  | cons token rest =>
    obtain ⟨kind, text, loc, start, stop⟩ := token
    rw [skips_cons] at noDot
    rw [next_cons] at ends
    cases kind <;> first | rfl | contradiction

/-- What the head of a statement does with a first operand and after it. -/
theorem readHead_primary (starts : Starts TokenKind.startsPrimary tokens) (fuel : Nat)
    (forms : HeadForms) :
    readHead (fuel + 1) forms tokens = (do
      let left ← readPostfix fuel true
      match ← peek with
      | some .dot =>
        discard advance
        let name ← expect .command
        let args ← readOpenArgs fuel
        return ⟨left.start, do
          let receiver ← left.tree
          return .call name.loc (some receiver) name.word (← waitAll args) none false⟩
      | some .assign =>
        if !forms.assignment then stuck else
        discard advance
        let value ← readHead fuel .assigned
        return ⟨left.start, do
          let target ← left.tree >>= assignable
          return .assign left.start target (← value.tree)⟩
      | some .opAssign =>
        if !forms.assignment then stuck else
        let token ← advance
        let value ← readHead fuel .assigned
        return ⟨left.start, do
          let target ← left.tree >>= assignable
          return .opAssign left.start target (assignOperator token) (← value.tree)⟩
      | some .comma =>
        if !forms.severalTargets then stuck else
        let others ← readTargets fuel
        discard (expect .assign)
        let values ← readOpenArgs fuel
        return ⟨left.start, do
          let targets ← waitAll ((left :: others).map fun target => target.tree >>= assignable)
          return .multiAssign left.start targets (← waitAll values)⟩
      | _ => climb fuel Level.power Level.keyword left : Reader Phrase) tokens := by
  obtain ⟨⟨kind, text, loc, start, stop⟩, more, rfl, fits, -⟩ := starts
  cases kind <;> first | rfl | contradiction

theorem readsFrom_readHead (forms : HeadForms) :
    ReadsFrom Level.keyword (Next TokenKind.endsHead) (fun fuel => readHead fuel forms) where
  operator := by
    intro token rest tight
    rw [next_cons]
    cases kind : token.kind <;> first | rfl | simp [kind, TokenKind.tightness] at tight
  primary := by
    intro tokens rest left readCost cost result starts ends loose read settles
    refine settles_step fun fuel enough => ?_
    have read : readPostfix fuel true tokens = .ok (left, rest) := read true fuel (by omega)
    have noDot : Skips .dot rest := by
      cases rest with
      | nil => exact skips_nil
      | cons next more =>
        rw [skips_cons]
        intro dot
        rw [tightness, dot] at loose
        exact absurd loose (by decide)
    rw [readHead_primary starts, run_bind_of_ok read]
    exact (run_peek_else noDot ends).trans (settles fuel (by omega))
  prefixed := by
    rintro _ cost result ⟨⟨kind, text, loc, start, stop⟩, more, rfl, fits, -⟩ settles
    refine settles_step fun fuel enough => ?_
    cases kind <;> first | exact settles fuel enough | contradiction

@[simp] theorem waitAll_ok (items : List α) : waitAll (items.map .ok) = .ok items := by
  induction items with
  | nil => rfl
  | cons first rest ih =>
    rw [waitAll] at ih ⊢
    rw [List.map_cons, List.mapM_cons, ih]
    rfl

theorem waitAll_getD (items : Option (List α)) :
    waitAll ((items.map (List.map .ok)).getD []) = .ok (items.getD []) := by
  cases items with
  | none => rfl
  | some items => exact waitAll_ok items

@[simp] theorem waitOption_ok (item : Option α) : waitOption (item.map .ok) = .ok item := by
  cases item <;> rfl

theorem assignable_ok {tree : PlainExpr} (isTarget : tree.isTarget = true) :
    assignable tree = .ok tree := by
  cases tree with
  | name | global | index => rfl
  | _ => contradiction

end Hoist
