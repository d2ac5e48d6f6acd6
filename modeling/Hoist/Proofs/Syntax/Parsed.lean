import Hoist.Proofs.Syntax.Alike

/-!
Parsed programs.  By induction on fuel all readers of the grammar go alike, each by the steps that
its form of the grammar takes.  A parsed program is therefore well-formed, and programs parsed from
tokens that differ in their places alone differ in their places alone.
-/

namespace Hoist

open List

open Lexeme Reader

variable {floats : Float → Prop}

/-- Phrases whose trees are alike; they may start in different places. -/
def SamePhrase (floats : Float → Prop) (position : Position) (phrase other : Phrase) : Prop :=
  SameWaiting (SameExpr floats position) phrase.tree other.tree

/-- Arguments in waiting that are alike, one by one. -/
abbrev SameArgs (floats : Float → Prop) :
    List (Waiting PlainExpr) → List (Waiting PlainExpr) → Prop :=
  List.Forall₂ (SameWaiting (SameExpr floats .argument))

/-- Where the phrase that is read with some forms may stand. -/
def HeadForms.position (forms : HeadForms) : Position :=
  if forms.severalTargets then .head else if forms.assignment then .assigned else .operand

/-- All readers of the grammar go alike with an amount of fuel. -/
structure ReadersAlike (floats : Float → Prop) (fuel : Nat) : Prop where
  expr (level : Nat) : Alike floats (SamePhrase floats .operand) (readExpr fuel level)
    (readExpr fuel level)
  unary (level : Nat) {op : UnaryOp} (known : op.isKnown = true) :
    Alike floats (SamePhrase floats .operand) (readUnary fuel level op)
      (readUnary fuel level op)
  climb (level floor : Nat) {left right : Phrase} (same : SamePhrase floats .operand left right) :
    Alike floats (SamePhrase floats .operand) (climb fuel level floor left)
      (climb fuel level floor right)
  postfixed (commands : Bool) : Alike floats (SamePhrase floats .operand)
    (readPostfix fuel commands) (readPostfix fuel commands)
  suffixes (commands : Bool) {left right : Phrase}
    (same : SamePhrase floats .operand left right) :
    Alike floats (SamePhrase floats .operand) (readSuffixes fuel commands left)
      (readSuffixes fuel commands right)
  primary : Alike floats (SamePhrase floats .operand) (readPrimary fuel)
    (readPrimary fuel)
  callArgs : Alike floats (Option.Rel (SameArgs floats)) (readCallArgs fuel)
    (readCallArgs fuel)
  args (closing : TokenKind) :
    Alike floats (fun trees others => trees ≠ [] ∧ SameArgs floats trees others)
      (readArgs fuel closing) (readArgs fuel closing)
  openArgs : Alike floats (fun trees others => trees ≠ [] ∧ SameArgs floats trees others)
    (readOpenArgs fuel) (readOpenArgs fuel)
  arg : Alike floats (SameWaiting (SameExpr floats .argument)) (readArg fuel)
    (readArg fuel)
  params (closing : TokenKind) :
    Alike floats (List.Forall₂ (SameWaiting (SameParam floats))) (readParams fuel closing)
      (readParams fuel closing)
  paramList : Alike floats (List.Forall₂ (SameWaiting (SameParam floats)))
    (readParamList fuel) (readParamList fuel)
  block : Alike floats (Option.Rel (SameWaiting (SameBlock floats))) (readBlock? fuel)
    (readBlock? fuel)
  braced : Alike floats (SameWaiting (SameStmts floats false)) (readBraced fuel)
    (readBraced fuel)
  stmts : Alike floats (SameWaiting (SameStmts floats false)) (readStmts fuel)
    (readStmts fuel)
  stmt : Alike floats (SameWaiting (SameStmt floats)) (readStmt fuel) (readStmt fuel)
  modifiers (start start' : Loc) {left right : Waiting PlainStmt}
    (same : SameWaiting (SameStmt floats) left right) :
    Alike floats (SameWaiting (SameStmt floats)) (readModifiers fuel start left)
      (readModifiers fuel start' right)
  simpleStmt : Alike floats (SameWaiting (SameStmt floats)) (readSimpleStmt fuel)
    (readSimpleStmt fuel)
  elseBranch : Alike floats (SameWaiting (SameStmts floats true)) (readElse fuel)
    (readElse fuel)
  jump (kind : JumpKind) : Alike floats (SameWaiting (SameStmt floats))
    (readJump fuel kind) (readJump fuel kind)
  head (forms : HeadForms) : Alike floats (SamePhrase floats forms.position)
    (readHead fuel forms) (readHead fuel forms)
  targets (next : Option TokenKind) :
    AlikeFrom floats next
      (fun trees others => (next = some .comma → trees ≠ []) ∧
        List.Forall₂ (SamePhrase floats .operand) trees others)
      (readTargets fuel) (readTargets fuel)

theorem readersAlike_zero : ReadersAlike floats 0 := by
  constructor
  all_goals intros
  all_goals first | exact alike_stuck | exact alike_stuck.from _

section Tokens

variable {token token' : Token} (same : SameToken floats token token')
include same

theorem sameExpr_name (kind : token.kind = .name) :
    SameExpr floats .operand (.name token.loc token.word) (.name token'.loc token'.word) := by
  rw [same.word]
  exact ⟨same.isName (.inl kind), rfl⟩

theorem sameExpr_constant (kind : token.kind = .constant) :
    SameExpr floats .operand (.constant token.loc token.word)
      (.constant token'.loc token'.word) := by
  have spelled := same.spelled
  rw [kind] at spelled
  rw [same.word]
  exact ⟨spelled, rfl⟩

theorem sameExpr_global (kind : token.kind = .global) :
    SameExpr floats .operand (.global token.loc (String.ofList (token.text.chars.drop 1)))
      (.global token'.loc (String.ofList (token'.text.chars.drop 1))) := by
  have spelled := same.spelled
  rw [kind] at spelled
  rw [same.text]
  exact ⟨spelled, rfl⟩

theorem sameExpr_symbol (kind : token.kind = .symbol) :
    SameExpr floats .operand (.symbol token.loc (String.ofList (token.text.chars.drop 1)))
      (.symbol token'.loc (String.ofList (token'.text.chars.drop 1))) := by
  have spelled := same.spelled
  rw [kind] at spelled
  rw [same.text]
  exact ⟨spelled, rfl⟩

theorem sameWaiting_int :
    SameWaiting (SameExpr floats .operand) (intLiteral token) (intLiteral token') := by
  unfold intLiteral
  rw [same.text]
  split
  · next value read =>
    unfold Decimal.readNat? at read
    split at read
    · next short =>
      cases read
      refine .ok ⟨⟨_, rfl, ?_⟩, rfl⟩
      exact (Text.digitsValue_lt _).trans_le (Nat.pow_le_pow_right (by decide) short)
    · contradiction
  · exact .error _ _

theorem sameWaiting_float (kind : token.kind = .float) :
    SameWaiting (SameExpr floats .operand) (floatLiteral token) (floatLiteral token') := by
  have value : floatValue token' = floatValue token := by
    unfold floatValue
    rw [same.text]
  unfold floatLiteral
  rw [value]
  exact .ok ⟨same.allowed kind, rfl⟩

theorem sameWaiting_string :
    SameWaiting (SameExpr floats .operand) (stringLiteral token) (stringLiteral token') := by
  unfold stringLiteral
  rw [same.text]
  split
  · exact .ok ⟨trivial, rfl⟩
  · exact .error _ _

theorem assignOperator_assigns (kind : token.kind = .opAssign) :
    assignOperator token' = assignOperator token ∧ (assignOperator token).assigns = true := by
  have spelled := same.spelled
  rw [kind] at spelled
  unfold assignOperator
  rw [same.text]
  refine ⟨rfl, ?_⟩
  have member : token.text.chars ∈ assignSpellings := contains_iff_mem.1 spelled
  simp only [assignSpellings, mem_cons, not_mem_nil, or_false] at member
  rcases member with word | word | word | word | word | word <;> rw [word] <;> rfl

end Tokens

variable {fuel : Nat} (readers : ReadersAlike floats fuel)
include readers

theorem alike_readExpr (level : Nat) :
    Alike floats (SamePhrase floats .operand) (readExpr (fuel + 1) level)
      (readExpr (fuel + 1) level) := by
  rw [readExpr]
  refine alike_peek fun next => ?_
  split
  · split
    · exact alike_stuck.from _
    · refine (alike_advance.from _).bind fun token token' _ => ?_
      refine (readers.expr _).bind fun operand operand' same => ?_
      exact readers.climb _ _ (same.bind fun tree tree' same => .ok (same.unary rfl))
  · exact (readers.unary level rfl).from _
  · exact (readers.unary level rfl).from _
  · refine ((readers.postfixed false).from _).bind fun left right same => ?_
    exact readers.climb _ _ same

theorem alike_readUnary (level : Nat) {op : UnaryOp} (known : op.isKnown = true) :
    Alike floats (SamePhrase floats .operand) (readUnary (fuel + 1) level op)
      (readUnary (fuel + 1) level op) := by
  rw [readUnary]
  split
  · exact alike_stuck
  · refine alike_advance.bind fun token token' _ => ?_
    refine (readers.expr _).bind fun operand operand' same => ?_
    exact readers.climb _ _ (same.bind fun tree tree' same => .ok (same.unary known))

theorem alike_climb (level floor : Nat) {left right : Phrase}
    (same : SamePhrase floats .operand left right) :
    Alike floats (SamePhrase floats .operand) (climb (fuel + 1) level floor left)
      (climb (fuel + 1) level floor right) := by
  rw [climb, climb]
  split
  · exact alike_pure same
  split
  · refine alike_accepted .question ?_ (readers.climb _ _ same)
    refine (readers.expr _).bind fun thenValue thenValue' sameThen => ?_
    refine (alike_expect .colon).discard.bind fun _ _ _ => ?_
    refine (readers.expr _).bind fun elseValue elseValue' sameElse => ?_
    refine readers.climb _ _ (same.bind fun _ _ same => ?_)
    refine sameThen.bind fun _ _ sameThen => sameElse.bind fun _ _ sameElse => ?_
    exact .ok (same.ternary sameThen sameElse)
  split
  · refine alike_peek fun kind => ?_
    split
    · refine (alike_advance.discard.from _).bind fun _ _ _ => ?_
      refine (readers.expr _).bind fun stop stop' sameStop => ?_
      refine readers.climb _ _ (same.bind fun _ _ same => sameStop.bind fun _ _ sameStop => ?_)
      exact .ok (same.range _ sameStop)
    · exact (readers.climb _ _ same).from _
  · refine alike_peek fun kind => ?_
    split
    · exact (readers.climb _ _ same).from _
    · next op found =>
      have binds : op.level?.isSome = true := by
        obtain ⟨kind, -, found⟩ := Option.bind_eq_some_iff.1 found
        have level := (Option.filter_eq_some_iff.1 found).2
        rw [beq_iff_eq] at level
        exact level ▸ rfl
      refine (alike_advance.from _).bind fun token token' _ => ?_
      split
      · refine (readers.expr _).bind fun operand operand' sameOperand => ?_
        refine readers.climb _ _ (same.bind fun _ _ same => ?_)
        exact sameOperand.bind fun _ _ sameOperand => .ok (same.binary binds sameOperand)
      · refine (readers.expr _).bind fun operand operand' sameOperand => ?_
        refine readers.climb _ _ (same.bind fun _ _ same => ?_)
        exact sameOperand.bind fun _ _ sameOperand => .ok (same.binary binds sameOperand)

theorem alike_readPostfix (commands : Bool) :
    Alike floats (SamePhrase floats .operand) (readPostfix (fuel + 1) commands)
      (readPostfix (fuel + 1) commands) := by
  rw [readPostfix]
  exact readers.primary.bind fun _ _ same => readers.suffixes commands same

theorem alike_readCallArgs : Alike floats (Option.Rel (SameArgs floats)) (readCallArgs (fuel + 1))
      (readCallArgs (fuel + 1)) := by
  rw [readCallArgs]
  refine alike_accepted .leftParen ?_ (alike_pure .none)
  refine alike_nextIs .rightParen ?_ ?_
  · refine Alike.from ?_ _
    exact (alike_expect .rightParen).discard.bind fun _ _ _ => alike_pure (.some .nil)
  · refine (readers.args _).bind fun trees trees' same => ?_
    exact (alike_expect .rightParen).discard.bind fun _ _ _ => alike_pure (.some same.2)

theorem alike_readArgs (closing : TokenKind) :
    Alike floats (fun trees others => trees ≠ [] ∧ SameArgs floats trees others)
      (readArgs (fuel + 1) closing) (readArgs (fuel + 1) closing) := by
  rw [readArgs]
  refine readers.arg.bind fun tree tree' same => ?_
  have alone : SameArgs floats [tree] [tree'] := .cons same .nil
  refine alike_accepted .comma ?_ (alike_pure ⟨cons_ne_nil _ _, alone⟩)
  refine alike_nextIs closing ((alike_pure ⟨cons_ne_nil _ _, alone⟩).from _) ?_
  refine (readers.args closing).bind fun trees trees' others => ?_
  exact alike_pure ⟨cons_ne_nil _ _, .cons same others.2⟩

theorem alike_readOpenArgs :
    Alike floats (fun trees others => trees ≠ [] ∧ SameArgs floats trees others)
      (readOpenArgs (fuel + 1)) (readOpenArgs (fuel + 1)) := by
  rw [readOpenArgs]
  refine readers.arg.bind fun tree tree' same => ?_
  refine alike_accepted .comma ?_ (alike_pure ⟨cons_ne_nil _ _, .cons same .nil⟩)
  refine readers.openArgs.bind fun trees trees' others => ?_
  exact alike_pure ⟨cons_ne_nil _ _, .cons same others.2⟩

theorem alike_readArg : Alike floats (SameWaiting (SameExpr floats .argument)) (readArg (fuel + 1))
      (readArg (fuel + 1)) := by
  rw [readArg]
  refine alike_nextIs .star (Alike.from ?_ _) ?_
  · refine alike_advance.bind fun token token' _ => ?_
    refine (readers.expr _).bind fun value value' same => ?_
    exact alike_pure (same.bind fun _ _ same => .ok same.splat)
  · refine (readers.expr _).bind fun value value' same => ?_
    exact alike_pure (same.mono fun _ _ same => same.weaken)

theorem alike_readParams (closing : TokenKind) :
    Alike floats (List.Forall₂ (SameWaiting (SameParam floats)))
      (readParams (fuel + 1) closing) (readParams (fuel + 1) closing) := by
  rw [readParams]
  refine alike_accepted closing (alike_pure .nil) ?_
  refine readers.paramList.bind fun params params' same => ?_
  exact (alike_expect closing).discard.bind fun _ _ _ => alike_pure same

theorem alike_readParamList : Alike floats (List.Forall₂ (SameWaiting (SameParam floats)))
      (readParamList (fuel + 1)) (readParamList (fuel + 1)) := by
  rw [readParamList]
  refine (alike_expect .name).bind fun name name' both => ?_
  obtain ⟨sameName, kind⟩ := both
  have valid := sameName.isName (.inl kind)
  have rest : ∀ {param param' : Waiting PlainParam},
      SameWaiting (SameParam floats) param param' →
      Alike floats (List.Forall₂ (SameWaiting (SameParam floats)))
        (accept .comma >>= fun more =>
          if more = true then readParamList fuel >>= fun params => pure (param :: params)
          else pure [param])
        (accept .comma >>= fun more =>
          if more = true then readParamList fuel >>= fun params => pure (param' :: params)
          else pure [param']) := by
    intro param param' same
    refine alike_accepted .comma ?_ (alike_pure (.cons same .nil))
    exact readers.paramList.bind fun params params' others => alike_pure (.cons same others)
  refine alike_accepted .assign ?_ ?_
  · refine (readers.expr _).bind fun value value' same => rest ?_
    rw [sameName.word]
    refine (SameWaiting.option (.some same)).bind fun _ _ same => ?_
    rcases same with ⟨same | _, written⟩
    · exact .ok (SameParam.default valid same)
    · contradiction
  · refine rest ?_
    rw [sameName.word]
    exact .ok (.bare valid)

theorem alike_readBraced :
    Alike floats (SameWaiting (SameStmts floats false)) (readBraced (fuel + 1))
      (readBraced (fuel + 1)) := by
  rw [readBraced]
  refine alike_accepted .leftBrace ?_ ?_
  · refine readers.stmts.bind fun body body' same => ?_
    exact (alike_expect .rightBrace).discard.bind fun _ _ _ => alike_pure same
  · refine (alike_expect .kwDo).discard.bind fun _ _ _ => ?_
    refine readers.stmts.bind fun body body' same => ?_
    exact (alike_expect .kwEnd).discard.bind fun _ _ _ => alike_pure same

theorem alike_readBlock? :
    Alike floats (Option.Rel (SameWaiting (SameBlock floats))) (readBlock? (fuel + 1))
      (readBlock? (fuel + 1)) := by
  rw [readBlock?]
  refine alike_peek fun kind => Alike.from ?_ _
  split
  · refine alike_advance.bind fun token token' _ => ?_
    have rest : ∀ {params params' : List (Waiting PlainParam)},
        List.Forall₂ (SameWaiting (SameParam floats)) params params' →
        Alike floats (Option.Rel (SameWaiting (SameBlock floats)))
          (readStmts fuel >>= fun body => do
            discard (expect (if kind == some .leftBrace then .rightBrace else .kwEnd))
            return some (do return .mk token.loc () (← waitAll params) (← body)))
          (readStmts fuel >>= fun body => do
            discard (expect (if kind == some .leftBrace then .rightBrace else .kwEnd))
            return some (do return .mk token'.loc () (← waitAll params') (← body))) := by
      intro params params' same
      refine readers.stmts.bind fun body body' sameBody => ?_
      refine (alike_expect _).discard.bind fun _ _ _ => alike_pure (.some ?_)
      refine (SameWaiting.all same).bind fun _ _ same => sameBody.bind fun _ _ sameBody => ?_
      exact .ok ⟨sameParams same.1, sameBody⟩
    refine alike_accepted .pipe ?_ (rest .nil)
    exact (readers.params _).bind fun params params' same => rest same
  · exact alike_pure .none

theorem alike_readStmts : Alike floats (SameWaiting (SameStmts floats false)) (readStmts (fuel + 1))
      (readStmts (fuel + 1)) := by
  rw [readStmts]
  refine alike_skipTerminators.bind fun _ _ _ => ?_
  refine alike_peek fun next => Alike.from ?_ _
  have nothing : SameStmts floats false [] [] := ⟨trivial, rfl⟩
  split
  · exact alike_pure (.ok nothing)
  · split
    · refine readers.stmt.bind fun first first' same => ?_
      refine alike_nextIs .terminator (Alike.from ?_ _) ?_
      · refine readers.stmts.bind fun rest rest' others => alike_pure ?_
        exact same.bind fun _ _ same => others.bind fun _ _ others => .ok (same.cons others)
      · exact alike_pure (same.bind fun _ _ same => .ok (same.cons nothing))
    · exact alike_pure (.ok nothing)

theorem alike_readModifiers (start start' : Loc) {left right : Waiting PlainStmt}
    (same : SameWaiting (SameStmt floats) left right) :
    Alike floats (SameWaiting (SameStmt floats)) (readModifiers (fuel + 1) start left)
      (readModifiers (fuel + 1) start' right) := by
  rw [readModifiers, readModifiers]
  refine alike_peek fun kind => Alike.from ?_ _
  split
  · refine alike_advance.discard.bind fun _ _ _ => ?_
    refine (readers.expr _).bind fun condition condition' sameCondition => ?_
    refine readers.modifiers _ _ (sameCondition.bind fun _ _ sameCondition => ?_)
    refine same.bind fun _ _ same => .ok ?_
    exact .conditional (fun _ => ⟨rfl, rfl, rfl⟩) (absurd · Bool.false_ne_true) sameCondition same
      ⟨trivial, rfl⟩
  · exact alike_pure same

omit readers in
theorem sameArgs_getD {args args' : Option (List (Waiting PlainExpr))}
    (same : Option.Rel (SameArgs floats) args args') :
    SameArgs floats (args.getD []) (args'.getD []) ∧ args'.isSome = args.isSome := by
  cases same with
  | none => exact ⟨.nil, rfl⟩
  | some same => exact ⟨same, rfl⟩

variable {commands : Bool} {rest tokens : List Token} {value : Phrase}

omit readers in
theorem readSuffixes_command {dot : Token} (kind : dot.kind = .dot)
    (command : rest.head?.map Token.kind = some .command) :
    readSuffixes (fuel + 1) commands value (dot :: rest) =
      if commands then .ok (value, dot :: rest) else .error rest := by
  obtain ⟨_, text, loc, start, stop⟩ := dot
  subst kind
  cases rest with
  | nil => contradiction
  | cons next rest =>
    obtain ⟨_, text, loc, start, stop⟩ := next
    cases command
    cases commands <;> rfl

omit readers in
theorem readSuffixes_dot {dot : Token} (kind : dot.kind = .dot)
    (other : rest.head?.map Token.kind ≠ some .command) :
    readSuffixes (fuel + 1) commands value (dot :: rest) =
      (do
        let name ← expect .name
        let args ← readCallArgs fuel
        let block ← readBlock? fuel
        readSuffixes fuel commands ⟨value.start, do
          return .call name.loc (some (← value.tree)) name.word (← waitAll (args.getD []))
            (← waitOption block) args.isSome⟩ : Reader Phrase) rest := by
  obtain ⟨_, text, loc, start, stop⟩ := dot
  subst kind
  cases rest with
  | nil => rfl
  | cons next rest =>
    obtain ⟨nextKind, text, loc, start, stop⟩ := next
    cases nextKind <;> first | rfl | exact absurd rfl other

omit readers in
theorem readSuffixes_bracket {opening : Token} (kind : opening.kind = .leftBracket) :
    readSuffixes (fuel + 1) commands value (opening :: rest) =
      (do
        let args ← readArgs fuel .rightBracket
        discard (expect .rightBracket)
        readSuffixes fuel commands ⟨value.start, do
          return .index value.start (← value.tree) (← waitAll args)⟩ : Reader Phrase) rest := by
  obtain ⟨_, text, loc, start, stop⟩ := opening
  subst kind
  rfl

omit readers in
theorem readSuffixes_other {token : Token} (noDot : token.kind ≠ .dot)
    (noBracket : token.kind ≠ .leftBracket) :
    readSuffixes (fuel + 1) commands value (token :: rest) = .ok (value, token :: rest) := by
  obtain ⟨kind, text, loc, start, stop⟩ := token
  cases kind <;> first | rfl | contradiction

theorem alike_readSuffixes (commands : Bool) {left right : Phrase}
    (same : SamePhrase floats .operand left right) :
    Alike floats (SamePhrase floats .operand) (readSuffixes (fuel + 1) commands left)
      (readSuffixes (fuel + 1) commands right) := by
  intro tokens tokens' sameTokens
  cases sameTokens with
  | nil => exact .ok same .nil
  | @cons token token' rest rest' first others =>
    by_cases dot : token.kind = .dot
    · by_cases command : rest.head?.map Token.kind = some .command
      · rw [readSuffixes_command dot command, readSuffixes_command (first.kind.trans dot)
          ((head?_kind others).trans command)]
        split
        · exact .ok same (.cons first others)
        · exact .stuck _ _
      · rw [readSuffixes_dot dot command, readSuffixes_dot (first.kind.trans dot)
          (head?_kind others ▸ command)]
        refine Alike.bind (alike_expect .name) (fun name name' both => ?_) others
        obtain ⟨sameName, kind⟩ := both
        refine readers.callArgs.bind fun args args' sameArgs => ?_
        refine readers.block.bind fun block block' sameBlock => readers.suffixes _ ?_
        obtain ⟨sameArgs, written⟩ := sameArgs_getD sameArgs
        rw [sameName.word, written]
        refine same.bind fun _ _ same => ?_
        refine (SameWaiting.all sameArgs).bind fun _ _ sameArgs => ?_
        refine (SameWaiting.option sameBlock).bind fun _ _ sameBlock => .ok ?_
        exact .call (absurd · (Option.some_ne_none _)) (sameName.isName (.inl kind)) (.some same)
          sameArgs.1 sameBlock.1
    · by_cases bracket : token.kind = .leftBracket
      · rw [readSuffixes_bracket bracket, readSuffixes_bracket (first.kind.trans bracket)]
        refine Alike.bind (readers.args _) (fun args args' both => ?_) others
        obtain ⟨nonempty, sameArgs⟩ := both
        refine (alike_expect _).discard.bind fun _ _ _ => readers.suffixes _ ?_
        refine same.bind fun _ _ same => ?_
        refine (SameWaiting.all sameArgs).bind fun trees _ both => .ok ?_
        obtain ⟨sameArgs, length⟩ := both
        refine same.index ?_ sameArgs
        rintro rfl
        exact nonempty (eq_nil_of_length_eq_zero length.symm)
      · rw [readSuffixes_other dot bracket, readSuffixes_other (first.kind ▸ dot)
          (first.kind ▸ bracket)]
        exact .ok same (.cons first others)

theorem alike_readPrimary : Alike floats (SamePhrase floats .operand) (readPrimary (fuel + 1))
      (readPrimary (fuel + 1)) := by
  unfold readPrimary
  refine alike_peek fun next => ?_
  split
  · refine (alikeFrom_advance .name).bind fun name name' both => ?_
    obtain ⟨same, kind⟩ := both
    refine readers.callArgs.bind fun args args' sameArgs => ?_
    refine readers.block.bind fun block block' sameBlock => ?_
    have noBlock : block'.isNone = block.isNone := by cases sameBlock <;> rfl
    have noArgs : args'.isNone = args.isNone := by cases sameArgs <;> rfl
    rw [noBlock, noArgs]
    split
    · exact alike_pure (.ok (sameExpr_name same kind))
    · next marked =>
      obtain ⟨sameArgs, written⟩ := sameArgs_getD sameArgs
      rw [same.word, written]
      refine alike_pure ?_
      refine (SameWaiting.all sameArgs).bind fun _ _ sameArgs => ?_
      refine (SameWaiting.option sameBlock).bind fun inner _ both => .ok ?_
      obtain ⟨sameBlock, there⟩ := both
      refine .call ?_ (same.isName (.inl kind)) .none sameArgs.1 sameBlock
      rintro - - rfl
      have noBlock : block.isNone = true := by
        rw [← Option.not_isSome, ← there]
        rfl
      rw [noBlock, Bool.and_true] at marked
      simpa [Option.isSome_iff_ne_none] using marked
  · refine (alikeFrom_advance .constant).bind fun token token' both => ?_
    obtain ⟨same, kind⟩ := both
    exact alike_pure (.ok (sameExpr_constant same kind))
  · refine (alikeFrom_advance .global).bind fun token token' both => ?_
    obtain ⟨same, kind⟩ := both
    exact alike_pure (.ok (sameExpr_global same kind))
  · refine (alikeFrom_advance .int).bind fun token token' both => ?_
    obtain ⟨same, kind⟩ := both
    exact alike_pure (sameWaiting_int same)
  · refine (alikeFrom_advance .float).bind fun token token' both => ?_
    obtain ⟨same, kind⟩ := both
    exact alike_pure (sameWaiting_float same kind)
  · refine (alikeFrom_advance .string).bind fun token token' both => ?_
    obtain ⟨same, kind⟩ := both
    exact alike_pure (sameWaiting_string same)
  · refine (alikeFrom_advance .symbol).bind fun token token' both => ?_
    obtain ⟨same, kind⟩ := both
    exact alike_pure (.ok (sameExpr_symbol same kind))
  · exact (alike_advance.from _).bind fun token token' _ => alike_pure (.ok ⟨trivial, rfl⟩)
  · exact (alike_advance.from _).bind fun token token' _ => alike_pure (.ok ⟨trivial, rfl⟩)
  · exact (alike_advance.from _).bind fun token token' _ => alike_pure (.ok ⟨trivial, rfl⟩)
  · refine (alike_advance.from _).bind fun token token' _ => ?_
    refine alike_nextIs .rightBracket (Alike.from ?_ _) ?_
    · refine (alike_expect _).discard.bind fun _ _ _ => alike_pure (.ok ?_)
      exact SameExpr.array .nil
    · refine (readers.args _).bind fun args args' sameArgs => ?_
      refine (alike_expect _).discard.bind fun _ _ _ => alike_pure ?_
      exact (SameWaiting.all sameArgs.2).bind fun _ _ sameArgs => .ok (.array sameArgs.1)
  · refine (alike_advance.from _).bind fun token token' _ => ?_
    refine (readers.expr _).bind fun inner inner' same => ?_
    exact (alike_expect _).discard.bind fun _ _ _ => alike_pure same
  · refine (alike_advance.from _).bind fun token token' _ => ?_
    have rest : ∀ {params params' : List (Waiting PlainParam)},
        List.Forall₂ (SameWaiting (SameParam floats)) params params' →
        Alike floats (SamePhrase floats .operand)
          (readBraced fuel >>= fun body => pure
            ⟨token.loc, do return .lambda token.loc () (← waitAll params) (← body)⟩)
          (readBraced fuel >>= fun body => pure
            ⟨token'.loc, do return .lambda token'.loc () (← waitAll params') (← body)⟩) := by
      intro params params' same
      refine readers.braced.bind fun body body' sameBody => alike_pure ?_
      refine (SameWaiting.all same).bind fun _ _ same => sameBody.bind fun _ _ sameBody => ?_
      exact .ok (.lambda (sameParams same.1) sameBody)
    refine alike_accepted .leftParen ?_ (rest .nil)
    exact (readers.params _).bind fun params params' same => rest same
  · exact alike_stuck.from _

theorem alike_readStmt : Alike floats (SameWaiting (SameStmt floats)) (readStmt (fuel + 1))
      (readStmt (fuel + 1)) := by
  intro tokens tokens' sameTokens
  cases sameTokens with
  | nil => exact .stuck [] []
  | cons first others =>
    refine readers.simpleStmt.bind (fun stmt stmt' same => ?_) (.cons first others)
    exact readers.modifiers _ _ same

theorem alike_readJump (kind : JumpKind) :
    Alike floats (SameWaiting (SameStmt floats)) (readJump (fuel + 1) kind)
      (readJump (fuel + 1) kind) := by
  rw [readJump]
  refine alike_advance.bind fun token token' _ => ?_
  refine alike_peek fun next => Alike.from ?_ _
  split
  · split
    · refine (readers.expr _).bind fun value value' same => alike_pure ?_
      exact same.bind fun _ _ same => .ok (SameStmt.jump same)
    · exact alike_pure (.ok ⟨⟨trivial, trivial⟩, rfl⟩)
  · exact alike_pure (.ok ⟨⟨trivial, trivial⟩, rfl⟩)

theorem alike_readElse : Alike floats (SameWaiting (SameStmts floats true)) (readElse (fuel + 1))
      (readElse (fuel + 1)) := by
  rw [readElse]
  refine alike_peek fun next => Alike.from ?_ _
  split
  · refine alike_advance.bind fun token token' _ => ?_
    refine (readers.head .condition).bind fun condition condition' sameCondition => ?_
    refine alike_thenMark.bind fun _ _ _ => ?_
    refine readers.stmts.bind fun body body' sameBody => ?_
    refine readers.elseBranch.bind fun others others' sameOthers => alike_pure ?_
    refine sameOthers.bind fun _ _ sameOthers => sameCondition.bind fun _ _ sameCondition => ?_
    refine sameBody.bind fun _ _ sameBody => .ok ?_
    exact .conditional (absurd · Bool.false_ne_true) (fun _ => ⟨rfl, rfl⟩) sameCondition sameBody
      sameOthers
  · refine alike_advance.discard.bind fun _ _ _ => ?_
    exact readers.stmts.mono fun _ _ same => same.mono fun _ _ same => same.chained true
  · exact alike_pure (.ok ⟨trivial, rfl⟩)

theorem alike_readSimpleStmt :
    Alike floats (SameWaiting (SameStmt floats)) (readSimpleStmt (fuel + 1))
      (readSimpleStmt (fuel + 1)) := by
  rw [readSimpleStmt]
  refine alike_peek fun next => Alike.from ?_ _
  split
  · refine alike_advance.bind fun token token' _ => ?_
    refine (alike_expect .name).bind fun name name' both => ?_
    obtain ⟨sameName, kind⟩ := both
    have rest : ∀ {params params' : List (Waiting PlainParam)},
        List.Forall₂ (SameWaiting (SameParam floats)) params params' →
        Alike floats (SameWaiting (SameStmt floats))
          (terminators >>= fun _ => do
            let body ← readStmts fuel
            discard (expect .kwEnd)
            return do return .define token.loc () name.word (← waitAll params) (← body))
          (terminators >>= fun _ => do
            let body ← readStmts fuel
            discard (expect .kwEnd)
            return do return .define token'.loc () name'.word (← waitAll params') (← body)) := by
      intro params params' same
      refine alike_terminators.bind fun _ _ _ => ?_
      refine readers.stmts.bind fun body body' sameBody => ?_
      refine (alike_expect _).discard.bind fun _ _ _ => alike_pure ?_
      rw [sameName.word]
      refine (SameWaiting.all same).bind fun _ _ same => sameBody.bind fun _ _ sameBody => ?_
      exact .ok (SameStmt.define (sameName.isName (.inl kind)) (sameParams same.1) sameBody)
    refine alike_accepted .leftParen ?_ (rest .nil)
    exact (readers.params _).bind fun params params' same => rest same
  · refine alike_advance.bind fun token token' _ => ?_
    refine (readers.head .condition).bind fun condition condition' sameCondition => ?_
    refine alike_thenMark.bind fun _ _ _ => ?_
    refine readers.stmts.bind fun body body' sameBody => ?_
    refine readers.elseBranch.bind fun others others' sameOthers => ?_
    refine (alike_expect _).discard.bind fun _ _ _ => alike_pure ?_
    refine sameOthers.bind fun _ _ sameOthers => sameCondition.bind fun _ _ sameCondition => ?_
    refine sameBody.bind fun _ _ sameBody => .ok ?_
    exact .conditional (absurd · Bool.false_ne_true) (absurd · Bool.false_ne_true) sameCondition
      sameBody sameOthers
  · refine alike_advance.bind fun token token' _ => ?_
    refine (readers.head .condition).bind fun condition condition' sameCondition => ?_
    refine alike_thenMark.bind fun _ _ _ => ?_
    refine readers.stmts.bind fun body body' sameBody => ?_
    have rest : ∀ {others others' : Waiting (List PlainStmt)},
        SameWaiting (SameStmts floats false) others others' →
        Alike floats (SameWaiting (SameStmt floats))
          (discard (expect .kwEnd) >>= fun _ => pure (do
            let elseBody ← others
            return .conditional token.loc (← condition.tree) (← body) elseBody true false false))
          (discard (expect .kwEnd) >>= fun _ => pure (do
            let elseBody ← others'
            return .conditional token'.loc (← condition'.tree) (← body') elseBody true false
              false)) := by
      intro others others' sameOthers
      refine (alike_expect _).discard.bind fun _ _ _ => alike_pure ?_
      refine sameOthers.bind fun _ _ sameOthers => sameCondition.bind fun _ _ sameCondition => ?_
      refine sameBody.bind fun _ _ sameBody => .ok ?_
      exact .conditional (absurd · Bool.false_ne_true) (absurd · Bool.false_ne_true) sameCondition
        sameBody sameOthers
    refine alike_accepted .kwElse ?_ (rest (.ok ⟨trivial, rfl⟩))
    exact readers.stmts.bind fun others others' sameOthers => rest sameOthers
  · refine alike_advance.bind fun token token' _ => ?_
    refine (readers.head .condition).bind fun condition condition' sameCondition => ?_
    refine alike_terminators.bind fun _ _ _ => ?_
    refine readers.stmts.bind fun body body' sameBody => ?_
    refine (alike_expect _).discard.bind fun _ _ _ => alike_pure ?_
    refine sameCondition.bind fun _ _ sameCondition => sameBody.bind fun _ _ sameBody => ?_
    exact .ok (SameStmt.whileLoop sameCondition sameBody)
  · exact readers.jump _
  · exact readers.jump _
  · exact readers.jump _
  · refine (readers.head .statement).bind fun value value' same => alike_pure ?_
    exact same.bind fun _ _ same => .ok (SameStmt.expression same)

theorem alikeFrom_readTargets (next : Option TokenKind) : AlikeFrom floats next
      (fun trees others => (next = some .comma → trees ≠ []) ∧
        List.Forall₂ (SamePhrase floats .operand) trees others)
      (readTargets (fuel + 1)) (readTargets (fuel + 1)) := by
  rw [readTargets]
  intro tokens tokens' sameTokens starts
  by_cases comma : next = some .comma
  · cases sameTokens with
    | nil => rw [comma] at starts; contradiction
    | cons first others =>
      have kind := Option.some.inj (starts.trans comma)
      rw [run_bind, run_bind, run_accept kind, run_accept (first.kind.trans kind), ok_bind, ok_bind]
      simp only [if_true]
      refine (readers.postfixed false).bind (fun target target' same => ?_) others
      intro left right sameTokens
      refine ((readers.targets _).bind fun trees trees' same' => ?_) sameTokens rfl
      exact alike_pure ⟨fun _ => cons_ne_nil _ _, .cons same same'.2⟩
  · have other : tokens.head?.map Token.kind ≠ some .comma := starts ▸ comma
    rw [run_bind, run_bind, run_accept_ne other, run_accept_ne (head?_kind sameTokens ▸ other)]
    exact .ok ⟨fun isComma => absurd isComma comma, .nil⟩ sameTokens

omit readers in
theorem isTarget_unplaced (tree : PlainExpr) :
    (tree.reform .unplaced).isTarget = tree.isTarget := by
  cases tree with
  | call => rw [Expr.reform_call]; rfl
  | _ => rfl

omit readers in
/-- Of trees that are alike both can be assigned to or none. -/
theorem sameWaiting_assignable {tree tree' : PlainExpr}
    (same : SameExpr floats .operand tree tree') :
    SameWaiting
      (fun target target' => target.isTarget = true ∧ SameExpr floats .operand target target')
      (assignable tree) (assignable tree') := by
  have decided : ∀ tree : PlainExpr, assignable tree =
      if tree.isTarget then .ok tree else .error (.assignmentTarget tree.loc) := by
    intro tree
    cases tree <;> rfl
  have both : tree'.isTarget = tree.isTarget := by
    rw [← isTarget_unplaced tree', ← same.unplaced, isTarget_unplaced]
  rw [decided, decided, both]
  split
  · next isTarget => exact .ok ⟨isTarget, same⟩
  · exact .error _ _

omit readers in
theorem sameWaiting_targets {targets targets' : List Phrase}
    (same : List.Forall₂ (SamePhrase floats .operand) targets targets') :
    List.Forall₂
      (SameWaiting fun target target' =>
        target.isTarget = true ∧ SameExpr floats .operand target target')
      (targets.map fun target => target.tree >>= assignable)
      (targets'.map fun target => target.tree >>= assignable) := by
  rw [forall₂_map_left_iff, forall₂_map_right_iff]
  exact same.imp fun _ _ same => same.bind fun _ _ same => sameWaiting_assignable same

omit readers in
theorem HeadForms.assigns_position {forms : HeadForms} (assigns : forms.assignment = true) :
    forms.position.assigns = true := by
  rcases forms with ⟨_, _ | _⟩
  · cases assigns
    rfl
  · rfl

theorem alike_readHead (forms : HeadForms) :
    Alike floats (SamePhrase floats forms.position) (readHead (fuel + 1) forms)
      (readHead (fuel + 1) forms) := by
  have weaken : ∀ {phrase phrase' : Phrase}, SamePhrase floats .operand phrase phrase' →
      SamePhrase floats forms.position phrase phrase' :=
    fun same => same.mono fun _ _ same => same.weaken
  rw [readHead]
  refine alike_peek fun next => ?_
  split
  · refine (alikeFrom_advance .command).bind fun name name' both => ?_
    obtain ⟨sameName, kind⟩ := both
    refine readers.openArgs.bind fun args args' both => alike_pure ?_
    obtain ⟨nonempty, sameArgs⟩ := both
    rw [SamePhrase, sameName.word]
    refine (SameWaiting.all sameArgs).bind fun trees _ both => .ok ?_
    obtain ⟨sameArgs, length⟩ := both
    refine .call ?_ (sameName.isName (.inr kind)) .none sameArgs .none
    rintro - rfl -
    exact absurd (eq_nil_of_length_eq_zero length.symm) nonempty
  · exact ((readers.expr _).mono fun _ _ same => weaken same).from _
  · exact ((readers.expr _).mono fun _ _ same => weaken same).from _
  · exact ((readers.expr _).mono fun _ _ same => weaken same).from _
  · refine ((readers.postfixed true).from _).bind fun head head' same => ?_
    refine alike_peek fun next => ?_
    split
    · refine (alike_advance.discard.from _).bind fun _ _ _ => ?_
      refine (alike_expect .command).bind fun name name' both => ?_
      obtain ⟨sameName, kind⟩ := both
      refine readers.openArgs.bind fun args args' both => alike_pure ?_
      obtain ⟨nonempty, sameArgs⟩ := both
      rw [SamePhrase, sameName.word]
      refine same.bind fun _ _ same => ?_
      refine (SameWaiting.all sameArgs).bind fun trees _ both => .ok ?_
      obtain ⟨sameArgs, length⟩ := both
      exact .call (absurd · (Option.some_ne_none _)) (sameName.isName (.inr kind)) (.some same)
        sameArgs .none
    · split
      · exact alike_stuck.from _
      · next assigns =>
        refine (alike_advance.discard.from _).bind fun _ _ _ => ?_
        refine (readers.head .assigned).bind fun value value' sameValue => alike_pure ?_
        refine (same.bind fun _ _ same => sameWaiting_assignable same).bind fun _ _ sameTarget => ?_
        refine sameValue.bind fun _ _ sameValue => .ok ?_
        exact .assign (HeadForms.assigns_position (by simpa using assigns)) sameTarget.1
          sameTarget.2 sameValue
    · split
      · exact alike_stuck.from _
      · next assigns =>
        refine (alikeFrom_advance .opAssign).bind fun token token' both => ?_
        obtain ⟨sameToken, kind⟩ := both
        refine (readers.head .assigned).bind fun value value' sameValue => alike_pure ?_
        obtain ⟨operator, opAssigns⟩ := assignOperator_assigns sameToken kind
        rw [SamePhrase, operator]
        refine (same.bind fun _ _ same => sameWaiting_assignable same).bind fun _ _ sameTarget => ?_
        refine sameValue.bind fun _ _ sameValue => .ok ?_
        exact .opAssign (HeadForms.assigns_position (by simpa using assigns)) sameTarget.1
          opAssigns sameTarget.2 sameValue
    · split
      · exact alike_stuck.from _
      · next several =>
        have position : forms.position = .head := if_pos (by simpa using several)
        refine (readers.targets _).bind fun others others' both => ?_
        obtain ⟨there, sameOthers⟩ := both
        refine (alike_expect _).discard.bind fun _ _ _ => ?_
        refine readers.openArgs.bind fun args args' both => alike_pure ?_
        obtain ⟨nonempty, sameArgs⟩ := both
        rw [SamePhrase, position]
        refine (SameWaiting.all (sameWaiting_targets (.cons same sameOthers))).bind
          fun targets _ both => ?_
        obtain ⟨sameTargets, targetsLength⟩ := both
        refine (SameWaiting.all sameArgs).bind fun trees _ both => .ok ?_
        obtain ⟨sameArgs, length⟩ := both
        obtain ⟨areTargets, sameTargets⟩ := (forall₂_and_left _ _).1 sameTargets
        refine .multiAssign ?_ areTargets sameTargets ?_ sameArgs
        · have := length_pos_of_ne_nil (there rfl)
          simp only [length_map, length_cons] at targetsLength
          omega
        · rintro rfl
          exact nonempty (eq_nil_of_length_eq_zero length.symm)
    · exact ((readers.climb _ _ same).mono fun _ _ same => weaken same).from _

omit readers in
theorem readersAlike : ∀ fuel, ReadersAlike floats fuel
  | 0 => readersAlike_zero
  | fuel + 1 =>
    have readers := readersAlike fuel
    { expr := alike_readExpr readers
      unary := alike_readUnary readers
      climb := alike_climb readers
      postfixed := alike_readPostfix readers
      suffixes := alike_readSuffixes readers
      primary := alike_readPrimary readers
      callArgs := alike_readCallArgs readers
      args := alike_readArgs readers
      openArgs := alike_readOpenArgs readers
      arg := alike_readArg readers
      params := alike_readParams readers
      paramList := alike_readParamList readers
      block := alike_readBlock? readers
      braced := alike_readBraced readers
      stmts := alike_readStmts readers
      stmt := alike_readStmt readers
      modifiers := alike_readModifiers readers
      simpleStmt := alike_readSimpleStmt readers
      elseBranch := alike_readElse readers
      jump := alike_readJump readers
      head := alike_readHead readers
      targets := alikeFrom_readTargets readers }

omit readers in
theorem parseTokens_alike {tokens' : List Token} (same : SameTokens floats tokens tokens') :
    SameWaiting (SameStmts floats false) (parseTokens tokens) (parseTokens tokens') := by
  have result := (readersAlike (parseFuel tokens)).stmts same
  unfold parseTokens
  rw [show parseFuel tokens' = parseFuel tokens by simp only [parseFuel, same.length_eq]]
  change SameResult floats _ ((readStmts (parseFuel tokens)).run tokens)
    ((readStmts (parseFuel tokens)).run tokens') at result
  revert result
  generalize (readStmts (parseFuel tokens)).run tokens = left
  generalize (readStmts (parseFuel tokens)).run tokens' = right
  rintro (⟨alike, nil | cons⟩ | _)
  · exact alike
  · exact .error _ _
  · exact .error _ _

omit readers in
theorem scanFrom_wellSpelled {codes : List CodePoint} : ∀ {offset skip : Nat} {loc : Loc}
    {tokens : List Token},
    scanFrom offset loc skip codes (codes.map CodePoint.toChar) = .ok tokens →
    ∀ token ∈ tokens, wellSpelled token.kind token.text.chars = true := by
  induction codes with
  | nil =>
    intro offset skip loc tokens scanned
    cases skip <;> cases scanned <;> exact nofun
  | cons code codes ih =>
    intro offset skip loc tokens scanned
    cases skip with
    | succ skip => exact ih scanned
    | zero =>
      rw [map_cons, scanFrom] at scanned
      split at scanned
      · contradiction
      · next lexeme more read =>
        cases lexeme with
        | blank => exact ih scanned
        | token kind =>
          obtain ⟨after, scannedAfter, rfl⟩ := map_eq_ok.1 scanned
          refine forall_mem_cons.2 ⟨?_, ih scannedAfter⟩
          have spelled := at?_wellSpelled read
          simpa [Text.chars, map_take] using spelled

omit readers in
theorem scan_wellSpelled {text : Text} (scanned : scan text = .ok tokens) :
    ∀ token ∈ tokens, wellSpelled token.kind token.text.chars = true :=
  scanFrom_wellSpelled scanned

omit readers in
theorem markCommands_laidOut : ∀ {before : Option TokenKind},
    ∀ token ∈ markCommands before tokens, ∃ original ∈ tokens, token.text = original.text ∧
      (token.kind = original.kind ∨ original.kind = .name ∧ token.kind = .command) := by
  induction tokens with
  | nil => exact nofun
  | cons first rest ih =>
    intro before token member
    rcases mem_cons.1 member with rfl | member
    · refine ⟨first, mem_cons_self, ?_⟩
      split
      · next marked =>
        exact ⟨rfl, .inr ⟨by simpa using (Bool.and_eq_true_iff.1 marked).1, rfl⟩⟩
      · exact ⟨rfl, .inl rfl⟩
    · obtain ⟨original, there, same⟩ := ih token member
      exact ⟨original, mem_cons_of_mem _ there, same⟩

omit readers in
theorem insertTerminators_laidOut : ∀ {state : LayoutState},
    ∀ token ∈ insertTerminators state tokens, token.kind = .terminator ∨ token ∈ tokens := by
  induction tokens with
  | nil => exact nofun
  | cons first rest ih =>
    intro state token member
    have later : ∀ {state : LayoutState}, token ∈ insertTerminators state rest →
        token.kind = .terminator ∨ token ∈ first :: rest :=
      fun member => (ih token member).imp id (mem_cons_of_mem _)
    rw [insertTerminators] at member
    split at member
    · split at member
      · rcases mem_cons.1 member with rfl | member
        · exact .inl rfl
        · exact later member
      · exact later member
    · split at member
      · rcases mem_cons.1 member with rfl | member
        · exact .inl rfl
        · exact later member
      · rcases mem_cons.1 member with rfl | member
        · exact .inr mem_cons_self
        · exact later member

omit readers in
/-- Layout keeps the form of tokens. -/
theorem layOut_valid {tokens : List Token}
    (spelled : ∀ token ∈ tokens, wellSpelled token.kind token.text.chars = true)
    (allowed : ∀ token ∈ tokens, token.kind = .float → floats (floatValue token)) :
    ∀ token ∈ layOut tokens, wellSpelled token.kind token.text.chars = true ∧
      (token.kind = .float → floats (floatValue token)) := by
  intro token member
  rcases insertTerminators_laidOut token member with ended | member
  · rw [ended]
    exact ⟨rfl, nofun⟩
  · obtain ⟨original, there, text, kind | ⟨name, command⟩⟩ := markCommands_laidOut token member
    · have value : floatValue token = floatValue original := by
        unfold floatValue
        rw [text]
      rw [kind, text, value]
      exact ⟨spelled original there, allowed original there⟩
    · have valid := spelled original there
      rw [name] at valid
      rw [command, text]
      exact ⟨valid, nofun⟩

omit readers in
theorem parse_wellFormed {text : Text} {program : PlainProgram}
    (allowed : ∀ tokens, scan text = .ok tokens →
      ∀ token ∈ tokens, token.kind = .float → floats (floatValue token))
    (parsed : parse text = .ok program) : stmtsWellFormed (.plain floats) false program := by
  unfold parse at parsed
  split at parsed
  · contradiction
  · next tokens scanned =>
    have valid := layOut_valid (scan_wellSpelled scanned) (allowed tokens scanned)
    have same : SameTokens floats (layOut tokens) (layOut tokens) :=
      forall₂_same.2 fun token member => ⟨rfl, (valid token member).1, (valid token member).2⟩
    have result := parseTokens_alike same
    rw [parsed] at result
    cases result with
    | ok alike => exact alike.wellFormed

omit readers in
theorem wellFormed_of_parse {text : Text} {program : PlainProgram}
    (parsed : parse text = .ok program) : stmtsWellFormed (.plain fun _ => True) false program :=
  parse_wellFormed (fun _ _ _ _ _ => trivial) parsed

end Hoist
