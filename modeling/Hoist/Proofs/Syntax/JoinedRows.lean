import Hoist.Proofs.Syntax.Rows

/-!
The pieces of a written tree do not run together.  Each row is taken with what follows it: a row
that ends in a word needs a follower that ends the word, and one that ends in a name needs a
follower that does not make it the head of a command call.
-/

namespace Hoist

open Lexeme

/-- Floats whose written form is read as one word: those that read back, and infinity, which is read
as a name. -/
def IsFloatWord (x : Float) : Prop :=
  Decimal.ReadsBack x ∨ Decimal.floatText Decimal.literalStyle x = "inf"

namespace Row

open Piece

/-- What may follow an expression. -/
def follows (rest : Row) : Bool := endsWord (chars rest) && leavesName rest

/-- First characters that would join an operator in front of them. -/
def joinsOperator (c : Char) : Bool := c == '=' || c == '>' || c == '.' || c == '*' || c == '|'

/-- Whether a row starts with a word that is no dot; unless it is a `loose` one, the word does not
join an operator in front of it. -/
def opens (loose : Bool) : Row → Bool
  | .word kind (first :: _) :: _ => kind != .dot && (loose || !joinsOperator first.toChar)
  | _ => false

variable {spelling name method : String} {delimiters : List TokenKind} {rows : List Row}
  {row condition left right : Row} {loose parens : Bool} {block : Option PlainBlock}
  {args : List PlainExpr} {op : BinaryOp} {trees : PlainProgram} {more : List Char}
  {value : Literal} {loc : Loc} {c : Char}

theorem opens_append (right : Row) (opening : opens loose left = true) :
    opens loose (left ++ right) = true := by
  match left with
  | .word kind (first :: more) :: rest => exact opening

theorem opens_loose (opening : opens loose row = true) : opens true row = true := by
  match row with
  | .word kind (first :: more) :: rest =>
    simp only [opens, Bool.and_eq_true] at opening ⊢
    exact ⟨opening.1, rfl⟩

theorem startsWithGap_of_opens (opening : opens loose row = true) : startsWithGap row = false := by
  match row with
  | .word kind (first :: more) :: rest => rfl

theorem startsWithDot_of_opens (opening : opens loose row = true) : startsWithDot row = false := by
  match row with
  | .word kind (first :: more) :: rest =>
    simp only [opens, Bool.and_eq_true, bne_iff_ne, ne_eq] at opening
    simp [startsWithDot, opening.1]

theorem opens_atLevel (level own : Nat) (opening : opens loose row = true) :
    opens loose (atLevel level own row) = true := by
  unfold atLevel
  split
  · cases loose <;> rfl
  · exact opening

/-- The first character of a spelling that starts with none of the joining characters. -/
theorem opens_spelled {kind : TokenKind} {first : Char} (split : spelling.toList = first :: more)
    (word : kind ≠ .dot) (apart : joinsOperator first = false) (loose : Bool) (rest : Row) :
    opens loose (spelled kind spelling :: rest) = true := by
  simp [spelled, split, opens, word, apart]

theorem joinsOperator_iff :
    joinsOperator c = false ↔ c ≠ '=' ∧ c ≠ '>' ∧ c ≠ '.' ∧ c ≠ '*' ∧ c ≠ '|' := by
  simp [joinsOperator, and_assoc]

theorem joinsOperator_eq_false (apart : 48 ≤ c.toNat ∧ c.toNat ≤ 57 ∨ 65 ≤ c.toNat ∧ c.toNat ≤ 122)
    :
    joinsOperator c = false := by
  rw [joinsOperator_iff]
  refine ⟨?_, ?_, ?_, ?_, ?_⟩ <;> rintro rfl <;> exact absurd apart (by decide)

variable {kind : TokenKind} {rest lines : Row} {complete : Bool} {depth : Nat}

theorem opens_isSpelled {starts : Char → Bool} {ending : List Char → Bool}
    (valid : isSpelled starts ending spelling = true) (word : kind ≠ .dot)
    (letters : ∀ c, starts c = true → 65 ≤ c.toNat ∧ c.toNat ≤ 122) (loose : Bool) (rest : Row) :
    opens loose (spelled kind spelling :: rest) = true := by
  obtain ⟨first, body, mark, split, starting, -⟩ := isSpelled_cases valid
  exact opens_spelled split word (joinsOperator_eq_false (.inr (letters first starting))) loose rest

theorem opens_name (valid : isName spelling = true) (loose : Bool) (rest : Row) :
    opens loose (spelled .name spelling :: rest) = true := by
  refine opens_isSpelled (Bool.and_eq_true_iff.1 valid).1 (by decide) ?_ loose rest
  intro c starting
  have := startsName_range starting
  omega

theorem opens_constant (valid : isConstant spelling = true) (loose : Bool) (rest : Row) :
    opens loose (spelled .constant spelling :: rest) = true := by
  refine opens_isSpelled valid (by decide) ?_ loose rest
  intro c starting
  have := isUpper_iff.1 starting
  omega

theorem floatKind_ne_dot (x : Float) : floatKind x ≠ .dot := by
  unfold floatKind
  split <;> decide

theorem opens_literal (valid : value.WellFormed IsFloatWord) (loose : Bool) (rest : Row) :
    opens loose (literal value :: rest) = true := by
  have digit : ∀ {c : Char}, c.isDigit = true → joinsOperator c = false := by
    intro c isDigit
    apply joinsOperator_eq_false
    simp only [Char.isDigit, Bool.and_eq_true, decide_eq_true_eq] at isDigit
    exact .inl isDigit
  cases value with
  | nil => cases loose <;> rfl
  | bool value => cases value <;> cases loose <;> rfl
  | int value =>
    change opens loose (spelled .int (toString value.natAbs) :: rest) = true
    have valid := areDigits_toDigits value.natAbs
    cases split : Nat.toDigits 10 value.natAbs with
    | nil => exact absurd split Nat.toDigits_ne_nil
    | cons first more =>
      rw [split] at valid
      refine opens_spelled ((Decimal.toList_toString _).trans split) (by decide) ?_ loose rest
      exact digit (valid first (by simp))
  | float value =>
    rw [literal_float]
    rcases valid with ⟨⟨mantissa, exponent, finite⟩, -⟩ | infinite
    · obtain ⟨whole, fraction, exponent, split, nonempty, digits, -⟩ :=
        Decimal.isFloat_floatText finite
      cases whole with
      | nil => exact absurd rfl nonempty
      | cons first more =>
        rw [List.cons_append] at split
        exact opens_spelled split (floatKind_ne_dot value)
          (digit (digits first (by simp))) loose rest
    · have split : (Decimal.floatText Decimal.literalStyle value).toList = 'i' :: ['n', 'f'] := by
        rw [infinite]
        rfl
      exact opens_spelled split (floatKind_ne_dot value) (by decide) loose rest
  | str value => simp [literal, StringLiteral.toList_render, opens, joinsOperator]

theorem opens_separated_cons {first : Row} (rest : List Row) (opening : opens loose first = true) :
    opens loose (separated (first :: rest)) = true := by
  cases rest with
  | nil => exact opening
  | cons second rest => exact opens_append _ opening

/-- An expression opens with a word; only a splat joins an operator in front of it. -/
theorem opens_expr (depth : Nat) {position : Position} : (tree : PlainExpr) →
    tree.WellFormed (.plain IsFloatWord) position →
    opens (position == .argument) (expr depth tree) = true
  | .literal _ value, valid => opens_literal valid _ []
  | .symbol _ name, _ => by
    exact @opens_spelled (":" ++ name) name.toList .symbol ':' (by simp) (by decide)
      (by decide) _ []
  | .name _ name, valid => opens_name valid _ []
  | .global _ name, _ => by
    exact @opens_spelled ("$" ++ name) name.toList .global '$' (by simp) (by decide)
      (by decide) _ []
  | .constant _ name, valid => opens_constant valid _ []
  | .array _ _, _ => by cases position <;> rfl
  | .splat _ _, valid => by
    rw [valid.1]
    rfl
  | .range _ start _ _, valid =>
    opens_append _ (opens_atLevel _ _ (opens_expr depth start (valid.1.ofOperand _)))
  | .binary _ _ left _, valid =>
    opens_append _ (opens_atLevel _ _ (opens_expr depth left (valid.2.1.ofOperand _)))
  | .unary _ op _, valid => by
    cases op with
    | other => exact absurd valid.1 (by simp [UnaryOp.isKnown])
    | _ => cases position <;> rfl
  | .ternary _ condition _ _, valid =>
    opens_append _ (opens_atLevel _ _ (opens_expr depth condition (valid.1.ofOperand _)))
  | .lambda _ _ _ _, _ => by cases position <;> rfl
  | .call _ none method _ _ _, valid => opens_name (Expr.wellFormed_call.1 valid).2.2.1 _ _
  | .call _ (some receiver) _ _ block _, valid => by
    have receiverValid := (Expr.wellFormed_call.1 valid).2.1 receiver rfl
    have opening := opens_atLevel Level.postfixForm receiver.level
      (opens_expr depth receiver (receiverValid.ofOperand position))
    rw [expr_call_some]
    exact opens_append _ opening
  | .index _ value _, valid =>
    opens_append _ (opens_atLevel _ _ (opens_expr depth value (valid.1.ofOperand _)))
  | .assign _ target _, valid =>
    opens_append _ (opens_atLevel _ _ (opens_expr depth target (valid.2.2.1.ofOperand _)))
  | .opAssign _ target _ _, valid =>
    opens_append _ (opens_atLevel _ _ (opens_expr depth target (valid.2.2.2.1.ofOperand _)))
  | .multiAssign _ [] _, valid => absurd valid.2.1 (by decide)
  | .multiAssign _ (first :: rest) _, valid => by
    have opening := opens_atLevel Level.postfixForm first.level
      (opens_expr depth first (valid.2.2.2.1.1.ofOperand position))
    rw [expr, exprsAt]
    exact opens_append _ (opens_separated_cons _ opening)
  | .block _, valid | .param _, valid | .stmt _, valid => False.elim valid

/-- Rows whose pieces are joined with all that may follow them; they leave the open delimiters as
they are and complete a phrase. -/
def Joins (row : Row) : Prop :=
  ∀ ⦃delimiters : List TokenKind⦄ ⦃complete : Bool⦄ ⦃rest : Row⦄, follows rest = true →
    Joined ⟨delimiters, true⟩ rest → Joined ⟨delimiters, complete⟩ (row ++ rest)

theorem follows_iff : follows rest = true ↔ endsWord (chars rest) = true ∧ leavesName rest = true :=
  Bool.and_eq_true_iff

theorem joins_name (valid : isName spelling = true) : Joins [spelled .name spelling] := by
  intro delimiters complete rest follow joined
  obtain ⟨ends, leaves⟩ := follows_iff.1 follow
  exact ⟨scans_name valid ends, rfl, fun _ => leaves, joined⟩

theorem joins_keyword {kind : TokenKind} (valid : isSpelled startsName isMark spelling = true)
    (word : keyword? spelling = some kind) (plain : isPlain kind = true)
    (state : ∀ delimiters complete, LayoutState.after ⟨delimiters, complete⟩ kind = ⟨delimiters,
      true⟩) (noName : kind ≠ .name) : Joins [spelled kind spelling] := by
  intro delimiters complete rest follow joined
  refine ⟨scans_keyword valid word (follows_iff.1 follow).1, plain, fun name => absurd name noName,
    ?_⟩
  rw [state]
  exact joined

theorem joins_literal (valid : value.WellFormed IsFloatWord) : Joins [literal value] := by
  cases value with
  | nil => exact joins_keyword rfl rfl rfl (fun _ _ => rfl) (by decide)
  | bool value =>
    cases value with
    | true => exact joins_keyword rfl rfl rfl (fun _ _ => rfl) (by decide)
    | false => exact joins_keyword rfl rfl rfl (fun _ _ => rfl) (by decide)
  | int value =>
    intro delimiters complete rest follow joined
    exact ⟨scans_nat _ (follows_iff.1 follow).1, rfl, nofun, joined⟩
  | str value =>
    intro delimiters complete rest follow joined
    exact ⟨StringLiteral.scans_render value _, rfl, nofun, joined⟩
  | float value =>
    rw [literal_float]
    by_cases infinite : Decimal.floatText Decimal.literalStyle value = "inf"
    · have kind : floatKind value = .name := if_pos infinite
      rw [kind, infinite]
      exact joins_name (by decide)
    · have kind : floatKind value = .float := if_neg infinite
      rw [kind]
      intro delimiters complete rest follow joined
      obtain ⟨⟨mantissa, exponent, finite⟩, -⟩ := valid.resolve_right infinite
      exact ⟨scans_float (Decimal.isFloat_floatText finite) (follows_iff.1 follow).1, rfl, nofun,
        joined⟩

theorem joins_inParens (joins : Joins row) : Joins (inParens row) := by
  intro delimiters complete rest _ joined
  rw [inParens, List.cons_append, List.append_assoc, List.singleton_append]
  refine ⟨⟨_, _, rfl, rfl⟩, rfl, nofun, ?_⟩
  exact joins rfl ⟨⟨_, _, rfl, rfl⟩, rfl, nofun, joined⟩

theorem joins_atLevel (level own : Nat) (joins : Joins row) : Joins (atLevel level own row) := by
  unfold atLevel
  split
  · exact joins_inParens joins
  · exact joins

theorem joins_separated (nonempty : rows ≠ [])
    (each : ∀ row ∈ rows, Joins row ∧ opens true row = true) : Joins (separated rows) := by
  induction rows with
  | nil => contradiction
  | cons first rest ih =>
    cases rest with
    | nil => exact (each first (by simp)).1
    | cons second rest =>
      have tail := ih (by simp) fun row member => each row (by simp_all)
      have opening := opens_separated_cons rest (each second (by simp)).2
      intro delimiters complete after follow joined
      rw [separated, List.append_assoc]
      · refine (each first (by simp)).1 rfl ⟨⟨_, _, rfl, rfl⟩, rfl, nofun, ?_, ?_⟩
        · exact startsWithGap_of_opens (opens_append _ opening)
        · exact tail follow joined
      · simp

/-- Rows in a pair of brackets or parentheses, which may be empty. -/
theorem joined_separated (each : ∀ row ∈ rows, Joins row ∧ opens true row = true)
    (follow : follows rest = true) (joined : ∀ complete, Joined ⟨delimiters, complete⟩ rest)
    (complete : Bool) : Joined ⟨delimiters, complete⟩ (separated rows ++ rest) := by
  cases rows with
  | nil => exact joined complete
  | cons first others => exact joins_separated (by simp) each follow (joined true)

theorem joins_argList (each : ∀ row ∈ rows, Joins row ∧ opens true row = true)
    (joined : Joined ⟨delimiters, true⟩ rest) :
    Joined ⟨delimiters, true⟩ (argList parens rows ++ rest) := by
  cases rows with
  | nil =>
    cases parens with
    | false => exact joined
    | true => exact ⟨⟨_, _, rfl, rfl⟩, rfl, nofun, ⟨_, _, rfl, rfl⟩, rfl, nofun, joined⟩
  | cons first others =>
    rw [argList, inParens, List.cons_append, List.append_assoc, List.singleton_append]
    · refine ⟨⟨_, _, rfl, rfl⟩, rfl, nofun, ?_⟩
      exact joins_separated (by simp) each rfl ⟨⟨_, _, rfl, rfl⟩, rfl, nofun, joined⟩
    · simp

theorem chars_of_opens (opening : opens false row = true) :
    ∃ c more, chars row = c :: more ∧ joinsOperator c = false := by
  match row with
  | .word kind (first :: more) :: rest =>
    simp only [opens, Bool.and_eq_true, Bool.false_or, Bool.not_eq_true'] at opening
    exact ⟨first.toChar, _, chars_cons _ _, opening.2⟩

theorem scans_of_operator {first : Char} {after : List Char}
    (split : spelling.toList = first :: more)
    (dispatch : at? first (more ++ after) = (operator? first (more ++ after)).map fun (kind, size)
      => (.token kind, size)) (read : operator? first (more ++ after) = some (kind, more.length)) :
    Scans kind (Text.ofString spelling).toList after := by
  apply scans_of_toList split
  rw [dispatch, read]
  rfl

/-- The operators that a longer one may start with. -/
def shortOperators : List (TokenKind × String) :=
  [(.minus, "-"), (.bang, "!"), (.star, "*"), (.pipe, "|"), (.dot2, ".."), (.dot, ".")]

/-- An operator in front of a row that does not join it is scanned by itself. -/
theorem scans_operator (short : (kind, spelling) ∈ shortOperators)
    (opening : opens false row = true) :
    Scans kind (Text.ofString spelling).toList (chars row) := by
  obtain ⟨c, more, equal, apart⟩ := chars_of_opens opening
  obtain ⟨noEqual, noGreater, noDot, noStar, noPipe⟩ := joinsOperator_iff.1 apart
  rw [equal]
  simp only [shortOperators, List.mem_cons, Prod.mk.injEq, List.not_mem_nil, or_false] at short
  rcases short with ⟨rfl, rfl⟩ | ⟨rfl, rfl⟩ | ⟨rfl, rfl⟩ | ⟨rfl, rfl⟩ | ⟨rfl, rfl⟩ | ⟨rfl, rfl⟩
  · have read : operator? '-' (c :: more) = some (.minus, 0) := by
      simp [operator?, noEqual, noGreater]
    exact scans_of_operator rfl rfl read
  · have read : operator? '!' (c :: more) = some (.bang, 0) := by
      simp [operator?, noEqual]
    exact scans_of_operator rfl rfl read
  · have read : operator? '*' (c :: more) = some (.star, 0) := by
      simp [operator?, noEqual, noStar]
    exact scans_of_operator rfl rfl read
  · have read : operator? '|' (c :: more) = some (.pipe, 0) := by
      simp [operator?, noPipe]
    exact scans_of_operator rfl rfl read
  · have read : operator? '.' ('.' :: c :: more) = some (.dot2, 1) := by
      simp [operator?, noDot]
    exact scans_of_operator rfl rfl read
  · have read : operator? '.' (c :: more) = some (.dot, 0) := by
      simp [operator?, noDot]
    exact scans_of_operator rfl rfl read

/-- Kinds of words that stand between the parts of a phrase. -/
def isJoiner (kind : TokenKind) : Bool :=
  isPlain kind && kind != .name && !kind.opens && !kind.closes && !kind.endsPhrase &&
    !kind.startsArgument

theorem isJoiner_iff : isJoiner kind = true ↔
    isPlain kind = true ∧ kind ≠ .name ∧ kind.opens = false ∧ kind.closes = false ∧
      kind.endsPhrase = false ∧ kind.startsArgument = false := by
  simp [isJoiner, and_assoc]

theorem follows_between (joiner : isJoiner kind = true) :
    follows (.gap 0 :: spelled kind spelling :: .gap 0 :: rest) = true := by
  obtain ⟨-, -, noOpening, -, -, noArgument⟩ := isJoiner_iff.1 joiner
  have noParen : kind ≠ .leftParen := by
    rintro rfl
    exact absurd noOpening (by decide)
  refine follows_iff.2 ⟨rfl, ?_⟩
  simp [spelled, leavesName, noArgument, noParen, startsWithGap]

theorem joined_between (joiner : isJoiner kind = true)
    (word : ∀ after, Scans kind (Text.ofString spelling).toList (' ' :: after))
    (noGap : startsWithGap rest = false) (joined : Joined ⟨delimiters, false⟩ rest) :
    Joined ⟨delimiters, complete⟩ (.gap 0 :: spelled kind spelling :: .gap 0 :: rest) := by
  obtain ⟨plain, noName, noOpening, noClosing, noEnd, -⟩ := isJoiner_iff.1 joiner
  refine ⟨rfl, word _, plain, fun name => absurd name noName, noGap, ?_⟩
  simpa [LayoutState.after, noOpening, noClosing, noEnd] using joined

theorem isJoiner_binary (known : op.level?.isSome = true) : isJoiner op.kind = true := by
  cases op with
  | other => contradiction
  | _ => rfl

theorem scans_binary (known : op.level?.isSome = true) (after : List Char) :
    Scans op.kind (Text.ofString op.spelling).toList (' ' :: after) := by
  cases op with
  | other => contradiction
  | _ => exact ⟨_, _, rfl, rfl⟩

theorem scans_assignment (assigns : op.assigns = true) (after : List Char) :
    Scans .opAssign (Text.ofString (op.spelling ++ "=")).toList (' ' :: after) := by
  cases op with
  | add | subtract | multiply | divide | logicalOr | logicalAnd => exact ⟨_, _, rfl, rfl⟩
  | _ => contradiction

theorem joins_between {kind : TokenKind} (joiner : isJoiner kind = true)
    (word : ∀ after, Scans kind (Text.ofString spelling).toList (' ' :: after))
    (leftJoins : Joins left) (rightJoins : Joins right) (opening : opens true right = true) :
    Joins (left ++ .gap 0 :: spelled kind spelling :: .gap 0 :: right) := by
  intro delimiters complete rest follow joined
  rw [List.append_assoc]
  refine leftJoins (follows_between joiner) (joined_between joiner word ?_ ?_)
  · exact startsWithGap_of_opens (opens_append _ opening)
  · exact rightJoins follow joined

theorem joins_conditionHead {keyword : String}
    (word : ∀ after, Scans kind (Text.ofString keyword).toList (' ' :: after))
    (plain : isPlain kind = true) (noName : kind ≠ .name) (noOpening : kind.opens = false)
    (noClosing : kind.closes = false) (opening : opens true condition = true)
    (joins : Joins condition) : Joins (conditionHead kind keyword condition) := by
  intro delimiters complete rest follow joined
  refine ⟨word _, plain, fun name => absurd name noName,
    startsWithGap_of_opens (opens_append _ opening), ?_⟩
  simpa [LayoutState.after, noOpening, noClosing] using joins follow joined

theorem joined_paramList (each : ∀ row ∈ rows, Joins row ∧ opens true row = true)
    (bare : Joined ⟨delimiters, complete⟩ rest) (joined : Joined ⟨delimiters, true⟩ rest) :
    Joined ⟨delimiters, complete⟩ (paramList rows ++ rest) := by
  cases rows with
  | nil => exact bare
  | cons first others =>
    rw [paramList, inParens, List.cons_append, List.append_assoc, List.singleton_append]
    · refine ⟨⟨_, _, rfl, rfl⟩, rfl, nofun, ?_⟩
      exact joins_separated (by simp) each rfl ⟨⟨_, _, rfl, rfl⟩, rfl, nofun, joined⟩
    · simp

theorem joined_blockHead (each : ∀ row ∈ rows, Joins row ∧ opens false row = true)
    (closing : Scans .pipe (Text.ofString "|").toList (chars rest))
    (joined : Joined ⟨.leftBrace :: delimiters, false⟩ rest) :
    Joined ⟨delimiters, complete⟩ (blockHead rows ++ rest) := by
  cases rows with
  | nil => exact ⟨⟨_, _, rfl, rfl⟩, rfl, nofun, joined⟩
  | cons first others =>
    have opening := opens_separated_cons others (each first (by simp)).2
    have loosely : ∀ row ∈ first :: others, Joins row ∧ opens true row = true :=
      fun row member => ⟨(each row member).1, opens_loose (each row member).2⟩
    rw [blockHead, List.cons_append, List.cons_append, List.cons_append, List.append_assoc]
    · refine ⟨⟨_, _, rfl, rfl⟩, rfl, nofun, rfl, ?_⟩
      refine ⟨scans_operator (by decide) (opens_append _ opening), rfl, nofun, ?_⟩
      exact joins_separated (by simp) loosely rfl ⟨closing, rfl, nofun, joined⟩
    · simp

theorem joined_indent {state : LayoutState} (depth : Nat) (noGap : startsWithGap rest = false)
    (joined : Joined state rest) : Joined state (indent depth ++ rest) := by
  cases depth with
  | zero => exact joined
  | succ depth => exact ⟨noGap, joined⟩

theorem startsWithDot_indent (depth : Nat) (rest : Row) :
    startsWithDot (indent depth ++ rest) = startsWithDot rest := by
  cases depth <;> rfl

/-- Rows of whole lines.  They may be none, and then what follows them takes their place. -/
structure LinesJoin (row : Row) : Prop where
  joined : ∀ ⦃delimiters : List TokenKind⦄ ⦃rest : Row⦄,
    LayoutState.linesCount ⟨delimiters, true⟩ = true → startsWithDot rest = false →
      Joined ⟨delimiters, false⟩ rest → Joined ⟨delimiters, false⟩ (row ++ rest)
  noDot : ∀ ⦃rest : Row⦄, startsWithDot rest = false → startsWithDot (row ++ rest) = false

/-- The row of a statement: indentation and a word, with the last line still open. -/
structure StmtJoins (depth : Nat) (row : Row) : Prop where
  joined : ∀ ⦃delimiters : List TokenKind⦄ ⦃complete : Bool⦄ ⦃rest : Row⦄,
    LayoutState.linesCount ⟨delimiters, true⟩ = true → follows rest = true →
      Joined ⟨delimiters, true⟩ rest → Joined ⟨delimiters, complete⟩ (row ++ rest)
  opening : ∃ core, row = indent depth ++ core ∧ opens true core = true

theorem StmtJoins.noDot (joins : StmtJoins depth row) (rest : Row) :
    startsWithDot (row ++ rest) = false := by
  obtain ⟨core, rfl, opening⟩ := joins.opening
  rw [List.append_assoc, startsWithDot_indent]
  exact startsWithDot_of_opens (opens_append rest opening)

theorem stmtJoins_line {core : Row} (depth : Nat) (opening : opens true core = true)
    (joins : Joins core) : StmtJoins depth (indent depth ++ core) where
  joined := by
    intro delimiters complete rest _ follow joined
    rw [List.append_assoc]
    exact joined_indent depth (startsWithGap_of_opens (opens_append rest opening))
      (joins follow joined)
  opening := ⟨core, rfl, opening⟩

theorem linesJoin_nil : LinesJoin [] where
  joined _ _ _ _ joined := joined
  noDot _ noDot := noDot

theorem linesJoin_append (leftJoins : LinesJoin left) (rightJoins : LinesJoin right) :
    LinesJoin (left ++ right) where
  joined := by
    intro delimiters rest counts noDot joined
    rw [List.append_assoc]
    exact leftJoins.joined counts (rightJoins.noDot noDot) (rightJoins.joined counts noDot joined)
  noDot := by
    intro rest noDot
    rw [List.append_assoc]
    exact leftJoins.noDot (rightJoins.noDot noDot)

theorem linesJoin_cons (joins : StmtJoins depth row)
    (rest : LinesJoin lines) : LinesJoin (row ++ .lineEnd true :: lines) where
  joined := by
    intro delimiters after counts noDot joined
    rw [List.append_assoc]
    exact joins.joined counts rfl ⟨counts, rfl, rest.noDot noDot, rest.joined counts noDot joined⟩
  noDot := by
    intro after _
    rw [List.append_assoc]
    exact joins.noDot _

theorem linesJoin_blank : LinesJoin [.lineEnd false] where
  joined _ _ counts noDot joined := ⟨counts, rfl, noDot, joined⟩
  noDot _ noDot := noDot

theorem linesJoin_else (depth : Nat) (below : LinesJoin lines) :
    LinesJoin (indent depth ++ spelled .kwElse "else" :: .lineEnd false :: lines) where
  joined := by
    intro delimiters after counts noDot joined
    rw [List.append_assoc]
    refine joined_indent depth rfl ⟨⟨_, _, rfl, rfl⟩, rfl, nofun, ?_⟩
    exact ⟨counts, rfl, below.noDot noDot, below.joined counts noDot joined⟩
  noDot := by
    intro after _
    rw [List.append_assoc, startsWithDot_indent]
    rfl

/-- The word that closes a block stands on a line of its own. -/
theorem joined_endWord (depth : Nat) (follow : follows rest = true)
    (joined : Joined ⟨delimiters, true⟩ rest) :
    Joined ⟨delimiters, false⟩ (indent depth ++ endWord :: rest) := by
  refine joined_indent depth rfl ?_
  exact @joins_keyword "end" .kwEnd rfl rfl rfl (fun _ _ => rfl) (by decide) _ _ _ follow joined

theorem stmtJoins_inBlock {head : Row} (depth : Nat) (opening : opens true head = true)
    (headJoins : Joins head) (below : LinesJoin lines) :
    StmtJoins depth (inBlock depth head lines) where
  joined := by
    intro delimiters complete rest counts follow joined
    have noDot : startsWithDot (indent depth ++ endWord :: rest) = false := by
      rw [startsWithDot_indent]
      rfl
    simp only [inBlock, List.append_assoc, List.cons_append, List.nil_append]
    refine joined_indent depth (startsWithGap_of_opens (opens_append _ opening)) ?_
    refine headJoins rfl ⟨counts, rfl, below.noDot noDot, ?_⟩
    exact below.joined counts noDot (joined_endWord depth follow joined)
  opening := ⟨_, List.append_assoc _ _ _, opens_append _ opening⟩

theorem stmtJoins_after (negated : Bool) (joins : StmtJoins depth row)
    (conditionJoins : Joins condition) (opening : opens true condition = true) :
    StmtJoins depth (row ++ .gap 0 :: conditionHead (if negated then .kwUnless else .kwIf)
      (if negated then "unless" else "if") condition) where
  joined := by
    intro delimiters complete rest counts follow joined
    rw [List.append_assoc]
    refine joins.joined counts (by cases negated <;> rfl) ⟨by cases negated <;> rfl, ?_⟩
    cases negated with
    | false =>
      exact joins_conditionHead (fun _ => ⟨_, _, rfl, rfl⟩) rfl (by decide) rfl rfl opening
        conditionJoins follow joined
    | true =>
      exact joins_conditionHead (fun _ => ⟨_, _, rfl, rfl⟩) rfl (by decide) rfl rfl opening
        conditionJoins follow joined
  opening := by
    obtain ⟨core, rfl, opening⟩ := joins.opening
    exact ⟨_, List.append_assoc _ _ _, opens_append _ opening⟩

theorem stmtJoins_conditional (depth : Nat) (negated : Bool) (conditionJoins : Joins condition)
    (opening : opens true condition = true) (below : LinesJoin lines) :
    StmtJoins depth (inBlock depth (conditionHead (if negated then .kwUnless else .kwIf)
      (if negated then "unless" else "if") condition) lines) := by
  refine stmtJoins_inBlock depth (by cases negated <;> rfl) ?_ below
  cases negated with
  | false =>
    exact joins_conditionHead (fun _ => ⟨_, _, rfl, rfl⟩) rfl (by decide) rfl rfl opening
      conditionJoins
  | true =>
    exact joins_conditionHead (fun _ => ⟨_, _, rfl, rfl⟩) rfl (by decide) rfl rfl opening
      conditionJoins

theorem joins_bracedLines (depth : Nat) (each : ∀ row ∈ rows, Joins row ∧ opens false row = true)
    (below : LinesJoin lines) : Joins (bracedLines depth (blockHead rows) lines) := by
  intro delimiters complete rest follow joined
  have noDot : startsWithDot (indent depth ++ rightBrace :: rest) = false := by
    rw [startsWithDot_indent]
    rfl
  simp only [bracedLines, List.append_assoc, List.cons_append, List.nil_append]
  refine joined_blockHead each ⟨_, _, rfl, rfl⟩ ⟨rfl, rfl, below.noDot noDot, ?_⟩
  refine below.joined rfl noDot (joined_indent depth rfl ?_)
  exact ⟨⟨_, _, rfl, rfl⟩, rfl, nofun, joined⟩

theorem joins_bracedLine (each : ∀ row ∈ rows, Joins row ∧ opens false row = true)
    (inside : StmtJoins 0 row) :
    Joins (blockHead rows ++ .gap 0 :: (row ++ [.gap 0, rightBrace])) := by
  intro delimiters complete rest follow joined
  obtain ⟨core, rfl, opening⟩ := inside.opening
  simp only [List.append_assoc, List.cons_append, List.nil_append]
  refine joined_blockHead each ⟨_, _, rfl, rfl⟩ ⟨?_, ?_⟩
  · exact startsWithGap_of_opens (opens_append _ opening)
  · exact inside.joined rfl rfl ⟨rfl, ⟨_, _, rfl, rfl⟩, rfl, nofun, joined⟩

theorem joins_defHead (valid : isName name = true)
    (each : ∀ row ∈ rows, Joins row ∧ opens true row = true) :
    Joins (spelled .kwDef "def" :: .gap 0 :: spelled .name name :: paramList rows) := by
  intro delimiters complete rest follow joined
  have following : follows (paramList rows ++ rest) = true := by
    cases rows with
    | nil => exact follow
    | cons first others => rfl
  obtain ⟨ends, leaves⟩ := follows_iff.1 following
  refine ⟨⟨_, _, rfl, rfl⟩, rfl, nofun, rfl, scans_name valid ends, rfl, fun _ => leaves, ?_⟩
  exact joined_paramList each joined joined

/-- An expression as a value among others. -/
theorem joins_value {tree : PlainExpr} {position : Position} (depth level : Nat)
    (valid : tree.WellFormed (.plain IsFloatWord) position) (joins : Joins (expr depth tree)) :
    Joins (atLevel level tree.level (expr depth tree)) ∧
      opens true (atLevel level tree.level (expr depth tree)) = true :=
  ⟨joins_atLevel _ _ joins, opens_atLevel _ _ (opens_loose (opens_expr depth tree valid))⟩

theorem opens_operand {tree : PlainExpr} (depth level : Nat)
    (valid : tree.WellFormed (.plain IsFloatWord) .operand) :
    opens false (atLevel level tree.level (expr depth tree)) = true :=
  opens_atLevel _ _ (opens_expr depth tree valid)

theorem joins_operator (short : (kind, spelling) ∈ shortOperators)
    (plain : isPlain kind = true) (noName : kind ≠ .name) (noOpening : kind.opens = false)
    (noClosing : kind.closes = false) (opening : opens false row = true) (joins : Joins row) :
    Joins (spelled kind spelling :: row) := by
  intro delimiters complete rest follow joined
  refine ⟨scans_operator short (opens_append rest opening), plain,
    fun name => absurd name noName, ?_⟩
  simpa [LayoutState.after, noOpening, noClosing] using joins follow joined

theorem joins_brackets (each : ∀ row ∈ rows, Joins row ∧ opens true row = true) :
    Joins (spelled .leftBracket "[" :: (separated rows ++ [spelled .rightBracket "]"])) := by
  intro delimiters complete rest _ joined
  rw [List.cons_append, List.append_assoc, List.singleton_append]
  refine ⟨⟨_, _, rfl, rfl⟩, rfl, nofun, ?_⟩
  refine joined_separated each rfl (fun _ => ?_) false
  exact ⟨⟨_, _, rfl, rfl⟩, rfl, nofun, joined⟩

theorem joined_method (valid : isName name = true)
    (each : ∀ row ∈ rows, Joins row ∧ opens true row = true) (follow : follows rest = true)
    (joined : Joined ⟨delimiters, true⟩ rest) :
    Joined ⟨delimiters, complete⟩ (spelled .name name :: (argList parens rows ++ rest)) := by
  have following : follows (argList parens rows ++ rest) = true := by
    rcases rows with _ | ⟨first, others⟩
    · cases parens with
      | false => exact follow
      | true => rfl
    · rfl
  obtain ⟨ends, leaves⟩ := follows_iff.1 following
  exact ⟨scans_name valid ends, rfl, fun _ => leaves, joins_argList each joined⟩

theorem braces_eq_cons (depth : Nat) (rows : List Row) (body : List PlainStmt) :
    ∃ more, braces depth rows body = leftBrace :: more := by
  have head : ∀ rest, ∃ more, blockHead rows ++ rest = leftBrace :: more := by
    intro rest
    cases rows with
    | nil => exact ⟨rest, rfl⟩
    | cons first others => exact ⟨_, rfl⟩
  rcases body with _ | ⟨only, _ | ⟨second, more⟩⟩
  · rw [braces]
    split
    · exact ⟨_, rfl⟩
    · exact head _
  · rw [braces]
    split <;> exact head _
  · exact head _

theorem follows_braces (depth : Nat) (rows : List Row) (body : List PlainStmt) (rest : Row) :
    follows (.gap 0 :: (braces depth rows body ++ rest)) = true := by
  obtain ⟨more, equal⟩ := braces_eq_cons depth rows body
  rw [equal]
  rfl

theorem startsWithGap_braces (depth : Nat) (rows : List Row) (body : List PlainStmt) (rest : Row) :
    startsWithGap (braces depth rows body ++ rest) = false := by
  obtain ⟨more, equal⟩ := braces_eq_cons depth rows body
  rw [equal]
  rfl

theorem joins_call (named : isName method = true)
    (each : ∀ row ∈ exprsAt depth Level.ternary args, Joins row ∧ opens true row = true)
    (inside : ∀ inner, block = some inner → Joins (braces depth (params depth inner.params)
      inner.body)) : Joins (expr depth (.call loc none method args block parens)) := by
  intro delimiters complete rest follow joined
  cases block with
  | none =>
    simp only [expr, List.nil_append, List.append_nil, List.cons_append]
    exact joined_method named each follow joined
  | some inner =>
    have inside := inside inner rfl
    obtain ⟨blockLoc, scope, parameters, body⟩ := inner
    simp only [expr, List.nil_append, List.append_assoc, List.cons_append]
    exact joined_method named each (follows_braces ..)
      ⟨startsWithGap_braces .., inside follow joined⟩

/-- No number runs on through the dot of a call. -/
theorem follows_dot (named : isName name = true) (rest : Row) :
    follows (spelled .dot "." :: spelled .name name :: rest) = true := by
  obtain ⟨first, body, mark, split, starting, -⟩ := isSpelled_cases (Bool.and_eq_true_iff.1 named).1
  have range := startsName_range starting
  refine follows_iff.2 ⟨?_, rfl⟩
  have start : chars (spelled .dot "." :: spelled .name name :: rest) =
      '.' :: first :: (body ++ mark ++ chars rest) := by
    simp [spelled, Piece.codes, split, Function.comp_def]
  rw [start, endsWord, isDigit_eq_false_of_letter (by omega) (by omega)]
  rfl

theorem joins_call_some {receiver : PlainExpr} (named : isName method = true)
    (receiverJoins : Joins (expr depth receiver))
    (joins : Joins (expr depth (.call loc none method args block parens))) :
    Joins (expr depth (.call loc (some receiver) method args block parens)) := by
  obtain ⟨more, start⟩ :
      ∃ more, expr depth (.call loc none method args block parens) =
      spelled .name method :: more := by
    rcases block with _ | ⟨blockLoc, scope, parameters, body⟩ <;> exact ⟨_, rfl⟩
  rw [expr_call_some]
  rw [start] at joins ⊢
  intro delimiters complete rest follow joined
  rw [List.append_assoc]
  refine joins_atLevel _ _ receiverJoins (follows_dot named _) ?_
  exact joins_operator (by decide) rfl (by decide) rfl rfl (opens_name named _ _)
    joins follow joined

theorem exprsAt_ne_nil {trees : List PlainExpr} (depth level : Nat) (nonempty : trees ≠ []) :
    exprsAt depth level trees ≠ [] := by
  cases trees with
  | nil => contradiction
  | cons first rest => exact List.cons_ne_nil _ _

theorem opens_separated (nonempty : rows ≠ [])
    (each : ∀ row ∈ rows, Joins row ∧ opens true row = true) :
    opens true (separated rows) = true := by
  cases rows with
  | nil => contradiction
  | cons first rest => exact opens_separated_cons rest (each first (by simp)).2

mutual

theorem joins_expr (depth : Nat) {position : Position} : (tree : PlainExpr) →
    tree.WellFormed (.plain IsFloatWord) position → Joins (expr depth tree)
  | .literal _ _, valid => joins_literal valid
  | .symbol _ _, valid => fun _ _ _ follow joined =>
    ⟨scans_symbol valid (follows_iff.1 follow).1, rfl, nofun, joined⟩
  | .name _ _, valid => joins_name valid
  | .global _ _, valid => fun _ _ _ follow joined =>
    ⟨scans_global valid (follows_iff.1 follow).1, rfl, nofun, joined⟩
  | .constant _ _, valid => fun _ _ _ follow joined =>
    ⟨scans_constant valid (follows_iff.1 follow).1, rfl, nofun, joined⟩
  | .array _ elements, valid => joins_brackets (joins_exprsAt depth _ elements valid)
  | .splat _ value, valid => by
    have joins := joins_expr depth value valid.2
    exact joins_operator (by decide) rfl (by decide) rfl rfl (opens_operand depth _ valid.2)
      (joins_atLevel _ _ joins)
  | .range _ start stop exclusive, valid => by
    have startJoins := joins_expr depth start valid.1
    have stopJoins := joins_expr depth stop valid.2
    intro delimiters complete rest follow joined
    rw [expr, List.append_assoc, List.cons_append]
    have joinsStop := joins_atLevel Level.disjunction stop.level stopJoins
    have opening := opens_operand depth Level.disjunction valid.2
    have parts : Joined ⟨delimiters, true⟩
        ((if exclusive then spelled .dot3 "..." else spelled .dot2 "..") ::
          (atLevel Level.disjunction stop.level (expr depth stop) ++ rest)) := by
      cases exclusive with
      | false =>
        exact joins_operator (by decide) rfl (by decide) rfl rfl opening joinsStop follow joined
      | true => exact ⟨⟨_, _, rfl, rfl⟩, rfl, nofun, joinsStop follow joined⟩
    exact joins_atLevel _ _ startJoins (by cases exclusive <;> rfl) parts
  | .binary _ op left right, valid => by
    have leftJoins := joins_expr depth left valid.2.1
    have rightJoins := joins_expr depth right valid.2.2
    exact joins_between (isJoiner_binary valid.1) (scans_binary valid.1)
      (joins_atLevel _ _ leftJoins) (joins_atLevel _ _ rightJoins)
      (opens_loose (opens_operand depth _ valid.2.2))
  | .unary _ op operand, valid => by
    have joins := joins_expr depth operand valid.2
    have opening := fun level => opens_operand depth level valid.2
    have parts := fun level => joins_atLevel level operand.level joins
    rw [expr]
    cases op with
    | other => exact absurd valid.1 (by simp [UnaryOp.isKnown])
    | keywordNot =>
      exact joins_conditionHead (fun _ => ⟨_, _, rfl, rfl⟩) rfl (by decide) rfl rfl
        (opens_loose (opening _)) (parts _)
    | negate => exact joins_operator (by decide) rfl (by decide) rfl rfl (opening _) (parts _)
    | bang => exact joins_operator (by decide) rfl (by decide) rfl rfl (opening _) (parts _)
  | .ternary _ condition thenValue elseValue, valid => by
    have conditionJoins := joins_expr depth condition valid.1
    have thenJoins := joins_expr depth thenValue valid.2.1
    have elseJoins := joins_expr depth elseValue valid.2.2
    refine joins_between rfl (fun _ => ⟨_, _, rfl, rfl⟩) (joins_atLevel _ _ conditionJoins) ?_ ?_
    · exact joins_between rfl (fun _ => ⟨_, _, rfl, rfl⟩) (joins_atLevel _ _ thenJoins)
        (joins_atLevel _ _ elseJoins) (opens_loose (opens_operand depth _ valid.2.2))
    · exact opens_append _ (opens_loose (opens_operand depth _ valid.2.1))
  | .lambda _ _ parameters body, valid => by
    have each := joins_params depth parameters valid.1
    have loosely : ∀ row ∈ params depth parameters, Joins row ∧ opens true row = true :=
      fun row member => ⟨(each row member).1, opens_loose (each row member).2⟩
    have inside := joins_braces depth [] nofun body valid.2
    intro delimiters complete rest follow joined
    simp only [expr, List.cons_append, List.append_assoc]
    refine ⟨⟨_, _, rfl, rfl⟩, rfl, nofun, ?_⟩
    exact joined_paramList loosely ⟨startsWithGap_braces .., inside follow joined⟩
      ⟨startsWithGap_braces .., inside follow joined⟩
  | .call _ none _ args none _, valid => by
    obtain ⟨-, -, named, argsValid, -⟩ := Expr.wellFormed_call.1 valid
    exact joins_call named (joins_exprsAt depth _ args argsValid) nofun
  | .call _ none _ args (some (.mk _ _ parameters body)) _, valid => by
    obtain ⟨-, -, named, argsValid, blockValid⟩ := Expr.wellFormed_call.1 valid
    obtain ⟨paramsValid, bodyValid⟩ := blockValid _ rfl
    have inside := joins_braces depth _ (joins_params depth parameters paramsValid) body bodyValid
    exact joins_call named (joins_exprsAt depth _ args argsValid) (by rintro _ ⟨⟩; exact inside)
  | .call _ (some receiver) _ args none _, valid => by
    obtain ⟨-, receiverValid, named, argsValid, -⟩ := Expr.wellFormed_call.1 valid
    refine joins_call_some named (joins_expr depth receiver (receiverValid _ rfl)) ?_
    exact joins_call named (joins_exprsAt depth _ args argsValid) nofun
  | .call _ (some receiver) _ args (some (.mk _ _ parameters body)) _, valid => by
    obtain ⟨-, receiverValid, named, argsValid, blockValid⟩ := Expr.wellFormed_call.1 valid
    obtain ⟨paramsValid, bodyValid⟩ := blockValid _ rfl
    have inside := joins_braces depth _ (joins_params depth parameters paramsValid) body bodyValid
    refine joins_call_some named (joins_expr depth receiver (receiverValid _ rfl)) ?_
    exact joins_call named (joins_exprsAt depth _ args argsValid) (by rintro _ ⟨⟩; exact inside)
  | .index _ value args, valid => by
    have valueJoins := joins_expr depth value valid.1
    have inside := joins_brackets (joins_exprsAt depth Level.ternary args valid.2.2)
    intro delimiters complete rest follow joined
    rw [expr, List.append_assoc]
    exact joins_atLevel _ _ valueJoins rfl (inside follow joined)
  | .assign _ target value, valid => by
    have targetJoins := joins_expr depth target valid.2.2.1
    have value := joins_value depth (Printer.assignedLevel value) valid.2.2.2
      (joins_expr depth value valid.2.2.2)
    exact joins_between rfl (fun _ => ⟨_, _, rfl, rfl⟩) (joins_atLevel _ _ targetJoins) value.1
      value.2
  | .opAssign _ target _ value, valid => by
    have targetJoins := joins_expr depth target valid.2.2.2.1
    have value := joins_value depth (Printer.assignedLevel value) valid.2.2.2.2
      (joins_expr depth value valid.2.2.2.2)
    exact joins_between rfl (scans_assignment valid.2.2.1) (joins_atLevel _ _ targetJoins) value.1
      value.2
  | .multiAssign _ targets values, valid => by
    have targetRows := joins_exprsAt depth Level.postfixForm targets valid.2.2.2.1
    have valueRows := joins_exprsAt depth Level.ternary values valid.2.2.2.2.2
    have someTargets : exprsAt depth Level.postfixForm targets ≠ [] := by
      refine exprsAt_ne_nil depth _ ?_
      rintro rfl
      exact absurd valid.2.1 (by decide)
    have someValues := exprsAt_ne_nil depth Level.ternary valid.2.2.2.2.1
    exact joins_between rfl (fun _ => ⟨_, _, rfl, rfl⟩) (joins_separated someTargets targetRows)
      (joins_separated someValues valueRows) (opens_separated someValues valueRows)
  | .block _, valid | .param _, valid | .stmt _, valid => False.elim valid

theorem joins_exprsAt (depth level : Nat) {position : Position} : (trees : List PlainExpr) →
    exprsWellFormed (.plain IsFloatWord) position trees →
    ∀ row ∈ exprsAt depth level trees, Joins row ∧ opens true row = true
  | [], _ => nofun
  | first :: rest, valid => by
    have head := joins_value depth level valid.1 (joins_expr depth first valid.1)
    have tail := joins_exprsAt depth level rest valid.2
    rw [exprsAt]
    exact List.forall_mem_cons.2 ⟨head, tail⟩

theorem joins_params (depth : Nat) : (trees : List PlainParam) →
    paramsWellFormed (.plain IsFloatWord) trees →
    ∀ row ∈ params depth trees, Joins row ∧ opens false row = true
  | [], _ => nofun
  | .mk name _ none :: rest, valid => by
    have tail := joins_params depth rest valid.2
    rw [params]
    exact List.forall_mem_cons.2 ⟨⟨joins_name valid.1, opens_name valid.1 _ _⟩, tail⟩
  | .mk name _ (some value) :: rest, valid => by
    have head := joins_value depth Level.ternary valid.2.1
      (joins_expr depth value valid.2.1)
    have tail := joins_params depth rest valid.2.2
    rw [params]
    refine List.forall_mem_cons.2 ⟨⟨?_, opens_name valid.1 _ _⟩, tail⟩
    exact @joins_between "=" [_] _ .assign rfl (fun _ => ⟨_, _, rfl, rfl⟩) (joins_name valid.1)
      head.1 head.2

theorem joins_braces (depth : Nat) (rows : List Row)
    (each : ∀ row ∈ rows, Joins row ∧ opens false row = true) : (body : List PlainStmt) →
    stmtsWellFormed (.plain IsFloatWord) false body → Joins (braces depth rows body)
  | [], _ => by
    intro delimiters complete rest follow joined
    rw [braces]
    split
    · exact ⟨⟨_, _, rfl, rfl⟩, rfl, nofun, ⟨_, _, rfl, rfl⟩, rfl, nofun, joined⟩
    · rw [List.append_assoc]
      exact joined_blockHead each ⟨_, _, rfl, rfl⟩ ⟨rfl, ⟨_, _, rfl, rfl⟩, rfl, nofun, joined⟩
  | [only], valid => by
    have inner := joins_stmt (depth + 1) only valid.1
    have line := joins_stmt 0 only valid.1
    rw [braces]
    split
    · exact joins_bracedLine each line
    · exact joins_bracedLines depth each (linesJoin_cons inner linesJoin_nil)
  | first :: second :: rest, valid => by
    have head := joins_stmt (depth + 1) first valid.1
    have tail := joins_stmts (depth + 1) (second :: rest) valid.2
    rw [braces]
    · exact joins_bracedLines depth each (linesJoin_cons head tail)
    · simp

theorem joins_stmt (depth : Nat) {chain : Bool} : (tree : PlainStmt) →
    tree.WellFormed (.plain IsFloatWord) chain → StmtJoins depth (stmt depth tree)
  | .define _ _ name parameters body, valid => by
    have each := joins_params depth parameters valid.2.1
    have loosely : ∀ row ∈ params depth parameters, Joins row ∧ opens true row = true :=
      fun row member => ⟨(each row member).1, opens_loose (each row member).2⟩
    exact stmtJoins_inBlock depth rfl (joins_defHead valid.1 loosely)
      (joins_stmts (depth + 1) body valid.2.2)
  | .expression _ value, valid =>
    stmtJoins_line depth (opens_loose (opens_expr depth value valid)) (joins_expr depth value valid)
  | .conditional _ condition [] elseBody negated modifier _, valid => by
    have head := joins_value depth Level.keyword valid.1 (joins_expr depth condition valid.1)
    have below := joins_elseLines depth (!negated) elseBody valid.2.2.1
    rw [stmt, if_neg (by simp [writtenAfter])]
    · exact stmtJoins_conditional depth negated head.1 head.2 (linesJoin_append linesJoin_nil below)
    · nofun
  | .conditional _ condition [only] elseBody negated modifier _, valid => by
    have head := joins_value depth Level.keyword valid.1 (joins_expr depth condition valid.1)
    have line := joins_stmt depth only valid.2.1.1
    have inner := joins_stmt (depth + 1) only valid.2.1.1
    have below := joins_elseLines depth (!negated) elseBody valid.2.2.1
    rw [stmt]
    split
    · exact stmtJoins_after negated line head.1 head.2
    · exact stmtJoins_conditional depth negated head.1 head.2
        (linesJoin_append (linesJoin_cons inner linesJoin_nil) below)
  | .conditional _ condition (first :: second :: rest) elseBody negated modifier _, valid => by
    have head := joins_value depth Level.keyword valid.1 (joins_expr depth condition valid.1)
    have lines := joins_stmts (depth + 1) (first :: second :: rest) valid.2.1
    have below := joins_elseLines depth (!negated) elseBody valid.2.2.1
    rw [stmt, if_neg (by simp [writtenAfter])]
    · exact stmtJoins_conditional depth negated head.1 head.2 (linesJoin_append lines below)
    · nofun
  | .whileLoop _ condition body, valid => by
    have head := joins_value depth Level.keyword valid.1 (joins_expr depth condition valid.1)
    refine stmtJoins_inBlock depth rfl ?_ (joins_stmts (depth + 1) body valid.2)
    exact joins_conditionHead (fun _ => ⟨_, _, rfl, rfl⟩) rfl (by decide) rfl rfl head.2 head.1
  | .jump _ kind none, _ => by
    refine stmtJoins_line depth (by cases kind <;> rfl) ?_
    cases kind <;> exact joins_keyword rfl rfl rfl (fun _ _ => rfl) (by decide)
  | .jump _ kind (some value), valid => by
    have head := joins_value depth Level.ternary valid (joins_expr depth value valid)
    refine stmtJoins_line depth (by cases kind <;> rfl) ?_
    cases kind <;> exact joins_conditionHead (fun _ => ⟨_, _, rfl, rfl⟩) rfl (by decide) rfl rfl
      head.2 head.1
  | .bare _, valid => False.elim valid

theorem joins_elseLines (depth : Nat) (mayChain : Bool) {chain : Bool} :
    (trees : List PlainStmt) → stmtsWellFormed (.plain IsFloatWord) chain trees →
    LinesJoin (elseLines depth mayChain trees)
  | [], _ => linesJoin_nil
  | [.conditional loc condition thenBody elseBody negated modifier elsif], valid => by
    have inner := joins_stmt (depth + 1)
      (.conditional loc condition thenBody elseBody negated modifier elsif) valid.1
    have head := joins_value depth Level.keyword valid.1.1
      (joins_expr depth condition valid.1.1)
    have lines := joins_stmts (depth + 1) thenBody valid.1.2.1
    have below := joins_elseLines depth mayChain elseBody valid.1.2.2.1
    rw [elseLines]
    split
    · refine linesJoin_cons (stmtJoins_line depth rfl ?_) (linesJoin_append lines below)
      exact joins_conditionHead (fun _ => ⟨_, _, rfl, rfl⟩) rfl (by decide) rfl rfl head.2 head.1
    · exact linesJoin_else depth (linesJoin_cons inner linesJoin_nil)
  | [.define loc scope name parameters body], valid => by
    have inner := joins_stmt (depth + 1) (.define loc scope name parameters body) valid.1
    rw [elseLines_of_plain (.inr rfl)]
    exact linesJoin_else depth (linesJoin_cons inner linesJoin_nil)
  | [.expression loc value], valid => by
    have inner := joins_stmt (depth + 1) (.expression loc value) valid.1
    rw [elseLines_of_plain (.inr rfl)]
    exact linesJoin_else depth (linesJoin_cons inner linesJoin_nil)
  | [.whileLoop loc condition body], valid => by
    have inner := joins_stmt (depth + 1) (.whileLoop loc condition body) valid.1
    rw [elseLines_of_plain (.inr rfl)]
    exact linesJoin_else depth (linesJoin_cons inner linesJoin_nil)
  | [.jump loc kind value], valid => by
    have inner := joins_stmt (depth + 1) (.jump loc kind value) valid.1
    rw [elseLines_of_plain (.inr rfl)]
    exact linesJoin_else depth (linesJoin_cons inner linesJoin_nil)
  | [.bare _], valid => False.elim valid.1
  | first :: second :: rest, valid => by
    have head := joins_stmt (depth + 1) first valid.1
    have tail := joins_stmts (depth + 1) (second :: rest) valid.2
    rw [elseLines_of_plain (.inl (List.cons_ne_nil _ _))]
    exact linesJoin_else depth (linesJoin_cons head tail)

theorem joins_stmts (depth : Nat) {chain : Bool} : (trees : List PlainStmt) →
    stmtsWellFormed (.plain IsFloatWord) chain trees → LinesJoin (stmts depth trees)
  | [], _ => linesJoin_nil
  | first :: rest, valid =>
    linesJoin_cons (joins_stmt depth first valid.1) (joins_stmts depth rest valid.2)

end

theorem linesJoin_program (valid : stmtsWellFormed (.plain IsFloatWord) false trees) :
    LinesJoin (program trees) := by
  induction trees with
  | nil => exact linesJoin_nil
  | cons first rest ih =>
    have head := joins_stmt 0 first valid.1
    have tail := ih valid.2
    cases rest with
    | nil => exact linesJoin_cons head linesJoin_nil
    | cons second rest =>
      rw [program]
      · refine linesJoin_cons head (linesJoin_append ?_ tail)
        split
        · exact linesJoin_blank
        · exact linesJoin_nil
      · simp

/-- The pieces of a program that text can spell do not run together. -/
theorem joined_program (valid : stmtsWellFormed (.plain IsFloatWord) false trees) :
    Joined LayoutState.initial (program trees) := by
  have joined : Joined LayoutState.initial (program trees ++ []) :=
    (linesJoin_program valid).joined rfl rfl trivial
  rwa [List.append_nil] at joined

end Row

end Hoist
