import Hoist.Proofs.Syntax.Rows

/-!
A tree that can be written on one line has no line end in its row, and every other tree has one.
-/

namespace Hoist

open Lexeme

variable {spelling : String}

theorem newline_not_mem_isSpelled {starts : Char → Bool} {ending : List Char → Bool}
    (spelled : isSpelled starts ending spelling = true) (first : starts '\n' = false)
    (last : ∀ mark, ending mark = true → isMark mark = true) : '\n' ∉ spelling.toList := by
  obtain ⟨start, body, mark, split, starting, inside, valid⟩ := isSpelled_cases spelled
  rw [split]
  simp only [List.mem_cons, List.mem_append, not_or]
  refine ⟨?_, ?_, ?_⟩
  · rintro rfl
    rw [first] at starting
    contradiction
  · intro member
    exact absurd (inside _ member) (by decide)
  · intro member
    rcases isMark_cases (last mark valid) with rfl | rfl | rfl <;> simp at member

theorem newline_not_mem_name (valid : isName spelling = true) : '\n' ∉ spelling.toList :=
  newline_not_mem_isSpelled (Bool.and_eq_true_iff.1 valid).1 rfl fun _ marked => marked

theorem newline_not_mem_symbol (valid : isSymbol spelling = true) : '\n' ∉ spelling.toList :=
  newline_not_mem_isSpelled valid rfl fun _ marked => marked

theorem isMark_of_isEmpty (mark : List Char) (empty : mark.isEmpty = true) :
    isMark mark = true := by
  rw [List.isEmpty_iff.1 empty]
  rfl

theorem newline_not_mem_global (valid : isGlobal spelling = true) : '\n' ∉ spelling.toList :=
  newline_not_mem_isSpelled valid rfl isMark_of_isEmpty

theorem newline_not_mem_constant (valid : isConstant spelling = true) : '\n' ∉ spelling.toList :=
  newline_not_mem_isSpelled valid rfl isMark_of_isEmpty

theorem newline_not_mem_digits {digits : List Char} (valid : AreDigits digits) : '\n' ∉ digits :=
  fun member => absurd (valid _ member) (by decide)

theorem newline_not_mem_isFloat {text : List Char} (valid : IsFloat text) : '\n' ∉ text := by
  obtain ⟨whole, fraction, exponent, rfl, -, digits, -, places, raised⟩ := valid
  have noExponent : '\n' ∉ exponent := by
    rcases raised with rfl | ⟨sign, tail, rfl, signed, -, valid⟩
    · simp
    · rcases signed with rfl | rfl <;> simp [newline_not_mem_digits valid]
  simp [newline_not_mem_digits digits, newline_not_mem_digits places, noExponent]

theorem newline_not_mem_floatText (x : Float) :
    '\n' ∉ (Decimal.floatText Decimal.literalStyle x).toList := by
  have signed : ∀ (negative : Bool) (text : String), '\n' ∉ text.toList →
      '\n' ∉ (if negative then "-" ++ text else text).toList := by
    intro negative text absent
    split <;> simp [absent]
  unfold Decimal.floatText
  split
  · decide
  · exact signed _ _ (by decide)
  · exact signed _ _ (by decide)
  · apply signed
    split
    · exact newline_not_mem_isFloat (Decimal.isFloat_positionalText _)
    · exact newline_not_mem_isFloat (Decimal.isFloat_exponentText _)

/-- Whether the text of a piece holds a line end. -/
def Piece.breaks (piece : Piece) : Bool := piece.codes.contains (CodePoint.ofChar '\n')

namespace Row

open Piece

/-- Whether the text of a row holds a line end. -/
def breaks (row : Row) : Bool := row.any Piece.breaks

theorem breaks_eq_true_iff (row : Row) : breaks row = true ↔ CodePoint.ofChar '\n' ∈ text row := by
  simp [breaks, Piece.breaks, text]

@[simp] theorem breaks_nil : breaks [] = false := rfl

@[simp] theorem breaks_cons (piece : Piece) (rest : Row) :
    breaks (piece :: rest) = (piece.breaks || breaks rest) := rfl

@[simp] theorem breaks_append (left right : Row) :
    breaks (left ++ right) = (breaks left || breaks right) := List.any_append

@[simp] theorem breaks_gap (more : Nat) : (Piece.gap more).breaks = false := by
  simp [Piece.breaks, Piece.codes, List.mem_replicate]

@[simp] theorem breaks_lineEnd (ends : Bool) : (Piece.lineEnd ends).breaks = true := rfl

theorem breaks_spelled (kind : TokenKind) (absent : '\n' ∉ spelling.toList) :
    (spelled kind spelling).breaks = false := by
  simp only [Piece.breaks, spelled, Piece.codes, Text.toList_ofString, List.contains_eq_mem,
    decide_eq_false_iff_not]
  intro member
  obtain ⟨c, inside, same⟩ := List.mem_map.1 member
  rw [CodePoint.ofChar_inj] at same
  exact absent (same ▸ inside)

@[simp] theorem breaks_indent (depth : Nat) : breaks (indent depth) = false := by
  cases depth <;> simp [indent]

@[simp] theorem breaks_inParens (row : Row) : breaks (inParens row) = breaks row := by
  simp [inParens, leftParen, rightParen, breaks_spelled]

@[simp] theorem breaks_atLevel (level own : Nat) (row : Row) :
    breaks (atLevel level own row) = breaks row := by
  unfold atLevel
  split <;> simp

theorem breaks_separated (rows : List Row) : breaks (separated rows) = rows.any breaks := by
  induction rows with
  | nil => rfl
  | cons first rest ih =>
    cases rest with
    | nil => simp [separated]
    | cons second rest => simp [separated, comma, breaks_spelled, ih]

@[simp] theorem breaks_literal (value : Literal) : (literal value).breaks = false := by
  cases value with
  | nil => rfl
  | bool value => cases value <;> rfl
  | int value =>
    apply breaks_spelled
    rw [Decimal.toList_toString]
    exact newline_not_mem_digits (areDigits_toDigits _)
  | float value => exact breaks_spelled _ (newline_not_mem_floatText value)
  | str value =>
    have absent := StringLiteral.newline_not_mem_encode value.toList
    simp [literal, Piece.breaks, Piece.codes, StringLiteral.toList_render, absent]

theorem breaks_argList (parens : Bool) (rows : List Row) :
    breaks (argList parens rows) = rows.any breaks := by
  cases rows with
  | nil => cases parens <;> simp [argList, leftParen, rightParen, breaks_spelled]
  | cons first rest => simp [argList, breaks_separated]

theorem breaks_paramList (rows : List Row) : breaks (paramList rows) = rows.any breaks := by
  cases rows with
  | nil => rfl
  | cons first rest => simp [paramList, breaks_separated]

theorem breaks_blockHead (rows : List Row) : breaks (blockHead rows) = rows.any breaks := by
  cases rows with
  | nil => rfl
  | cons first rest => simp [blockHead, leftBrace, pipe, breaks_spelled, breaks_separated]

theorem breaks_conditionHead {kind : TokenKind} {keyword : String} (condition : Row)
    (absent : '\n' ∉ keyword.toList) :
    breaks (conditionHead kind keyword condition) = breaks condition := by
  simp [conditionHead, breaks_spelled kind absent]

@[simp] theorem breaks_inBlock (depth : Nat) (head lines : Row) :
    breaks (inBlock depth head lines) = true := by
  simp [inBlock]

@[simp] theorem breaks_bracedLines (depth : Nat) (opening lines : Row) :
    breaks (bracedLines depth opening lines) = true := by
  simp [bracedLines]

theorem newline_not_mem_binary {op : BinaryOp} (known : op.level?.isSome = true) :
    '\n' ∉ op.spelling.toList := by
  cases op with
  | other spelling => contradiction
  | _ => decide

theorem newline_not_mem_unary {op : UnaryOp} (known : op.isKnown = true) :
    '\n' ∉ op.spelling.toList := by
  cases op with
  | other spelling => contradiction
  | _ => decide

theorem newline_not_mem_assignment {op : BinaryOp} (assigns : op.assigns = true) :
    '\n' ∉ (op.spelling ++ "=").toList := by
  cases op with
  | other spelling => contradiction
  | _ => decide

theorem newline_not_mem_jump (kind : JumpKind) : '\n' ∉ kind.keyword.toList := by
  cases kind <;> decide

variable {floats : Float → Prop}

attribute [local simp] expr exprsAt params stmt Expr.oneLine exprsOneLine paramsOneLine Stmt.oneLine
  breaks_spelled breaks_separated breaks_argList breaks_paramList breaks_conditionHead Bool.or_assoc

mutual

/-- The row of an expression breaks exactly when it does not fit on one line. -/
theorem breaks_expr (depth : Nat) {position : Position} : (tree : PlainExpr) →
    tree.WellFormed (.plain floats) position → breaks (expr depth tree) = !tree.oneLine
  | .literal _ value, _ => by simp [Expr.oneLine]
  | .symbol _ name, valid => by
    have absent : '\n' ∉ (":" ++ name).toList := by simp [newline_not_mem_symbol valid]
    simp [breaks_spelled _ absent]
  | .name _ name, valid => by
    have absent : '\n' ∉ name.toList := newline_not_mem_name valid
    simp [breaks_spelled _ absent]
  | .global _ name, valid => by
    have absent : '\n' ∉ ("$" ++ name).toList := by simp [newline_not_mem_global valid]
    simp [breaks_spelled _ absent]
  | .constant _ name, valid => by
    simp [breaks_spelled _ (newline_not_mem_constant valid)]
  | .array _ elements, valid => by
    simp [breaks_exprsAt depth Level.ternary elements valid]
  | .splat _ value, valid => by
    simp [breaks_expr depth value valid.2]
  | .range _ start stop exclusive, valid => by
    cases exclusive <;>
      simp [breaks_expr depth start valid.1, breaks_expr depth stop valid.2]
  | .binary _ op left right, valid => by
    simp [breaks_spelled _ (newline_not_mem_binary valid.1), breaks_expr depth left valid.2.1,
      breaks_expr depth right valid.2.2]
  | .unary _ op operand, valid => by
    unfold expr
    split <;>
    simp [breaks_spelled _ (newline_not_mem_unary valid.1), breaks_expr depth operand valid.2]
  | .ternary _ condition thenValue elseValue, valid => by
    simp [breaks_expr depth condition valid.1, breaks_expr depth thenValue valid.2.1,
      breaks_expr depth elseValue valid.2.2]
  | .lambda _ _ params body, valid => by
    simp [breaks_params depth params valid.1, breaks_braces depth [] body valid.2]
  | .call _ none method args none parens, valid => by
    obtain ⟨-, -, named, arguments, -⟩ := Expr.wellFormed_call.1 valid
    simp [breaks_spelled _ (newline_not_mem_name named),
      breaks_exprsAt depth Level.ternary args arguments]
  | .call _ (some receiver) method args none parens, valid => by
    obtain ⟨-, receiverValid, named, arguments, -⟩ := Expr.wellFormed_call.1 valid
    simp [breaks_spelled _ (newline_not_mem_name named),
      breaks_exprsAt depth Level.ternary args arguments,
      breaks_expr depth receiver (receiverValid receiver rfl)]
  | .call _ none method args (some (.mk _ _ params body)) parens, valid => by
    obtain ⟨-, -, named, arguments, blockValid⟩ := Expr.wellFormed_call.1 valid
    simp [breaks_spelled _ (newline_not_mem_name named),
      breaks_exprsAt depth Level.ternary args arguments,
      breaks_braces depth _ body (blockValid _ rfl).2,
      breaks_params depth params (blockValid _ rfl).1]
  | .call _ (some receiver) method args (some (.mk _ _ params body)) parens, valid => by
    obtain ⟨-, receiverValid, named, arguments, blockValid⟩ := Expr.wellFormed_call.1 valid
    simp [breaks_spelled _ (newline_not_mem_name named),
      breaks_exprsAt depth Level.ternary args arguments,
      breaks_expr depth receiver (receiverValid receiver rfl),
      breaks_braces depth _ body (blockValid _ rfl).2,
      breaks_params depth params (blockValid _ rfl).1]
  | .index _ value args, valid => by
    simp [breaks_expr depth value valid.1, breaks_exprsAt depth Level.ternary args valid.2.2]
  | .assign _ target value, valid => by
    simp [breaks_expr depth target valid.2.2.1, breaks_expr depth value valid.2.2.2]
  | .opAssign _ target op value, valid => by
    simp [breaks_spelled _ (newline_not_mem_assignment valid.2.2.1),
      breaks_expr depth target valid.2.2.2.1, breaks_expr depth value valid.2.2.2.2]
  | .multiAssign _ targets values, valid => by
    simp [breaks_exprsAt depth Level.postfixForm targets valid.2.2.2.1,
      breaks_exprsAt depth Level.ternary values valid.2.2.2.2.2]
  | .block _, valid | .param _, valid | .stmt _, valid => False.elim valid

theorem breaks_exprsAt (depth level : Nat) {position : Position} : (trees : List PlainExpr) →
    exprsWellFormed (.plain floats) position trees →
    (exprsAt depth level trees).any breaks = !exprsOneLine trees
  | [], _ => rfl
  | first :: rest, valid => by
    simp [breaks_expr depth first valid.1,
      breaks_exprsAt depth level rest valid.2]

theorem breaks_params (depth : Nat) : (trees : List PlainParam) →
    paramsWellFormed (.plain floats) trees →
    (params depth trees).any breaks = !paramsOneLine trees
  | [], _ => rfl
  | .mk name _ none :: rest, valid => by
    simp [breaks_spelled _ (newline_not_mem_name valid.1), breaks_params depth rest valid.2]
  | .mk name _ (some value) :: rest, valid => by
    simp [breaks_spelled _ (newline_not_mem_name valid.1), breaks_expr depth value valid.2.1,
      breaks_params depth rest valid.2.2]

theorem breaks_braces (depth : Nat) (params : List Row) : (trees : List PlainStmt) →
    stmtsWellFormed (.plain floats) false trees →
    breaks (braces depth params trees) = (params.any breaks || !bodyOneLine trees)
  | [], _ => by
    cases params <;>
    simp [braces, bodyOneLine, leftBrace, rightBrace, breaks_blockHead]
  | [only], valid => by
    cases fits : only.oneLine <;>
    simp [braces, bodyOneLine, rightBrace, breaks_blockHead, fits, breaks_stmt 0 only valid.1]
  | first :: second :: rest, _ => by simp [braces, bodyOneLine]

theorem breaks_stmt (depth : Nat) {chain : Bool} : (tree : PlainStmt) →
    tree.WellFormed (.plain floats) chain → breaks (stmt depth tree) = !tree.oneLine
  | .define .., _ => by simp [Stmt.oneLine]
  | .expression _ value, valid => by
    simp [breaks_expr depth value valid]
  | .conditional _ condition [] elseBody negated modifier _, _ => by
    simp [writtenAfter]
  | .conditional _ condition [only] elseBody negated modifier _, valid => by
    have absent : '\n' ∉ (if negated then "unless" else "if").toList := by
      cases negated <;> decide
    cases written : writtenAfter modifier [only] elseBody with
    | false =>
      have same : (modifier && elseBody.isEmpty && only.oneLine) = false := written
      simp [written, same]
    | true =>
      have same : (modifier && elseBody.isEmpty && only.oneLine) = true := written
      have inside := breaks_stmt depth only valid.2.1.1
      rw [(Bool.and_eq_true_iff.1 same).2] at inside
      simp [written, same, inside, breaks_conditionHead _ absent,
        breaks_expr depth condition valid.1]
  | .conditional _ condition (_ :: _ :: _) elseBody negated modifier _, _ => by
    simp [writtenAfter]
  | .whileLoop .., _ => by simp [Stmt.oneLine]
  | .jump _ kind none, _ => by
    simp [breaks_spelled _ (newline_not_mem_jump kind)]
  | .jump _ kind (some value), valid => by
    simp [breaks_conditionHead _ (newline_not_mem_jump kind), breaks_expr depth value valid]
  | .bare _, valid => False.elim valid

end

end Row

end Hoist
