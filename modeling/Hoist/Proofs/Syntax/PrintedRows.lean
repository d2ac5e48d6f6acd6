import Hoist.Proofs.Steps
import Hoist.Proofs.Syntax.LineBreak

/-!
The canonical text of a well-formed tree is the text of its row; in particular it has one.
-/

namespace Hoist

open List

namespace Text

theorem toList_intercalate_cons (separator first : Text) (rest : List Text) :
    (intercalate separator (first :: rest)).toList =
      first.toList ++ rest.flatMap fun next => separator.toList ++ next.toList := by
  change (rest.foldl (fun text next => text ++ separator ++ next) first).toList = _
  induction rest generalizing first with
  | nil => simp
  | cons second rest ih =>
    rw [foldl_cons, ih]
    simp [append_assoc]

end Text

namespace Row

open Piece

def render (row : Row) : Text := .ofList (text row)

@[simp] theorem toList_render (row : Row) : (render row).toList = text row := rfl

variable {row : Row} {lines : List Text}

theorem eq_render {written : Text} (same : written.toList = text row) :
    written = render row := Text.toList_injective same

theorem text_separated_cons (first : Row) (rest : List Row) : text (separated (first :: rest)) =
      text first ++ rest.flatMap fun next => text (comma :: .gap 0 :: next) := by
  induction rest generalizing first with
  | nil => simp [separated]
  | cons second rest ih =>
    rw [separated]
    · rw [text_append, text_cons, text_cons, ih]
      simp
    · simp

theorem commaSeparated_render (rows : List Row) :
    Printer.commaSeparated (rows.map render) = render (separated rows) := by
  cases rows with
  | nil => rfl
  | cons first rest =>
    apply eq_render
    rw [Printer.commaSeparated, map_cons, Text.toList_intercalate_cons, text_separated_cons,
      flatMap_map]
    rfl

theorem inParens_render (row : Row) :
    ("(" : Text) ++ render row ++ (")" : Text) = render (inParens row) := by
  apply eq_render
  simp [inParens, leftParen, rightParen, spelled, Piece.codes]

theorem atLevel_render (level own : Nat) (row : Row) :
    Printer.atLevel level (render row, own) = render (atLevel level own row) := by
  simp only [Printer.atLevel, atLevel]
  split
  · exact inParens_render row
  · rfl

theorem toList_indent (depth : Nat) : (Printer.indent depth).toList = text (indent depth) := by
  cases depth with
  | zero => rfl
  | succ depth => simp [Printer.indent, Text.replicate, indent, Piece.codes, Text.toList]; rfl

theorem blockHead_render (rows : List Row) :
    Printer.blockHead (rows.map render) = render (blockHead rows) := by
  cases rows with
  | nil => rfl
  | cons first rest =>
    apply eq_render
    simp only [Printer.blockHead, isEmpty_map, isEmpty_cons, Bool.false_eq_true, if_false,
      commaSeparated_render]
    simp [blockHead, leftBrace, pipe, spelled, Piece.codes]

theorem emptyBraces_render (rows : List Row) :
    Printer.emptyBraces (render (blockHead rows)) = render (braces 0 rows []) := by
  cases rows with
  | nil => rfl
  | cons first rest =>
    have longer : (render (blockHead (first :: rest)) == Printer.blockHead []) = false := by
      rw [beq_eq_false_iff_ne]
      intro same
      have := congrArg (fun text => text.toList.length) same
      simp [blockHead, leftBrace, spelled, Piece.codes, Printer.blockHead] at this
    apply eq_render
    simp [Printer.emptyBraces, longer, braces, rightBrace, spelled, Piece.codes]

def endedLines (lines : List Text) : List CodePoint :=
  lines.flatMap fun line => line.toList ++ [CodePoint.ofChar '\n']

@[simp] theorem endedLines_nil : endedLines [] = [] := rfl

@[simp] theorem endedLines_cons (line : Text) (lines : List Text) :
    endedLines (line :: lines) = line.toList ++ CodePoint.ofChar '\n' :: endedLines lines := by
  simp [endedLines]

@[simp] theorem endedLines_append (left right : List Text) :
    endedLines (left ++ right) = endedLines left ++ endedLines right := flatMap_append

theorem toList_intercalate_lines (nonempty : lines ≠ []) :
    (Text.intercalate "\n" lines).toList ++ [CodePoint.ofChar '\n'] = endedLines lines := by
  cases lines with
  | nil => contradiction
  | cons first rest =>
    rw [Text.toList_intercalate_cons, endedLines_cons, append_assoc]
    congr 1
    induction rest with
    | nil => rfl
    | cons second rest ih =>
      rw [flatMap_cons, append_assoc, ih (by simp)]
      simp

theorem contains_render (row : Row) : (render row).contains '\n' = breaks row := by
  rw [Bool.eq_iff_iff, breaks_eq_true_iff]
  simp [render, Text.contains, Text.ofList]

theorem onlyLine?_eq (nonempty : lines ≠ [])
    (same : endedLines lines = text row ++ [CodePoint.ofChar '\n']) :
    Printer.onlyLine? lines = if breaks row then none else some (render row) := by
  rw [← toList_intercalate_lines nonempty] at same
  have joined := append_cancel_right same
  match lines with
  | [line] =>
    have equal : line = render row := eq_render joined
    rw [equal, Printer.onlyLine?, contains_render]
  | first :: second :: rest =>
    have broken : breaks row = true := by
      rw [breaks_eq_true_iff, ← joined, Text.toList_intercalate_cons]
      simp
    rw [broken]
    rfl

theorem literal_printed {floats : Float → Prop} {value : Literal}
    (valid : value.WellFormed floats) :
    Printer.literal value = .ok (render [literal value]) := by
  cases value with
  | nil => rfl
  | bool value => cases value <;> rfl
  | int value =>
    obtain ⟨n, rfl, small⟩ := valid
    rw [Printer.literal, Decimal.intText?_ofNat small]
    exact congrArg Except.ok (eq_render (by simp [literal, spelled, Piece.codes]))
  | float value => exact congrArg Except.ok (eq_render (by simp [literal, spelled, Piece.codes]))
  | str value => exact congrArg Except.ok (eq_render (by simp [literal, Piece.codes]))

theorem argList_printed (head : Text) (parens : Bool) (rows : List Row) :
    (if rows = [] then if parens = true then head ++ ("()" : Text) else head
      else head ++ ("(" : Text) ++ render (separated rows) ++ (")" : Text)).toList =
      head.toList ++ text (argList parens rows) := by
  cases rows with
  | nil => cases parens <;> simp [argList, leftParen, rightParen, spelled, Piece.codes]
  | cons first rest => simp [argList, inParens, leftParen, rightParen, spelled, Piece.codes]

theorem bracedLines_printed {opening : Row} {depth : Nat} (same : endedLines lines = text row) :
    Printer.bracedLines depth (render opening) lines = render (bracedLines depth opening row) := by
  apply eq_render
  refine append_cancel_right
    (?_ : _ ++ [CodePoint.ofChar '\n'] = _ ++ [CodePoint.ofChar '\n'])
  rw [Printer.bracedLines, toList_intercalate_lines (by simp)]
  simp [bracedLines, same, toList_indent, rightBrace, spelled, Piece.codes]

theorem mayBeOneLine_of_oneLine {tree : PlainStmt} (fits : tree.oneLine = true) :
    Printer.mayBeOneLine tree = true := by
  cases tree with
  | conditional =>
    rw [Stmt.oneLine_conditional] at fits
    unfold writtenAfter at fits
    simp only [Bool.and_eq_true] at fits
    exact fits.1.1.1
  | expression | jump => rfl
  | define | whileLoop | bare => contradiction

variable {floats : Float → Prop}

theorem eq_render_iff {written : Text} : written = render row ↔ written.toList = text row :=
  ⟨fun same => same ▸ rfl, eq_render⟩

theorem commaSeparated_cons (first : Row) (rest : List Row) :
    Printer.commaSeparated (render first :: rest.map render) = render (separated (first :: rest)) :=
  commaSeparated_render (first :: rest)

section Printed

attribute [local simp] Printer.expr Printer.exprsAt Printer.params Printer.stmt Printer.stmts expr
  exprsAt params stmt stmts Expr.level atLevel_render commaSeparated_render commaSeparated_cons
  eq_render_iff inBlock conditionHead paramList inParens leftParen rightParen rightBrace endWord
  spelled Piece.codes toList_indent argList_printed

theorem elseLines_plain {depth : Nat} {chain : Bool} {first : PlainStmt} {rest : List PlainStmt}
    (plain : rest ≠ [] ∨ first.isConditional = false)
    (firstPrinted : ∃ lines, Printer.stmt (depth + 1) first = .ok lines ∧ lines ≠ [] ∧
      endedLines lines = text (stmt (depth + 1) first) ++ [CodePoint.ofChar '\n'])
    (restPrinted : ∃ lines, Printer.stmts (depth + 1) rest = .ok lines ∧
      endedLines lines = text (stmts (depth + 1) rest)) :
    ∃ lines, Printer.elseLines depth chain (first :: rest) = .ok lines ∧
      endedLines lines = text (elseLines depth chain (first :: rest)) := by
  obtain ⟨lines, printed, _, same⟩ := firstPrinted
  obtain ⟨others, printedOthers, sameOthers⟩ := restPrinted
  rw [elseLines_of_plain plain, Printer.elseLines]
  · simp [-Printer.stmt, -stmt, printed, printedOthers, same, sameOthers]
  · rintro loc condition thenBody elseBody negated modifier elsif rfl rfl
    simp [Stmt.isConditional] at plain

mutual

/-- The printed text of an expression is the text of its row. -/
theorem expr_printed (depth : Nat) {position : Position} : (tree : PlainExpr) →
    tree.WellFormed (.plain floats) position →
    Printer.expr depth tree = .ok (render (expr depth tree), tree.level)
  | .literal _ value, valid => by simp [literal_printed valid]
  | .symbol .., _ | .name .., _ | .global .., _ | .constant .., _ => by simp
  | .array _ elements, valid => by simp [exprsAt_printed depth Level.ternary elements valid]
  | .splat _ value, valid => by simp [expr_printed depth value valid.2]
  | .range _ start stop exclusive, valid => by
    cases exclusive <;>
      simp [expr_printed depth start valid.1, expr_printed depth stop valid.2]
  | .binary _ op left right, valid => by
    obtain ⟨level, known⟩ := Option.isSome_iff_exists.1 valid.1
    simp [known, expr_printed depth left valid.2.1, expr_printed depth right valid.2.2]
  | .unary _ op operand, valid => by
    by_cases isNot : op = .keywordNot <;> simp [isNot, expr_printed depth operand valid.2]
  | .ternary _ condition thenValue elseValue, valid => by
    simp [expr_printed depth condition valid.1, expr_printed depth thenValue valid.2.1,
      expr_printed depth elseValue valid.2.2]
  | .lambda _ _ parameters body, valid => by
    have printedBody := braces_printed depth [] body valid.2
    rw [map_nil] at printedBody
    cases listed : params depth parameters <;>
      simp [params_printed depth parameters valid.1, printedBody, listed]
  | .call _ none method args none parens, valid => by
    obtain ⟨-, -, -, arguments, -⟩ := Expr.wellFormed_call.1 valid
    simp [exprsAt_printed depth Level.ternary args arguments]
  | .call _ (some receiver) method args none parens, valid => by
    obtain ⟨-, receiverValid, -, arguments, -⟩ := Expr.wellFormed_call.1 valid
    simp [expr_printed depth receiver (receiverValid receiver rfl),
      exprsAt_printed depth Level.ternary args arguments]
  | .call _ none method args (some (.mk _ _ parameters body)) parens, valid => by
    obtain ⟨-, -, -, arguments, blockValid⟩ := Expr.wellFormed_call.1 valid
    simp [exprsAt_printed depth Level.ternary args arguments,
      params_printed depth parameters (blockValid _ rfl).1,
      braces_printed depth _ body (blockValid _ rfl).2]
  | .call _ (some receiver) method args (some (.mk _ _ parameters body)) parens, valid => by
    obtain ⟨-, receiverValid, -, arguments, blockValid⟩ := Expr.wellFormed_call.1 valid
    simp [expr_printed depth receiver (receiverValid receiver rfl),
      exprsAt_printed depth Level.ternary args arguments,
      params_printed depth parameters (blockValid _ rfl).1,
      braces_printed depth _ body (blockValid _ rfl).2]
  | .index _ value args, valid => by
    simp [expr_printed depth value valid.1, exprsAt_printed depth Level.ternary args valid.2.2]
  | .assign _ target value, valid => by
    simp [expr_printed depth target valid.2.2.1, expr_printed depth value valid.2.2.2]
  | .opAssign _ target op value, valid => by
    simp [expr_printed depth target valid.2.2.2.1, expr_printed depth value valid.2.2.2.2]
  | .multiAssign _ targets values, valid => by
    simp [exprsAt_printed depth Level.postfixForm targets valid.2.2.2.1,
      exprsAt_printed depth Level.ternary values valid.2.2.2.2.2]
  | .block _, valid | .param _, valid | .stmt _, valid => False.elim valid

theorem exprsAt_printed (depth level : Nat) {position : Position} : (trees : List PlainExpr) →
    exprsWellFormed (.plain floats) position trees →
    Printer.exprsAt depth level trees = .ok ((exprsAt depth level trees).map render)
  | [], _ => rfl
  | first :: rest, valid => by
    simp [expr_printed depth first valid.1, exprsAt_printed depth level rest valid.2]

theorem params_printed (depth : Nat) : (trees : List PlainParam) →
    paramsWellFormed (.plain floats) trees →
    Printer.params depth trees = .ok ((params depth trees).map render)
  | [], _ => rfl
  | .mk name _ none :: rest, valid => by simp [params_printed depth rest valid.2]
  | .mk name _ (some value) :: rest, valid => by
    simp [expr_printed depth value valid.2.1, params_printed depth rest valid.2.2]

theorem braces_printed (depth : Nat) (params : List Row) : (trees : List PlainStmt) →
    stmtsWellFormed (.plain floats) false trees →
    Printer.braces depth (Printer.blockHead (params.map render)) trees =
      .ok (render (braces depth params trees))
  | [], _ => by
    rw [blockHead_render, Printer.braces, emptyBraces_render]
    rfl
  | [only], valid => by
    obtain ⟨lines, printed, nonempty, same⟩ := stmt_printed 0 only valid.1
    obtain ⟨deeper, printedDeeper, _, sameDeeper⟩ := stmt_printed (depth + 1) only valid.1
    have line := onlyLine?_eq nonempty same
    rw [breaks_stmt 0 only valid.1] at line
    rw [blockHead_render]
    cases fits : only.oneLine with
    | true =>
      simp only [Printer.braces, mayBeOneLine_of_oneLine fits, if_true, printed, ok_bind, pure_bind,
        line, fits, Bool.not_true, Bool.false_eq_true, if_false]
      exact congrArg Except.ok (eq_render (by simp [braces, fits]))
    | false =>
      have sameRow : endedLines deeper = text (stmt (depth + 1) only ++ [.lineEnd true]) := by
        simp [sameDeeper]
      simp [Printer.braces, printed, printedDeeper, line, braces, fits, bracedLines_printed sameRow]
  | first :: second :: rest, valid => by
    obtain ⟨lines, printed, _, same⟩ := stmt_printed (depth + 1) first valid.1
    obtain ⟨others, printedOthers, sameOthers⟩ :=
      stmts_printed (depth + 1) (second :: rest) valid.2
    rw [blockHead_render]
    simp only [Printer.braces, printed, printedOthers, ok_bind]
    exact congrArg Except.ok (bracedLines_printed (by simp [same, sameOthers]))

theorem stmt_printed (depth : Nat) {chain : Bool} : (tree : PlainStmt) →
    tree.WellFormed (.plain floats) chain →
    ∃ lines, Printer.stmt depth tree = .ok lines ∧ lines ≠ [] ∧
      endedLines lines = text (stmt depth tree) ++ [CodePoint.ofChar '\n']
  | .define _ _ name parameters body, valid => by
    obtain ⟨lines, printed, same⟩ := stmts_printed (depth + 1) body valid.2.2
    cases listed : params depth parameters <;>
      simp [params_printed depth parameters valid.2.1, printed, same, listed]
  | .expression _ value, valid => by simp [expr_printed depth value valid]
  | .conditional _ condition [] elseBody negated modifier _, valid => by
    obtain ⟨lines, printed, same⟩ := elseLines_printed depth (!negated) elseBody valid.2.2.1
    cases negated <;>
      simp_all [expr_printed depth condition valid.1, writtenAfter]
  | .conditional loc condition [only] elseBody negated modifier elsif, valid => by
    obtain ⟨line, printedLine, nonempty, sameLine⟩ := stmt_printed depth only valid.2.1.1
    obtain ⟨lines, printed, same⟩ := stmts_printed (depth + 1) [only] valid.2.1
    obtain ⟨others, printedOthers, sameOthers⟩ :=
      elseLines_printed depth (!negated) elseBody valid.2.2.1
    have single := onlyLine?_eq nonempty sameLine
    rw [breaks_stmt depth only valid.2.1.1] at single
    cases written : writtenAfter modifier [only] elseBody with
    | true =>
      have parts : (modifier && elseBody.isEmpty && only.oneLine) = true := written
      simp only [Bool.and_eq_true] at parts
      obtain ⟨⟨rfl, noElse⟩, fits⟩ := parts
      cases negated <;>
        simp [expr_printed depth condition valid.1, printedLine, noElse,
          mayBeOneLine_of_oneLine fits, single, fits, written]
    | false =>
      have noLine : (modifier && elseBody.isEmpty && Printer.mayBeOneLine only) = true →
          Printer.onlyLine? line = none := by
        intro allowed
        have parts : (modifier && elseBody.isEmpty && only.oneLine) = false := written
        rw [(Bool.and_eq_true_iff.1 allowed).1, Bool.true_and] at parts
        rw [single, parts]
        rfl
      have long : Printer.stmt depth
        (.conditional loc condition [only] elseBody negated modifier elsif) =
          .ok ((Printer.indent depth ++ ((if negated then "unless " else "if ") ++ render
            (atLevel Level.keyword condition.level (expr depth condition)))) :: lines ++ others ++
              [Printer.indent depth ++ "end"]) := by
        simp only [Printer.stmt, expr_printed depth condition valid.1, printedLine, printed,
          printedOthers, ok_bind, pure_bind, atLevel_render]
        refine (ite_eq_right_iff.2 fun allowed => ?_).trans rfl
        rw [noLine allowed]
      rw [long]
      cases negated <;> simp [written, same, sameOthers]
  | .conditional _ condition (first :: second :: rest) elseBody negated modifier _, valid => by
    obtain ⟨lines, printed, same⟩ :=
      stmts_printed (depth + 1) (first :: second :: rest) valid.2.1
    obtain ⟨others, printedOthers, sameOthers⟩ :=
      elseLines_printed depth (!negated) elseBody valid.2.2.1
    cases negated <;>
      simp_all [expr_printed depth condition valid.1, writtenAfter]
  | .whileLoop _ condition body, valid => by
    obtain ⟨lines, printed, same⟩ := stmts_printed (depth + 1) body valid.2
    simp [expr_printed depth condition valid.1, printed, same]
  | .jump _ kind none, _ => by simp
  | .jump _ kind (some value), valid => by simp [expr_printed depth value valid]
  | .bare _, valid => False.elim valid

theorem elseLines_printed (depth : Nat) (chain : Bool) : (trees : List PlainStmt) →
    stmtsWellFormed (.plain floats) chain trees →
    ∃ lines, Printer.elseLines depth chain trees = .ok lines ∧
      endedLines lines = text (elseLines depth chain trees)
  | [], _ => ⟨[], rfl, rfl⟩
  | [.conditional loc condition thenBody elseBody negated modifier elsif], valid => by
    cases chained : chain && elsif && !negated with
    | true =>
      obtain ⟨lines, printed, same⟩ := stmts_printed (depth + 1) thenBody valid.1.2.1
      obtain ⟨others, printedOthers, sameOthers⟩ :=
        elseLines_printed depth chain elseBody (by
          simp only [Bool.and_eq_true, Bool.not_eq_true'] at chained
          simpa [chained] using valid.1.2.2.1)
      simp [Printer.elseLines, elseLines, chained, expr_printed depth condition valid.1.1, printed,
        printedOthers, same, sameOthers]
    | false =>
      obtain ⟨lines, printed, _, same⟩ := stmt_printed (depth + 1)
        (.conditional loc condition thenBody elseBody negated modifier elsif) valid.1
      simp [-Printer.stmt, -stmt, Printer.elseLines, elseLines, chained, printed, same]
  | [.define loc scope name parameters body], valid =>
    elseLines_plain (.inr rfl)
      (stmt_printed (depth + 1) (.define loc scope name parameters body) valid.1) ⟨[], rfl, rfl⟩
  | [.expression loc value], valid =>
    elseLines_plain (.inr rfl) (stmt_printed (depth + 1) (.expression loc value) valid.1)
      ⟨[], rfl, rfl⟩
  | [.whileLoop loc condition body], valid =>
    elseLines_plain (.inr rfl) (stmt_printed (depth + 1) (.whileLoop loc condition body) valid.1)
      ⟨[], rfl, rfl⟩
  | [.jump loc kind value], valid =>
    elseLines_plain (.inr rfl) (stmt_printed (depth + 1) (.jump loc kind value) valid.1)
      ⟨[], rfl, rfl⟩
  | [.bare value], valid => False.elim valid.1
  | first :: second :: rest, valid =>
    elseLines_plain (.inl (by simp)) (stmt_printed (depth + 1) first valid.1)
      (stmts_printed (depth + 1) (second :: rest) valid.2)

theorem stmts_printed (depth : Nat) {chain : Bool} : (trees : List PlainStmt) →
    stmtsWellFormed (.plain floats) chain trees →
    ∃ lines, Printer.stmts depth trees = .ok lines ∧
      endedLines lines = text (stmts depth trees)
  | [], _ => ⟨[], rfl, rfl⟩
  | first :: rest, valid => by
    obtain ⟨lines, printed, _, same⟩ := stmt_printed depth first valid.1
    obtain ⟨others, printedOthers, sameOthers⟩ := stmts_printed depth rest valid.2
    simp [-Printer.stmt, -stmt, printed, printedOthers, same, sameOthers]

end

end Printed

theorem programLines_printed {trees : PlainProgram}
    (valid : stmtsWellFormed (.plain floats) false trees) :
    ∃ lines, Printer.programLines trees = .ok lines ∧ endedLines lines = text (program trees) := by
  induction trees with
  | nil => exact ⟨[], rfl, rfl⟩
  | cons first rest ih =>
    obtain ⟨lines, printed, _, same⟩ := stmt_printed 0 first valid.1
    cases rest with
    | nil => exact ⟨lines, printed, by simp [program, same, Piece.codes]⟩
    | cons second rest =>
      obtain ⟨others, printedOthers, sameOthers⟩ := ih valid.2
      apply Exists.intro
      refine ⟨?_, ?_⟩
      · simp only [Printer.programLines, printed, printedOthers, ok_bind]
        rfl
      · cases blank : Printer.isDefinition first <;>
        simp [program, blank, same, sameOthers, Piece.codes]

end Row

theorem print_eq_render {floats : Float → Prop} {program : PlainProgram}
    (valid : stmtsWellFormed (.plain floats) false program) :
    print program = .ok (Row.render (Row.program program)) := by
  obtain ⟨lines, printed, same⟩ := Row.programLines_printed valid
  simp only [print, printed, ok_bind]
  refine congrArg Except.ok (Row.eq_render ?_)
  cases lines with
  | nil => simpa using same
  | cons first rest =>
    rw [← same, ← Row.toList_intercalate_lines (by simp)]
    simp

end Hoist
