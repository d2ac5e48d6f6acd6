import Hoist.Syntax.Parser
import Hoist.Proofs.Syntax.Spelling

/-!
Program text as a row of pieces: words with their kinds, gaps and line ends.  When neighbouring
pieces do not run together, scanning the text finds the words again, and layout keeps them and turns
into terminators just the line ends that are marked so.
-/

namespace Hoist

open List

open Lexeme

/-- A piece of program text. -/
inductive Piece where
  | word (kind : TokenKind) (codes : List CodePoint)
  /-- One blank and `more` others. -/
  | gap (more : Nat)
  /-- A line end; `ends` tells whether it ends a statement. -/
  | lineEnd (ends : Bool)

/-- A token without its place. -/
def Token.placeless (token : Token) : Token := { token with loc := default, start := 0, stop := 0 }

namespace Piece

def codes : Piece → List CodePoint
  | .word _ codes => codes
  | .gap more => List.replicate (more + 1) ' '
  | .lineEnd _ => [CodePoint.ofChar '\n']

def spelled (kind : TokenKind) (spelling : String) : Piece :=
  .word kind (Text.ofString spelling).toList

/-- The token that a piece becomes, without its place. -/
def token? : Piece → Option Token
  | .word kind codes => some ⟨kind, .ofList codes, default, 0, 0⟩
  | .gap _ | .lineEnd false => none
  | .lineEnd true => some ⟨.terminator, .ofString "\n", default, 0, 0⟩

/-- The text of a row of pieces. -/
def text (pieces : List Piece) : List CodePoint := pieces.flatMap codes

def chars (pieces : List Piece) : List Char := (text pieces).map CodePoint.toChar

/-- The tokens of a row of pieces, without their places. -/
def tokens (pieces : List Piece) : List Token := pieces.filterMap token?

/-- The scanned tokens of a row of pieces that starts at a place. -/
def placed (offset : Nat) (loc : Loc) : List Piece → List Token
  | [] => []
  | piece :: rest =>
    let after := placed (offset + piece.codes.length) (loc.advanceBy piece.codes) rest
    let token (kind : TokenKind) : Token :=
      ⟨kind, .ofList piece.codes, loc, offset, offset + piece.codes.length⟩
    match piece with
    | .word kind _ => token kind :: after
    | .gap _ => after
    | .lineEnd _ => token .newline :: after

/-- Whether the first piece is a gap. -/
def startsWithGap : List Piece → Bool
  | .gap _ :: _ => true
  | _ => false

/-- Whether the first word is a dot. -/
def startsWithDot : List Piece → Bool
  | [] => false
  | .word kind _ :: _ => kind == .dot
  | .gap _ :: rest | .lineEnd _ :: rest => startsWithDot rest

/-- Whether what follows a name leaves it a name and no head of a command call. -/
def leavesName : List Piece → Bool
  | .gap _ :: .word kind _ :: rest =>
    !kind.startsArgument && kind != .leftParen && (!kind.hugsArgument || startsWithGap rest)
  | .gap _ :: _ => false
  | _ => true

/-- Kinds that layout neither makes nor removes. -/
def isPlain (kind : TokenKind) : Bool :=
  match kind with
  | .command | .newline | .semicolon | .terminator => false
  | _ => true

/-- Whether pieces stand side by side without running together, in a layout state. -/
def Joined (state : LayoutState) : List Piece → Prop
  | [] => True
  | .word kind codes :: rest =>
    Scans kind codes (chars rest) ∧ isPlain kind = true ∧
      (kind = .name → leavesName rest = true) ∧ Joined (state.after kind) rest
  | .gap _ :: rest => startsWithGap rest = false ∧ Joined state rest
  | .lineEnd ends :: rest =>
    state.linesCount = true ∧ ends = state.complete ∧ startsWithDot rest = false ∧
      Joined state.afterTerminator rest

@[simp] theorem text_nil : text [] = [] := rfl

@[simp] theorem text_cons (piece : Piece) (rest : List Piece) :
    text (piece :: rest) = piece.codes ++ text rest := rfl

@[simp] theorem text_append (left right : List Piece) :
    text (left ++ right) = text left ++ text right := flatMap_append

@[simp] theorem chars_nil : chars [] = [] := rfl

@[simp] theorem chars_cons (piece : Piece) (rest : List Piece) :
    chars (piece :: rest) = piece.codes.map CodePoint.toChar ++ chars rest := by
  simp [chars]

@[simp] theorem chars_append (left right : List Piece) :
    chars (left ++ right) = chars left ++ chars right := by
  simp [chars]

@[simp] theorem tokens_nil : tokens [] = [] := rfl

@[simp] theorem tokens_append (left right : List Piece) :
    tokens (left ++ right) = tokens left ++ tokens right := filterMap_append

@[simp] theorem tokens_word (kind : TokenKind) (codes : List CodePoint) (rest : List Piece) :
    tokens (.word kind codes :: rest) = ⟨kind, .ofList codes, default, 0, 0⟩ :: tokens rest := rfl

@[simp] theorem tokens_spelled (kind : TokenKind) (spelling : String) (rest : List Piece) :
    tokens (spelled kind spelling :: rest) =
      ⟨kind, .ofString spelling, default, 0, 0⟩ :: tokens rest := rfl

@[simp] theorem tokens_gap (more : Nat) (rest : List Piece) :
    tokens (.gap more :: rest) = tokens rest := rfl

@[simp] theorem tokens_lineEnd_true (rest : List Piece) : tokens (.lineEnd true :: rest) =
      ⟨.terminator, .ofString "\n", default, 0, 0⟩ :: tokens rest := rfl

@[simp] theorem tokens_lineEnd_false (rest : List Piece) :
    tokens (.lineEnd false :: rest) = tokens rest := rfl

theorem scanFrom_skip (offset : Nat) (loc : Loc) (skipped codes : List CodePoint) :
    scanFrom offset loc skipped.length (skipped ++ codes)
        ((skipped ++ codes).map CodePoint.toChar) =
      scanFrom offset loc 0 codes (codes.map CodePoint.toChar) := by
  induction skipped with
  | nil => rfl
  | cons code rest ih => simpa [scanFrom] using ih

theorem scanFrom_token {first : CodePoint} {more after : List CodePoint} {kind : TokenKind}
    (read : at? first.toChar (more.map CodePoint.toChar ++ after.map CodePoint.toChar) =
      some (.token kind, more.length)) (offset : Nat) (loc : Loc) :
    scanFrom offset loc 0 (first :: more ++ after) ((first :: more ++ after).map CodePoint.toChar) =
      (scanFrom (offset + (first :: more).length) (loc.advanceBy (first :: more)) 0 after
        (after.map CodePoint.toChar)).map
        (⟨kind, .ofList (first :: more), loc, offset, offset + (first :: more).length⟩ :: ·) := by
  have taken : (more ++ after).take more.length = more := take_left
  rw [← map_append] at read
  rw [cons_append, map_cons, scanFrom]
  simp only [read, taken, scanFrom_skip, length_cons, Nat.add_assoc]

/-- A blank is passed over. -/
theorem scanFrom_blank {first : CodePoint} {more after : List CodePoint}
    (read : at? first.toChar (more.map CodePoint.toChar ++ after.map CodePoint.toChar) =
      some (.blank, more.length)) (offset : Nat) (loc : Loc) :
    scanFrom offset loc 0 (first :: more ++ after) ((first :: more ++ after).map CodePoint.toChar) =
      scanFrom (offset + (first :: more).length) (loc.advanceBy (first :: more)) 0 after
        (after.map CodePoint.toChar) := by
  have taken : (more ++ after).take more.length = more := take_left
  rw [← map_append] at read
  rw [cons_append, map_cons, scanFrom]
  simp only [read, taken, scanFrom_skip, length_cons, Nat.add_assoc]

theorem at?_gap (more : Nat) {after : List Char}
    (inside : after.takeWhile (fun c => c == ' ' || c == '\t' || c == '\x0c') = []) :
    at? ' ' (List.replicate more ' ' ++ after) = some (.blank, more) := by
  have blanks : ∀ c ∈ List.replicate more ' ', (c == ' ' || c == '\t' || c == '\x0c') = true := by
    intro c member
    rw [eq_of_mem_replicate member]
    rfl
  have length : ((List.replicate more ' ' ++ after).takeWhile
      fun c => c == ' ' || c == '\t' || c == '\x0c').length = more := by
    rw [takeWhile_append_of_pos blanks, inside, append_nil, length_replicate]
  change some (Lexeme.blank, _) = _
  rw [length]

variable {state : LayoutState} {pieces : List Piece}

theorem takeWhile_blank_chars (joined : Joined state pieces)
    (noGap : startsWithGap pieces = false) :
    (chars pieces).takeWhile (fun c => c == ' ' || c == '\t' || c == '\x0c') = [] := by
  cases pieces with
  | nil => rfl
  | cons piece rest =>
    cases piece with
    | gap more => contradiction
    | lineEnd ends => rfl
    | word kind codes =>
      obtain ⟨first, more, rfl, read⟩ := joined.1
      have noBlank : (first.toChar == ' ' || first.toChar == '\t' || first.toChar == '\x0c')
          = false := by
        rw [Bool.eq_false_iff]
        simp only [ne_eq, Bool.or_eq_true, beq_iff_eq]
        rintro ((blank | blank) | blank)
        all_goals
          rw [blank] at read
          cases read
      simp [Piece.codes, noBlank]

theorem scanFrom_text (joined : Joined state pieces) (offset : Nat) (loc : Loc) :
    scanFrom offset loc 0 (text pieces) (chars pieces) = .ok (placed offset loc pieces) := by
  induction pieces generalizing state offset loc with
  | nil => rfl
  | cons piece rest ih =>
    cases piece with
    | word kind codes =>
      obtain ⟨⟨first, more, rfl, read⟩, -, -, joined⟩ := joined
      have scanned := scanFrom_token read offset loc
      have tail := ih joined (offset + (first :: more).length)
        (loc.advanceBy (first :: more))
      rw [chars] at tail
      rw [tail] at scanned
      exact scanned
    | gap more =>
      obtain ⟨noGap, joined⟩ := joined
      have read := at?_gap more (takeWhile_blank_chars joined noGap)
      have blanks : List.replicate more ' ' =
          (List.replicate more (CodePoint.ofChar ' ')).map CodePoint.toChar := by simp
      rw [blanks] at read
      have length : (List.replicate more (CodePoint.ofChar ' ')).length = more := by simp
      have scanned := @scanFrom_blank (CodePoint.ofChar ' ')
        (List.replicate more (CodePoint.ofChar ' ')) (text rest) (by rw [length]; exact read)
        offset loc
      exact scanned.trans (ih joined _ _)
    | lineEnd ends =>
      obtain ⟨-, -, -, joined⟩ := joined
      have scanned := @scanFrom_token (CodePoint.ofChar '\n') [] (text rest) .newline rfl offset loc
      have tail := ih joined (offset + 1)
        (loc.advanceBy [CodePoint.ofChar '\n'])
      rw [chars] at tail
      exact scanned.trans (by rw [length_singleton, tail]; rfl)

theorem continuesChain_placed (pieces : List Piece) (offset : Nat) (loc : Loc)
    (plain : ∀ kind codes, Piece.word kind codes ∈ pieces → isPlain kind = true) :
    continuesChain (placed offset loc pieces) = startsWithDot pieces := by
  induction pieces generalizing offset loc with
  | nil => rfl
  | cons piece rest ih =>
    have tail := fun offset loc => ih offset loc
      fun kind codes member => plain kind codes (mem_cons_of_mem _ member)
    cases piece with
    | word kind codes =>
      have noLine : kind ≠ .newline := by
        rintro rfl
        exact absurd (plain .newline codes (by simp)) (by decide)
      simp [placed, continuesChain, startsWithDot, noLine]
    | gap more => exact tail _ _
    | lineEnd ends => simpa [placed, continuesChain, startsWithDot] using tail _ _

theorem isPlain_of_joined (joined : Joined state pieces) (kind : TokenKind) (codes : List CodePoint)
    (member : Piece.word kind codes ∈ pieces) : isPlain kind = true := by
  induction pieces generalizing state with
  | nil => simp at member
  | cons piece rest ih =>
    rcases mem_cons.1 member with rfl | inRest
    · exact joined.2.1
    · cases piece with
      | word => exact ih joined.2.2.2 inRest
      | gap => exact ih joined.2 inRest
      | lineEnd => exact ih joined.2.2.2 inRest

theorem start_of_placed_eq_cons {offset : Nat} {loc : Loc} {token : Token} {others : List Token}
    (equal : placed offset loc pieces = token :: others) : offset ≤ token.start := by
  induction pieces generalizing offset loc with
  | nil => simp [placed] at equal
  | cons piece rest ih =>
    cases piece with
    | gap more =>
      have := ih equal
      omega
    | word kind codes => rw [← (List.cons.inj equal).1]
    | lineEnd ends => rw [← (List.cons.inj equal).1]

/-- A name that its followers leave alone is not marked. -/
theorem headsCommand_placed (before : Option TokenKind) (token : Token)
    (leaves : leavesName pieces = true) (loc : Loc) :
    headsCommand before token (placed token.stop loc pieces) = false := by
  cases pieces with
  | nil => rfl
  | cons piece rest =>
    cases piece with
    | word kind codes => simp [placed, headsCommand, Token.gapBefore]
    | lineEnd ends => simp [placed, headsCommand, Token.gapBefore]
    | gap more =>
      cases rest with
      | nil => simp [leavesName] at leaves
      | cons next rest =>
        cases next with
        | gap => simp [leavesName] at leaves
        | lineEnd => simp [leavesName] at leaves
        | word kind codes =>
          simp only [leavesName, Bool.and_eq_true, Bool.not_eq_true', bne_iff_ne, ne_eq,
            Bool.or_eq_true] at leaves
          obtain ⟨⟨noArgument, noParen⟩, hugs | gapped⟩ := leaves
          · simp [placed, headsCommand, noArgument, noParen, hugs]
          · -- an operator with a gap after it hugs nothing
            cases rest with
            | nil => simp [startsWithGap] at gapped
            | cons piece rest =>
              cases piece with
              | word => simp [startsWithGap] at gapped
              | lineEnd => simp [startsWithGap] at gapped
              | gap width =>
                simp only [placed, headsCommand, noArgument, Piece.codes, length_replicate,
                  Bool.false_or]
                split
                · simp [noParen]
                · next operand others equal =>
                  have apart := start_of_placed_eq_cons equal
                  simp [noParen, Token.gapBefore]
                  omega

theorem markCommands_placed (joined : Joined state pieces) (before : Option TokenKind)
    (offset : Nat) (loc : Loc) :
    markCommands before (placed offset loc pieces) = placed offset loc pieces := by
  induction pieces generalizing state before offset loc with
  | nil => rfl
  | cons piece rest ih =>
    cases piece with
    | gap more => exact ih joined.2 _ _ _
    | lineEnd ends => simp [placed, markCommands, ih joined.2.2.2]
    | word kind codes =>
      obtain ⟨-, -, leaves, joined⟩ := joined
      have unmarked : (kind == .name && headsCommand before
          ⟨kind, .ofList codes, loc, offset, offset + codes.length⟩
          (placed (offset + codes.length) (loc.advanceBy codes) rest)) = false := by
        by_cases named : kind = .name
        · rw [headsCommand_placed before ⟨kind, .ofList codes, loc, offset, offset + codes.length⟩
            (leaves named), Bool.and_false]
        · simp [named]
      simp only [placed, Piece.codes, markCommands, unmarked, Bool.false_eq_true, if_false,
        ih joined]

/-- Layout keeps the words and turns the marked line ends into terminators. -/
theorem insertTerminators_placed (joined : Joined state pieces) (offset : Nat) (loc : Loc) :
    (insertTerminators state (placed offset loc pieces)).map Token.placeless = tokens pieces := by
  induction pieces generalizing state offset loc with
  | nil => rfl
  | cons piece rest ih =>
    cases piece with
    | gap more => exact ih joined.2 _ _
    | word kind codes =>
      obtain ⟨-, plain, -, joined⟩ := joined
      have noLine : kind ≠ .newline := by
        rintro rfl
        exact absurd plain (by decide)
      have noSemicolon : kind ≠ .semicolon := by
        rintro rfl
        exact absurd plain (by decide)
      simp [placed, insertTerminators, noLine, noSemicolon, ih joined,
        Token.placeless, Piece.codes]
    | lineEnd ends =>
      obtain ⟨count, rfl, noDot, joined⟩ := joined
      have noChain := continuesChain_placed rest (offset + 1)
        (loc.advanceBy [CodePoint.ofChar '\n']) (isPlain_of_joined joined)
      rw [noDot] at noChain
      have tail := ih joined (offset + 1)
        (loc.advanceBy [CodePoint.ofChar '\n'])
      cases complete : state.complete with
      | true =>
        simp [placed, insertTerminators, Piece.codes, count, complete, noChain, tail,
          Token.placeless]
        rfl
      | false =>
        have same : state.afterTerminator = state := by
          cases state
          simp_all [LayoutState.afterTerminator]
        rw [same] at tail
        simp [placed, insertTerminators, Piece.codes, complete, tail]

theorem layOut_scan (joined : Joined LayoutState.initial pieces) :
    ∃ scanned, scan (.ofList (text pieces)) = .ok scanned ∧
      (layOut scanned).map Token.placeless = tokens pieces := by
  refine ⟨placed 0 Loc.start pieces, scanFrom_text joined 0 Loc.start, ?_⟩
  rw [layOut, markCommands_placed joined, insertTerminators_placed joined]

end Piece

end Hoist
