import Hoist.Proofs.Syntax.Parsed
import Hoist.Proofs.Syntax.PrintedRows
import Hoist.Proofs.Syntax.Reread

/-!
Printing and reading again.  A well-formed program is printed as a row of pieces, the row is scanned
as its own tokens, and the tokens are read as the program.  What is read differs in its places,
which the row does not depend on, so it is printed as the same text.
-/

namespace Hoist

open Lexeme

/-- Programs that differ in their places, in the marks of calls that have arguments and in the marks
of conditionals alone. -/
def SameProgram (program other : PlainProgram) : Prop :=
  reformStmts .canonical program = reformStmts .canonical other

theorem sameTokens_placeless {floats : Float → Prop} {tokens : List Token}
    (spelled : ∀ token ∈ tokens, wellSpelled token.kind token.text.chars = true)
    (allowed : ∀ token ∈ tokens, token.kind = .float → floats (floatValue token)) :
    SameTokens floats tokens (tokens.map Token.placeless) := by
  refine List.forall₂_map_right_iff.2 (List.forall₂_same.2 fun token member => ?_)
  exact ⟨rfl, spelled token member, allowed token member⟩

theorem parseTokens_wellFormed {tokens : List Token} {trees : PlainProgram}
    (spelled : ∀ token ∈ tokens, wellSpelled token.kind token.text.chars = true)
    (read : parseTokens tokens = .ok trees) :
    stmtsWellFormed (.plain fun _ => True) false trees := by
  have same := parseTokens_alike (@sameTokens_placeless (fun _ => True) _ spelled
    fun _ _ _ => trivial)
  rw [read] at same
  revert same
  generalize parseTokens _ = result
  rintro ⟨alike⟩
  exact alike.wellFormed

/-- Pieces that stand side by side are read as their tokens are, but for the places. -/
theorem parse_joined {floats : Float → Prop} {pieces : List Piece} {trees : PlainProgram}
    (joined : Piece.Joined LayoutState.initial pieces)
    (read : parseTokens (Piece.tokens pieces) = .ok trees) (allowed : ∀ token ∈ Piece.tokens pieces,
      token.kind = .float → floats (floatValue token)) :
    ∃ again, parse (.ofList (Piece.text pieces)) = .ok again ∧
      stmtsWellFormed (.plain floats) false again ∧
      stmtsWellFormed (.plain fun _ => True) false trees ∧
      reformStmts .unplaced again = reformStmts .unplaced trees := by
  obtain ⟨scanned, isScanned, laidOut⟩ := Piece.layOut_scan joined
  have spelled := fun token member => (@layOut_valid (fun _ => True) scanned
    (scan_wellSpelled isScanned) (fun _ _ _ => trivial) token member).1
  have treesWellFormed := parseTokens_wellFormed
    (by rw [← laidOut]; exact List.forall_mem_map.2 spelled) read
  rw [← laidOut] at allowed
  have alike := parseTokens_alike (sameTokens_placeless spelled (List.forall_mem_map.1 allowed))
  rw [laidOut, read] at alike
  have parsed : parse (.ofList (Piece.text pieces)) = parseTokens (layOut scanned) := by
    unfold parse
    rw [isScanned]
  rw [parsed]
  revert alike
  generalize parseTokens (layOut scanned) = result
  rintro ⟨alike⟩
  exact ⟨_, rfl, alike.wellFormed, treesWellFormed, alike.unplaced⟩

/-- What the text of a program is read as. -/
structure Reparsed (floats : Float → Prop) (program again : PlainProgram) : Prop where
  wellFormed : stmtsWellFormed (.plain floats) false again
  rereadWellFormed : stmtsWellFormed (.plain fun _ => True) false (reformStmts .reread program)
  unplaced : reformStmts .unplaced again = reformStmts .unplaced (reformStmts .reread program)

theorem parse_pieces {floats : Float → Prop} {pieces : List Piece} {program : PlainProgram}
    (joined : Piece.Joined LayoutState.initial pieces)
    (valid : stmtsWellFormed (.plain IsFloatWord) false program)
    (same : Piece.tokens pieces = Piece.tokens (Row.program program))
    (allowed : ∀ token ∈ Piece.tokens pieces,
      token.kind = .float → floats (floatValue token)) :
    ∃ again, parse (.ofList (Piece.text pieces)) = .ok again ∧
      Reparsed floats program again := by
  obtain ⟨again, parsed, wellFormed, rereadWellFormed, unplaced⟩ :=
    parse_joined joined (same ▸ parseTokens_program valid) allowed
  exact ⟨again, parsed, wellFormed, rereadWellFormed, unplaced⟩

theorem parse_render {program : PlainProgram}
    (valid : stmtsWellFormed (.plain IsFloatWord) false program) :
    ∃ again, parse (Row.render (Row.program program)) = .ok again ∧
      Reparsed (fun _ => True) program again :=
  parse_pieces (Row.joined_program valid) valid rfl fun _ _ _ => trivial

/-- The text of a statement is read as that statement, also without a line end. -/
theorem parse_renderStmt {tree : PlainStmt} (valid : tree.WellFormed (.plain IsFloatWord) false) :
    ∃ again, parse (Row.render (Row.stmt 0 tree)) = .ok again ∧
      Reparsed (fun _ => True) [tree] again := by
  have joined : Piece.Joined LayoutState.initial (Row.stmt 0 tree ++ []) :=
    (Row.joins_stmt 0 tree valid).joined rfl rfl trivial
  rw [List.append_nil] at joined
  have read := (readsBody_line (reads_stmt 0 tree valid)).parseTokens
  obtain ⟨again, parsed, wellFormed, rereadWellFormed, unplaced⟩ :=
    @parse_joined (fun _ => True) _ _ joined read fun _ _ _ => trivial
  exact ⟨again, parsed, wellFormed, rereadWellFormed, unplaced⟩

section Reparsed

variable {readsFloat : Float → Prop} {program again : PlainProgram}
  (reparsed : Reparsed readsFloat program again)
include reparsed

theorem Reparsed.print_eq {floats : Float → Prop}
    (valid : stmtsWellFormed (.plain floats) false program) : print again = print program := by
  rw [print_eq_render reparsed.wellFormed, print_eq_render valid]
  congr 2
  calc Row.program again
      = Row.program (reformStmts .unplaced again) :=
        (Row.program_reform Reform.keepsRows_unplaced reparsed.wellFormed).symm
    _ = Row.program (reformStmts .unplaced (reformStmts .reread program)) := by
        rw [reparsed.unplaced]
    _ = Row.program (reformStmts .reread program) :=
        Row.program_reform Reform.keepsRows_unplaced reparsed.rereadWellFormed
    _ = Row.program program := Row.program_reform Reform.keepsRows_reread valid

theorem Reparsed.sameProgram {floats : Float → Prop}
    (finite : ∀ x, floats x → Decimal.floatText Decimal.literalStyle x ≠ "inf")
    (valid : stmtsWellFormed (.plain floats) false program) : SameProgram again program := by
  unfold SameProgram
  calc reformStmts .canonical again
      = reformStmts .canonical (reformStmts .unplaced again) :=
        (reformStmts_reformStmts Reform.composes_unplaced_canonical _ _ reparsed.wellFormed).symm
    _ = reformStmts .canonical (reformStmts .unplaced (reformStmts .reread program)) := by
        rw [reparsed.unplaced]
    _ = reformStmts .canonical (reformStmts .reread program) :=
        reformStmts_reformStmts Reform.composes_unplaced_canonical _ _ reparsed.rereadWellFormed
    _ = reformStmts .canonical program :=
        reformStmts_reformStmts (Reform.composes_reread_canonical finite) _ _ valid

end Reparsed

end Hoist
