import Mathlib
import Hoist.Syntax.Token.Layout

/-!
What layout does to the tokens of a text.  Each token is laid out by itself: what it gives is
decided by the tokens around it and by what has been emitted before it.  Tokens that end no line are
kept, in order and in place, and blank lines give nothing.
-/

namespace Hoist

open List

/-- The delimiters that some tokens leave open, the innermost first.  What closes nothing is passed
over, and a delimiter may be closed by one of another kind. -/
def leftOpen (tokens : List Token) : List TokenKind :=
  tokens.foldl (fun delimiters token =>
    if token.kind.opens then token.kind :: delimiters
    else if token.kind.closes then delimiters.tail
    else delimiters) []

/-- A line end matters: the last token that was emitted completes a phrase, the innermost open
delimiter, if any, is a brace, and the first token that follows on a later line is no dot. -/
def EndsStatement (emitted rest : List Token) : Prop :=
  (∃ last ∈ emitted.getLast?, last.kind.endsPhrase = true) ∧
    (∀ innermost ∈ (leftOpen emitted).head?, innermost = .leftBrace) ∧
    ∀ next ∈ (rest.dropWhile (·.kind == .newline)).head?, next.kind ≠ .dot

instance (emitted rest : List Token) : Decidable (EndsStatement emitted rest) := by
  unfold EndsStatement
  infer_instance

namespace Token

def asTerminator (token : Token) : Token := { token with kind := .terminator }

def marked (token : Token) (before rest : List Token) : Token :=
  if token.kind = .name ∧ headsCommand (before.getLast?.map kind) token rest = true then
    { token with kind := .command }
  else token

/-- What a token gives, from the tokens before it, what they gave, and the tokens after it. -/
def gives (token : Token) (before emitted rest : List Token) : List Token :=
  match token.kind with
  | .semicolon => [token.asTerminator]
  | .newline => if EndsStatement emitted rest then [token.asTerminator] else []
  | _ => [token.marked before rest]

end Token

namespace LayoutState

/-- What is known after some tokens have been emitted. -/
def ofEmitted (emitted : List Token) : LayoutState :=
  ⟨leftOpen emitted, emitted.getLast?.any (·.kind.endsPhrase)⟩

theorem ofEmitted_append (emitted : List Token) (token : Token) :
    ofEmitted (emitted ++ [token]) = (ofEmitted emitted).after token.kind := by
  simp [ofEmitted, leftOpen, after]

theorem ofEmitted_terminator (emitted : List Token) (token : Token) :
    ofEmitted (emitted ++ [token.asTerminator]) = (ofEmitted emitted).afterTerminator := by
  rw [ofEmitted_append]
  rfl

end LayoutState

section Chains

theorem continuesChain_iff (tokens : List Token) : continuesChain tokens = true ↔
    ∃ next ∈ (tokens.dropWhile (·.kind == .newline)).head?, next.kind = .dot := by
  induction tokens with
  | nil => simp [continuesChain]
  | cons token rest ih =>
    rw [continuesChain, dropWhile_cons]
    split
    · exact ih
    · simp

/-- The marks do not matter to whether a chain goes on. -/
theorem continuesChain_markCommands (before : Option TokenKind) (tokens : List Token) :
    continuesChain (markCommands before tokens) = continuesChain tokens := by
  induction tokens generalizing before with
  | nil => rfl
  | cons token rest ih =>
    simp only [markCommands, continuesChain, ih]
    split
    · next isCommand =>
      have isName : token.kind = .name := beq_iff_eq.1 (Bool.and_eq_true_iff.1 isCommand).1
      simp [isName]
    · rfl

theorem continuesChain_blank {blank : List Token} (isBlank : ∀ token ∈ blank, token.kind = .newline)
    (rest : List Token) : continuesChain (blank ++ rest) = continuesChain rest := by
  induction blank with
  | nil => rfl
  | cons first others ih =>
    obtain ⟨isLine, others⟩ := forall_mem_cons.1 isBlank
    rw [cons_append, continuesChain, if_pos (beq_iff_eq.2 isLine), ih others]

theorem endsStatement_iff (emitted rest : List Token) : EndsStatement emitted rest ↔
    ((LayoutState.ofEmitted emitted).linesCount && (LayoutState.ofEmitted emitted).complete &&
      !continuesChain rest) = true := by
  have chain : (!continuesChain rest) = true ↔
      ∀ next ∈ (rest.dropWhile (·.kind == .newline)).head?, next.kind ≠ .dot := by
    rw [Bool.not_eq_true', ← Bool.not_eq_true, continuesChain_iff]
    simp
  have counts : (LayoutState.ofEmitted emitted).linesCount = true ↔
      ∀ innermost ∈ (leftOpen emitted).head?, innermost = .leftBrace := by
    rw [LayoutState.ofEmitted, LayoutState.linesCount]
    cases leftOpen emitted <;> simp
  have complete : (LayoutState.ofEmitted emitted).complete = true ↔
      ∃ last ∈ emitted.getLast?, last.kind.endsPhrase = true := Option.any_eq_true _ _
  rw [Bool.and_eq_true, Bool.and_eq_true, chain, counts, complete, EndsStatement, and_assoc]
  exact and_left_comm

end Chains

/-- What each of some tokens gives, from the tokens before them and what those gave. -/
def layoutPieces (before emitted : List Token) : List Token → List (List Token)
  | [] => []
  | token :: rest =>
    token.gives before emitted rest ::
      layoutPieces (before ++ [token]) (emitted ++ token.gives before emitted rest) rest

theorem markCommands_cons (before : List Token) (token : Token) (rest : List Token) :
    markCommands (before.getLast?.map Token.kind) (token :: rest) =
      token.marked before rest ::
        markCommands ((before ++ [token]).getLast?.map Token.kind) rest := by
  simp [markCommands, Token.marked]

theorem Token.marked_of_ne {token : Token} (other : token.kind ≠ .name) (before rest : List Token) :
    token.marked before rest = token := if_neg fun isCommand => other isCommand.1

section Gives

variable {token : Token} (before emitted rest : List Token)

theorem Token.gives_semicolon (isSemicolon : token.kind = .semicolon) :
    token.gives before emitted rest = [token.asTerminator] := by
  rw [gives, isSemicolon]

theorem Token.gives_newline (isLine : token.kind = .newline) : token.gives before emitted rest =
    if EndsStatement emitted rest then [token.asTerminator] else [] := by
  rw [gives, isLine]

theorem Token.gives_other (noSemicolon : token.kind ≠ .semicolon) (noLine : token.kind ≠ .newline) :
    token.gives before emitted rest = [token.marked before rest] := by
  unfold gives
  split
  · exact absurd ‹_› noSemicolon
  · exact absurd ‹_› noLine
  · rfl

end Gives

theorem insertTerminators_markCommands (before emitted tokens : List Token) :
    insertTerminators (.ofEmitted emitted) (markCommands (before.getLast?.map Token.kind) tokens) =
      (layoutPieces before emitted tokens).flatten := by
  induction tokens generalizing before emitted with
  | nil => rfl
  | cons token rest ih =>
    rw [layoutPieces, flatten_cons, ← ih, markCommands_cons]
    by_cases isLine : token.kind = .newline
    · rw [Token.marked_of_ne (by simp [isLine]), insertTerminators, if_pos (beq_iff_eq.2 isLine),
        continuesChain_markCommands, Token.gives_newline _ _ _ isLine]
      by_cases ends : EndsStatement emitted rest
      · rw [if_pos ends, if_pos ((endsStatement_iff emitted rest).1 ends),
          LayoutState.ofEmitted_terminator]
        rfl
      · rw [if_neg ends, if_neg (mt (endsStatement_iff emitted rest).2 ends), append_nil,
          nil_append]
    by_cases isSemicolon : token.kind = .semicolon
    · rw [Token.marked_of_ne (by simp [isSemicolon]), insertTerminators,
        if_neg (mt beq_iff_eq.1 isLine), if_pos (beq_iff_eq.2 isSemicolon),
        Token.gives_semicolon _ _ _ isSemicolon, LayoutState.ofEmitted_terminator]
      rfl
    have noEnd : (token.marked before rest).kind ≠ .newline ∧
        (token.marked before rest).kind ≠ .semicolon := by
      unfold Token.marked
      split
      · exact ⟨nofun, nofun⟩
      · exact ⟨isLine, isSemicolon⟩
    rw [insertTerminators, if_neg (mt beq_iff_eq.1 noEnd.1), if_neg (mt beq_iff_eq.1 noEnd.2),
      Token.gives_other _ _ _ isSemicolon isLine, singleton_append, LayoutState.ofEmitted_append]

theorem layOut_eq_flatten (tokens : List Token) :
    layOut tokens = (layoutPieces [] [] tokens).flatten :=
  insertTerminators_markCommands [] [] tokens

@[simp] theorem length_layoutPieces (before emitted tokens : List Token) :
    (layoutPieces before emitted tokens).length = tokens.length := by
  induction tokens generalizing before emitted with
  | nil => rfl
  | cons token rest ih => rw [layoutPieces, length_cons, ih, length_cons]

theorem layoutPieces_get (before emitted left : List Token) (token : Token) (right : List Token) :
    (layoutPieces before emitted (left ++ token :: right))[left.length]? =
      some (token.gives (before ++ left)
        (emitted ++ ((layoutPieces before emitted (left ++ token :: right)).take
          left.length).flatten)
        right) := by
  induction left generalizing before emitted with
  | nil => simp [layoutPieces]
  | cons first rest ih =>
    simp only [cons_append, layoutPieces, length_cons, getElem?_cons_succ, ih, take_succ_cons,
      flatten_cons, append_assoc, nil_append]

/-- A token that layout keeps is the token that was read, or a name retyped as the head of a
command. -/
def Token.Kept (token original : Token) : Prop :=
  token = original ∨ original.kind = .name ∧ token = { original with kind := .command }

theorem Token.marked_kept (token : Token) (before rest : List Token) :
    (token.marked before rest).Kept token := by
  unfold Token.marked
  split
  · next isCommand => exact .inr ⟨isCommand.1, rfl⟩
  · exact .inl rfl

theorem layoutPieces_kept (before emitted tokens : List Token) :
    Forall₂ Token.Kept ((layoutPieces before emitted tokens).flatten.filter (·.kind != .terminator))
      (tokens.filter fun token => !token.kind.endsLine && token.kind != .terminator) := by
  induction tokens generalizing before emitted with
  | nil => exact .nil
  | cons token rest ih =>
    have others := ih (before ++ [token]) (emitted ++ token.gives before emitted rest)
    rw [layoutPieces, flatten_cons, filter_append]
    by_cases isLine : token.kind = .newline
    · rw [Token.gives_newline _ _ _ isLine] at others ⊢
      split at others <;> next ends =>
        simpa [isLine, TokenKind.endsLine, Token.asTerminator, ends] using others
    by_cases isSemicolon : token.kind = .semicolon
    · rw [Token.gives_semicolon _ _ _ isSemicolon] at others ⊢
      simpa [isSemicolon, TokenKind.endsLine, Token.asTerminator] using others
    have kept := token.marked_kept before rest
    have inside : token.kind.endsLine = false := by
      cases kind : token.kind <;> first | rfl | contradiction
    have same : (token.marked before rest).kind = .terminator ↔ token.kind = .terminator := by
      rcases kept with same | ⟨isName, same⟩
      · rw [same]
      · rw [same, isName]
        exact ⟨nofun, nofun⟩
    rw [Token.gives_other _ _ _ isSemicolon isLine] at others ⊢
    by_cases isTerminator : token.kind = .terminator
    · simpa [isTerminator, same, inside] using others
    · simpa [isTerminator, same, inside] using And.intro kept others

section Blank

variable {line : Token} {blank : List Token}

theorem markCommands_blank (isBlank : ∀ token ∈ blank, token.kind = .newline) (rest : List Token) :
    markCommands (some .newline) (blank ++ rest) = blank ++ markCommands (some .newline) rest := by
  induction blank with
  | nil => rfl
  | cons first others ih =>
    obtain ⟨isLine, others⟩ := forall_mem_cons.1 isBlank
    simp [markCommands, isLine, ih others]

/-- Line ends give nothing where none of them matters. -/
theorem insertTerminators_blank (isBlank : ∀ token ∈ blank, token.kind = .newline)
    {state : LayoutState} {rest : List Token}
    (quiet : (state.linesCount && state.complete && !continuesChain rest) = false) :
    insertTerminators state (blank ++ rest) = insertTerminators state rest := by
  induction blank with
  | nil => rfl
  | cons first others ih =>
    obtain ⟨isLine, others⟩ := forall_mem_cons.1 isBlank
    rw [cons_append, insertTerminators, if_pos (beq_iff_eq.2 isLine), continuesChain_blank others,
      quiet, if_neg Bool.false_ne_true, ih others]

theorem insertTerminators_lines (isLine : line.kind = .newline)
    (isBlank : ∀ token ∈ blank, token.kind = .newline) (state : LayoutState) (rest : List Token) :
    insertTerminators state (line :: (blank ++ rest)) = insertTerminators state (line :: rest) := by
  rw [insertTerminators, insertTerminators, continuesChain_blank isBlank,
    if_pos (beq_iff_eq.2 isLine), if_pos (beq_iff_eq.2 isLine)]
  split
  · exact congrArg _ (insertTerminators_blank isBlank (by simp [LayoutState.afterTerminator]))
  · next quiet => exact insertTerminators_blank isBlank (Bool.not_eq_true _ ▸ quiet)

theorem headsCommand_lines (isLine : line.kind = .newline) (before : Option TokenKind)
    (token : Token) (left rest others : List Token) :
    headsCommand before token (left ++ line :: rest) =
      headsCommand before token (left ++ line :: others) := by
  rcases left with _ | ⟨first, _ | ⟨second, left⟩⟩
  · simp [headsCommand, isLine, TokenKind.startsArgument, TokenKind.hugsArgument]
  · rfl
  · rfl

theorem continuesChain_lines (isBlank : ∀ token ∈ blank, token.kind = .newline)
    (left rest : List Token) :
    continuesChain (left ++ line :: (blank ++ rest)) = continuesChain (left ++ line :: rest) := by
  induction left with
  | nil => rw [nil_append, nil_append, continuesChain, continuesChain, continuesChain_blank isBlank]
  | cons token left ih => rw [cons_append, cons_append, continuesChain, continuesChain, ih]

/-- Further line ends behind a line end change nothing. -/
theorem layout_lines (isLine : line.kind = .newline)
    (isBlank : ∀ token ∈ blank, token.kind = .newline) (before : Option TokenKind)
    (state : LayoutState) (left rest : List Token) :
    insertTerminators state (markCommands before (left ++ line :: (blank ++ rest))) =
      insertTerminators state (markCommands before (left ++ line :: rest)) := by
  induction left generalizing before state with
  | nil =>
    have unmarked : (line.kind == .name && headsCommand before line (blank ++ rest)) = false ∧
        (line.kind == .name && headsCommand before line rest) = false := by simp [isLine]
    rw [nil_append, nil_append, markCommands, markCommands, unmarked.1, unmarked.2,
      if_neg Bool.false_ne_true, isLine, markCommands_blank isBlank]
    exact insertTerminators_lines isLine isBlank state _
  | cons token left ih =>
    simp only [cons_append, markCommands, insertTerminators, continuesChain_markCommands, ih,
      continuesChain_lines isBlank,
      headsCommand_lines isLine before token left (blank ++ rest) rest]

end Blank

/-- Layout keeps the tokens and ignores blank lines.  Every token gives a piece of its own: a
semicolon a terminator, a line end a terminator exactly if it ends a statement, and any other token
itself, at its place, retyped if it heads a command.  So what is left without terminators are the
tokens that end no line, and line ends behind a line end give nothing. -/
theorem layOut_by_tokens (tokens : List Token) :
    (∃ pieces : List (List Token), layOut tokens = pieces.flatten ∧ pieces.length = tokens.length ∧
      ∀ before token rest, tokens = before ++ token :: rest → ∃ emitted piece,
        emitted = (pieces.take before.length).flatten ∧ pieces[before.length]? = some piece ∧
        (token.kind = .semicolon → piece = [token.asTerminator]) ∧
        (token.kind = .newline → EndsStatement emitted rest → piece = [token.asTerminator]) ∧
        (token.kind = .newline → ¬ EndsStatement emitted rest → piece = []) ∧
        (token.kind ≠ .semicolon → token.kind ≠ .newline → piece = [token.marked before rest])) ∧
    Forall₂ Token.Kept ((layOut tokens).filter (·.kind != .terminator))
      (tokens.filter fun token => !token.kind.endsLine && token.kind != .terminator) ∧
    ∀ before line rest blank, tokens = before ++ line :: rest → line.kind = .newline →
      (∀ token ∈ blank, token.kind = .newline) →
      layOut (before ++ line :: (blank ++ rest)) = layOut tokens := by
  refine ⟨⟨layoutPieces [] [] tokens, layOut_eq_flatten tokens, length_layoutPieces .., ?_⟩, ?_, ?_⟩
  · rintro before token rest rfl
    have piece := layoutPieces_get [] [] before token rest
    rw [nil_append, nil_append] at piece
    refine ⟨_, _, rfl, piece, Token.gives_semicolon _ _ _, fun isLine ends => ?_,
      fun isLine goesOn => ?_, Token.gives_other _ _ _⟩
    · rw [Token.gives_newline _ _ _ isLine, if_pos ends]
    · rw [Token.gives_newline _ _ _ isLine, if_neg goesOn]
  · rw [layOut_eq_flatten]
    exact layoutPieces_kept [] [] tokens
  · rintro before line rest blank rfl isLine isBlank
    exact layout_lines isLine isBlank none .initial before rest

end Hoist
