import Mathlib
import Hoist.Syntax.Token.Scan

/-!
The spellings of words.  A name, symbol, global or constant is scanned as one token exactly when it
has the form of its kind, provided that what follows cannot be a part of it.
-/

namespace Hoist

namespace Lexeme

/-- What may follow the word characters of a name or symbol. -/
def isMark : List Char → Bool
  | [] | ['?'] | ['!'] => true
  | _ => false

/-- A first character of some class, then word characters, then an ending. -/
def isSpelled (starts : Char → Bool) (ending : List Char → Bool) (spelling : String) : Bool :=
  match spelling.toList with
  | [] => false
  | first :: rest => starts first && ending (rest.dropWhile isWordChar)

/-- Spellings of variables and methods. -/
def isName (spelling : String) : Bool :=
  isSpelled startsName isMark spelling && (keyword? spelling).isNone

/-- Spellings of symbols, without their colon. -/
def isSymbol (spelling : String) : Bool := isSpelled startsWord isMark spelling

/-- Spellings of globals, without their dollar. -/
def isGlobal (spelling : String) : Bool := isSpelled startsWord List.isEmpty spelling

def isConstant (spelling : String) : Bool := isSpelled isUpper List.isEmpty spelling

/-- Characters that end a word whatever comes after them. -/
def wordEnds : List Char := [' ', '\n', '(', ')', '[', ']', ',', '|']

/-- Whether a text can follow a word or a number without becoming a part of it. -/
def endsWord : List Char → Bool
  | [] | ['.'] => true
  | '.' :: next :: _ => !Text.isDigit next
  | c :: _ => wordEnds.contains c

variable {after body mark rest : List Char} {c first : Char} {spelling : String} {kind : TokenKind}
  {size : Nat}

theorem endsWord_cases (ends : endsWord after = true) :
    after = [] ∨ (∃ rest, after = '.' :: rest ∧ digitsLength rest = 0) ∨
      ∃ c rest, after = c :: rest ∧ c ∈ wordEnds := by
  unfold endsWord at ends
  split at ends
  · exact .inl rfl
  · exact .inr (.inl ⟨[], rfl, rfl⟩)
  · next next rest =>
    refine .inr (.inl ⟨next :: rest, rfl, ?_⟩)
    simp only [Bool.not_eq_true'] at ends
    simp [digitsLength, ends]
  · next c rest _ _ =>
    exact .inr (.inr ⟨c, rest, rfl, by simpa using ends⟩)

theorem wordEnds_separate (member : c ∈ wordEnds) :
    isWordChar c = false ∧ Text.isDigit c = false ∧ c ≠ '?' ∧ c ≠ '!' ∧ c ≠ '.' ∧ c ≠ '_' ∧
      c ≠ 'e' ∧ c ≠ 'E' := by
  simp only [wordEnds, List.mem_cons, List.not_mem_nil, or_false] at member
  rcases member with rfl | rfl | rfl | rfl | rfl | rfl | rfl | rfl <;> decide

theorem endsWord_takeWhile (ends : endsWord after = true) : after.takeWhile isWordChar = [] := by
  rcases endsWord_cases ends with rfl | ⟨rest, rfl, -⟩ | ⟨c, rest, rfl, member⟩
  · rfl
  · rfl
  · simp [(wordEnds_separate member).1]

theorem endsWord_not_marked (ends : endsWord after = true)
    (rest : List Char) : after ≠ '?' :: rest ∧ after ≠ '!' :: rest := by
  rcases endsWord_cases ends with rfl | ⟨rest, rfl, -⟩ | ⟨c, rest, rfl, member⟩
  · simp
  · simp
  · have separate := wordEnds_separate member
    simp [separate.2.2.1, separate.2.2.2.1]

theorem wordLength_append (inside : ∀ c ∈ body, isWordChar c = true)
    (outside : after.takeWhile isWordChar = []) : wordLength (body ++ after) = body.length := by
  rw [wordLength, List.takeWhile_append_of_pos inside, outside, List.append_nil]

theorem isMark_cases (valid : isMark mark = true) : mark = [] ∨ mark = ['?'] ∨ mark = ['!'] := by
  unfold isMark at valid
  split at valid <;> simp_all

/-- The mark of a word is read off what follows the word characters. -/
theorem markLength_append (valid : isMark mark = true)
    (ends : endsWord after = true) : markLength (mark ++ after) = mark.length := by
  have bare : markLength after = 0 := by
    unfold markLength
    split
    · rfl
    · rfl
    · next rest _ => exact absurd rfl (endsWord_not_marked ends rest).1
    · next rest _ => exact absurd rfl (endsWord_not_marked ends rest).2
    · rfl
  have unequal : ∀ rest, after ≠ '=' :: rest := by
    rintro rest rfl
    simp [endsWord, wordEnds] at ends
  rcases isMark_cases valid with rfl | rfl | rfl
  · exact bare
  · exact markLength.eq_3 after unequal
  · exact markLength.eq_4 after unequal

theorem mark_outside (valid : isMark mark = true)
    (ends : endsWord after = true) : (mark ++ after).takeWhile isWordChar = [] := by
  rcases isMark_cases valid with rfl | rfl | rfl
  · exact endsWord_takeWhile ends
  · rfl
  · rfl

theorem isLower_iff : isLower c = true ↔ 97 ≤ c.toNat ∧ c.toNat ≤ 122 := by
  simp only [isLower, Bool.and_eq_true, decide_eq_true_eq]
  exact Iff.rfl

theorem isUpper_iff : isUpper c = true ↔ 65 ≤ c.toNat ∧ c.toNat ≤ 90 := by
  simp only [isUpper, Bool.and_eq_true, decide_eq_true_eq]
  exact Iff.rfl

theorem isDigit_eq_false_of_letter (above : 58 ≤ c.toNat) (below : c.toNat < 128) :
    Text.isDigit c = false := by
  have : ¬ c.toNat ≤ 57 := by omega
  simp [Text.isDigit, Text.digitValue?, below, this]

theorem startsName_range (starts : startsName c = true) :
    c.toNat = 95 ∨ 97 ≤ c.toNat ∧ c.toNat ≤ 122 := by
  simp only [startsName, Bool.or_eq_true, isLower_iff, beq_iff_eq] at starts
  rcases starts with lower | rfl
  · exact .inr lower
  · exact .inl rfl

theorem at?_word (starts : startsName first = true) (inside : ∀ c ∈ body, isWordChar c = true)
    (valid : isMark mark = true) (ends : endsWord after = true) :
    at? first (body ++ mark ++ after) =
      some (.token ((keyword? (String.ofList (first :: (body ++ mark)))).getD .name),
        (body ++ mark).length) := by
  have range := startsName_range starts
  have noDigit : Text.isDigit first = false :=
    isDigit_eq_false_of_letter (by omega) (by omega)
  have bodyLength : wordLength (body ++ (mark ++ after)) = body.length :=
    wordLength_append inside (mark_outside valid ends)
  have whole : body.length + mark.length = (body ++ mark).length := by simp
  simp only [at?, noDigit, starts, word, List.append_assoc, bodyLength, List.drop_left,
    markLength_append valid ends, Bool.false_eq_true, if_false, if_true]
  rw [whole, ← List.append_assoc, List.take_left]

theorem at?_constant (starts : isUpper first = true)
    (inside : ∀ c ∈ body, isWordChar c = true) (ends : endsWord after = true) :
    at? first (body ++ after) = some (.token .constant, body.length) := by
  have range := isUpper_iff.1 starts
  have noDigit : Text.isDigit first = false :=
    isDigit_eq_false_of_letter (by omega) (by omega)
  have noName : startsName first = false := by
    rw [Bool.eq_false_iff]
    intro named
    have := startsName_range named
    omega
  simp only [at?, noDigit, noName, starts, Bool.false_eq_true, if_false, if_true,
    wordLength_append inside (endsWord_takeWhile ends)]

theorem at?_global (starts : startsWord first = true)
    (inside : ∀ c ∈ body, isWordChar c = true) (ends : endsWord after = true) :
    at? '$' (first :: body ++ after) = some (.token .global, (first :: body).length) := by
  change (if startsWord first then some (token .global, 1 + wordLength (body ++ after))
    else none) = _
  rw [if_pos starts, wordLength_append inside (endsWord_takeWhile ends), List.length_cons,
    Nat.add_comm]

theorem at?_symbol (starts : startsWord first = true) (inside : ∀ c ∈ body, isWordChar c = true)
    (valid : isMark mark = true) (ends : endsWord after = true) :
    at? ':' (first :: (body ++ mark) ++ after) =
      some (.token .symbol, (first :: (body ++ mark)).length) := by
  have bodyLength : wordLength (body ++ (mark ++ after)) = body.length :=
    wordLength_append inside (mark_outside valid ends)
  have step : at? ':' (first :: (body ++ (mark ++ after))) =
      some (token .symbol, 1 + body.length + symbolMarkLength (mark ++ after)) := by
    change (if startsWord first then _ else _) = _
    rw [if_pos starts]
    simp only [bodyLength, List.drop_left]
  have marked : symbolMarkLength (mark ++ after) = mark.length := by
    rcases isMark_cases valid with rfl | rfl | rfl
    · rw [List.nil_append]
      unfold symbolMarkLength
      split
      · next rest => exact absurd rfl (endsWord_not_marked ends rest).1
      · next rest => exact absurd rfl (endsWord_not_marked ends rest).2
      · rfl
    · rfl
    · rfl
  rw [List.cons_append, List.append_assoc, step, marked, List.length_cons, List.length_append]
  congr 2
  omega

theorem isSpelled_cases {starts : Char → Bool} {ending : List Char → Bool}
    (spelled : isSpelled starts ending spelling = true) :
    ∃ first body mark, spelling.toList = first :: (body ++ mark) ∧ starts first = true ∧
      (∀ c ∈ body, isWordChar c = true) ∧ ending mark = true := by
  unfold isSpelled at spelled
  split at spelled
  · contradiction
  · next first rest equal =>
    rw [Bool.and_eq_true] at spelled
    refine ⟨first, rest.takeWhile isWordChar, rest.dropWhile isWordChar, ?_, spelled.1, ?_,
      spelled.2⟩
    · rw [List.takeWhile_append_dropWhile, equal]
    · exact fun c member => List.mem_takeWhile_imp member

theorem isSpelled_ofList {starts : Char → Bool} {ending : List Char → Bool} {first : Char}
    {body mark : List Char} (starting : starts first = true)
    (inside : ∀ c ∈ body, isWordChar c = true) (outside : mark.dropWhile isWordChar = mark)
    (valid : ending mark = true) :
    isSpelled starts ending (String.ofList (first :: (body ++ mark))) = true := by
  simp [isSpelled, starting, List.dropWhile_append_of_pos inside, outside, valid]

/-- Whether code points are scanned as one token when a text follows them. -/
def Scans (kind : TokenKind) (codes : List CodePoint) (after : List Char) : Prop :=
  ∃ first more, codes = first :: more ∧
    at? first.toChar (more.map CodePoint.toChar ++ after) = some (.token kind, more.length)

theorem scans_of_toList {more : List Char} (split : spelling.toList = first :: more)
    (lexeme : at? first (more ++ after) = some (.token kind, more.length)) :
    Scans kind (Text.ofString spelling).toList after := by
  refine ⟨first, more.map CodePoint.ofChar, by simp [split], ?_⟩
  simpa [Function.comp_def] using lexeme

theorem scans_name (named : isName spelling = true) (ends : endsWord after = true) :
    Scans .name (Text.ofString spelling).toList after := by
  rw [isName, Bool.and_eq_true] at named
  obtain ⟨first, body, mark, split, starts, inside, valid⟩ := isSpelled_cases named.1
  have noKeyword : keyword? spelling = none := by simpa using named.2
  apply scans_of_toList split
  rw [at?_word starts inside valid ends, ← split, String.ofList_toList, noKeyword]
  rfl

theorem scans_keyword (spelled : isSpelled startsName isMark spelling = true)
    (word : keyword? spelling = some kind)
    (ends : endsWord after = true) :
    Scans kind (Text.ofString spelling).toList after := by
  obtain ⟨first, body, mark, split, starts, inside, valid⟩ := isSpelled_cases spelled
  apply scans_of_toList split
  rw [at?_word starts inside valid ends, ← split, String.ofList_toList, word]
  rfl

theorem scans_constant (valid : isConstant spelling = true) (ends : endsWord after = true) :
    Scans .constant (Text.ofString spelling).toList after := by
  obtain ⟨first, body, mark, split, starts, inside, empty⟩ := isSpelled_cases valid
  rw [List.isEmpty_iff] at empty
  subst empty
  rw [List.append_nil] at split
  exact scans_of_toList split (at?_constant starts inside ends)

theorem scans_global (valid : isGlobal spelling = true) (ends : endsWord after = true) :
    Scans .global (Text.ofString ("$" ++ spelling)).toList after := by
  obtain ⟨first, body, mark, split, starts, inside, empty⟩ := isSpelled_cases valid
  rw [List.isEmpty_iff] at empty
  subst empty
  rw [List.append_nil] at split
  have marked : ("$" ++ spelling).toList = '$' :: (first :: body) := by simp [split]
  exact scans_of_toList marked (at?_global starts inside ends)

theorem scans_symbol (valid : isSymbol spelling = true) (ends : endsWord after = true) :
    Scans .symbol (Text.ofString (":" ++ spelling)).toList after := by
  obtain ⟨first, body, mark, split, starts, inside, marked⟩ := isSpelled_cases valid
  have whole : (":" ++ spelling).toList = ':' :: (first :: (body ++ mark)) := by simp [split]
  exact scans_of_toList whole (at?_symbol starts inside marked ends)

/-- The operators that an assignment can be joined to, each with its equals sign. -/
def assignSpellings : List (List Char) :=
  [['|', '|', '='], ['&', '&', '='], ['+', '='], ['-', '='], ['*', '='], ['/', '=']]

/-- The form of the characters of a token, for the kinds whose characters are kept in trees. -/
def wellSpelled (kind : TokenKind) (chars : List Char) : Bool :=
  match kind with
  | .name | .command => isName (String.ofList chars)
  | .constant => isConstant (String.ofList chars)
  | .global => isGlobal (String.ofList (chars.drop 1))
  | .symbol => isSymbol (String.ofList (chars.drop 1))
  | .opAssign => assignSpellings.contains chars
  | _ => true

theorem take_wordLength (text : List Char) (more : Nat) : text.take (wordLength text + more) =
      text.takeWhile isWordChar ++ (text.dropWhile isWordChar).take more := by
  have split : text.takeWhile isWordChar ++ text.dropWhile isWordChar = text :=
    List.takeWhile_append_dropWhile
  calc text.take (wordLength text + more)
      = (text.takeWhile isWordChar ++ text.dropWhile isWordChar).take
          ((text.takeWhile isWordChar).length + more) := by rw [split]; rfl
    _ = _ := by rw [List.take_append, List.take_of_length_le (by omega)]; simp

theorem drop_wordLength (text : List Char) :
    text.drop (wordLength text) = text.dropWhile isWordChar := by
  have split : text.takeWhile isWordChar ++ text.dropWhile isWordChar = text :=
    List.takeWhile_append_dropWhile
  calc text.drop (wordLength text)
      = (text.takeWhile isWordChar ++ text.dropWhile isWordChar).drop
          (text.takeWhile isWordChar).length := by rw [split]; rfl
    _ = _ := List.drop_left

theorem isMark_take {text : List Char} {size : Nat}
    (length : size = markLength text ∨ size = symbolMarkLength text) :
    isMark (text.take size) = true ∧
      (text.take size).dropWhile isWordChar = text.take size := by
  have cases : size = 0 ∨ size = 1 ∧ ∃ rest, text = '?' :: rest ∨ text = '!' :: rest := by
    rcases length with rfl | rfl
    · unfold markLength
      split <;> simp
    · unfold symbolMarkLength
      split <;> simp
  rcases cases with rfl | ⟨rfl, rest, rfl | rfl⟩
  · exact ⟨rfl, rfl⟩
  · exact ⟨rfl, rfl⟩
  · exact ⟨rfl, rfl⟩

theorem wellSpelled_keyword (chars : List Char)
    (keyword : keyword? spelling = some kind) : wellSpelled kind chars = true := by
  unfold keyword? at keyword
  split at keyword
  all_goals cases keyword
  all_goals rfl

theorem wellSpelled_word (starts : startsName first = true)
    (read : word first rest = (.token kind, size)) :
    wellSpelled kind (first :: rest.take size) = true := by
  simp only [word, Prod.mk.injEq, token.injEq, drop_wordLength] at read
  obtain ⟨rfl, rfl⟩ := read
  have inside : ∀ c ∈ rest.takeWhile isWordChar, isWordChar c = true :=
    fun c member => List.mem_takeWhile_imp member
  obtain ⟨marked, outside⟩ := @isMark_take (rest.dropWhile isWordChar) _ (.inl rfl)
  have spelled := @isSpelled_ofList startsName isMark _ _ _ starts inside outside marked
  rw [← take_wordLength] at spelled
  cases keyword : keyword? (String.ofList (first ::
      rest.take (wordLength rest + markLength (rest.dropWhile isWordChar)))) with
  | none => exact Bool.and_eq_true_iff.2 ⟨spelled, by rw [keyword]; rfl⟩
  | some kind => exact wellSpelled_keyword _ keyword

theorem wellSpelled_constant (starts : isUpper first = true) :
    wellSpelled .constant (first :: rest.take (wordLength rest)) = true := by
  have taken := take_wordLength rest 0
  rw [Nat.add_zero, List.take_zero] at taken
  rw [taken]
  exact isSpelled_ofList starts (fun c member => List.mem_takeWhile_imp member) rfl rfl

theorem wellSpelled_global (starts : startsWord first = true) :
    wellSpelled .global ('$' :: (first :: rest).take (1 + wordLength rest)) = true := by
  have taken := take_wordLength rest 0
  rw [Nat.add_zero, List.take_zero] at taken
  rw [Nat.add_comm, List.take_succ_cons, taken]
  exact isSpelled_ofList starts (fun c member => List.mem_takeWhile_imp member) rfl rfl

theorem wellSpelled_symbol (starts : startsWord first = true) :
    wellSpelled .symbol (':' :: (first :: rest).take
      (1 + wordLength rest + symbolMarkLength (rest.drop (wordLength rest)))) = true := by
  obtain ⟨marked, outside⟩ := @isMark_take (rest.dropWhile isWordChar) _ (.inr rfl)
  rw [Nat.add_assoc, Nat.add_comm, List.take_succ_cons, drop_wordLength, take_wordLength]
  exact isSpelled_ofList starts (fun c member => List.mem_takeWhile_imp member) outside marked

theorem wellSpelled_operator (read : operator? first rest = some (kind, size)) :
    wellSpelled kind (first :: rest.take size) = true := by
  unfold operator? at read
  split at read
  all_goals cases read
  all_goals rfl

theorem at?_wellSpelled (read : at? first rest = some (.token kind, size)) :
    wellSpelled kind (first :: rest.take size) = true := by
  unfold at? at read
  split at read
  · simp only [number] at read
    split at read <;> (cases read; rfl)
  split at read
  · next starts => exact wellSpelled_word starts (Option.some.inj read)
  split at read
  · next starts =>
    cases read
    exact wellSpelled_constant starts
  split at read
  case h_11 =>
    split at read
    · next starts =>
      cases read
      exact wellSpelled_global starts
    · contradiction
  case h_12 =>
    split at read
    · next starts =>
      cases read
      exact wellSpelled_symbol starts
    · cases read
      rfl
  case h_14 =>
    obtain ⟨⟨operator, length⟩, found, equal⟩ := Option.map_eq_some_iff.1 read
    cases equal
    exact wellSpelled_operator found
  case h_9 | h_10 =>
    obtain ⟨length, -, equal⟩ := Option.map_eq_some_iff.1 read
    cases equal
    rfl
  all_goals cases read
  all_goals rfl

end Lexeme

end Hoist
