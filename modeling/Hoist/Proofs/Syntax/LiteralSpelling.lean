import Hoist.Syntax.Parser
import Hoist.Syntax.Printer
import Hoist.Proofs.Syntax.Spelling

/-!
Literals as text.  A written string, integer or float is scanned as one token, and what is read off
that token is the value that was written.  For floats this needs that their shortest decimal, in the
bare notation, reads back as the same float, which is a fact of the arithmetic of floats and enters
as a condition.
-/

namespace Hoist

open List

variable {code : CodePoint} {c : Char}

namespace CodePoint

theorem ofChar_toChar (plain : code.isSurrogate = false) : ofChar code.toChar = code := by
  have valid : code.val.isValidChar := by
    have := code.inRange
    simp only [isSurrogate, Bool.and_eq_false_imp, decide_eq_true_eq, decide_eq_false_iff_not]
      at plain
    unfold Nat.isValidChar
    omega
  have same : (Char.ofNat code.val).toNat = code.val := by
    rw [Char.toNat_ofNat, if_pos valid]
  rw [toChar, plain]
  simp [ofChar, same]

theorem isSurrogate_of_toChar_ne (different : code.toChar ≠ '\ufffd') :
    code.isSurrogate = false := by
  rw [Bool.eq_false_iff]
  intro surrogate
  exact different (by simp [toChar, surrogate])

end CodePoint

namespace StringLiteral

open CodePoint

theorem unescape_escape {letter : Char} (escaped : escape? c = some letter) :
    unescape letter = c ∧ c ≠ '\ufffd' := by
  unfold escape? at escaped
  split at escaped
  all_goals cases escaped
  all_goals decide

theorem escape?_eq_none (plain : escape? c = none) : c ≠ '\\' ∧ c ≠ '"' ∧ c ≠ '\n' := by
  refine ⟨?_, ?_, ?_⟩ <;> rintro rfl <;> simp [escape?] at plain

/-- One code point is written either after a backslash, and then unescaping gives it back, or as it
is, and then it is no backslash, quote or line end. -/
theorem encode_cons (code : CodePoint) (rest : List CodePoint) :
    (∃ letter : Char, encode (code :: rest) = ofChar '\\' :: ofChar letter :: encode rest ∧
        letter ≠ '\n' ∧ unescapeCode (ofChar letter) = code) ∨
      encode (code :: rest) = code :: encode rest ∧ code.toChar ≠ '\\' ∧ code.toChar ≠ '"' ∧
        code.toChar ≠ '\n' ∧ ((code == '#') = true → interpolatesNext rest = false) := by
  cases escaped : escape? code.toChar with
  | some letter =>
    obtain ⟨back, plain⟩ := unescape_escape escaped
    refine .inl ⟨letter, by simp [encode, escaped], ?_, ?_⟩
    · rintro rfl
      rw [show unescape '\n' = '\n' from rfl] at back
      rw [← back] at escaped
      exact absurd escaped (by decide)
    · simp only [unescapeCode, isSurrogate_ofChar, toChar_ofChar, back]
      exact ofChar_toChar (isSurrogate_of_toChar_ne plain)
  | none =>
    obtain ⟨noSlash, noQuote, noLine⟩ := escape?_eq_none escaped
    by_cases hash : (code == '#' && interpolatesNext rest) = true
    · have isHash : code = ofChar '#' := by
        simp only [Bool.and_eq_true, beq_iff_eq] at hash
        exact hash.1
      refine .inl ⟨'#', ?_, by decide, ?_⟩
      · simp only [encode, escaped, hash, if_true]
        rw [isHash]
      · rw [isHash]
        decide
    · refine .inr ⟨by simp only [encode, escaped, hash]; rfl, noSlash, noQuote, noLine, ?_⟩
      intro isHash
      simpa [isHash] using hash

theorem stringLength?_encode (codes : List CodePoint) (after : List Char) :
    Lexeme.stringLength? '"' ((encode codes).map toChar ++ '"' :: after) =
      some ((encode codes).length + 1) := by
  induction codes with
  | nil => rfl
  | cons code rest ih =>
    rcases encode_cons code rest with ⟨letter, written, -, -⟩ | ⟨written, noSlash, noQuote, -⟩
    · rw [written]
      simp [Lexeme.stringLength?, ih]
    · rw [written, map_cons, cons_append, Lexeme.stringLength?.eq_3]
      · simp [noSlash, noQuote, ih]
      · exact fun _ _ slash _ => noSlash slash

theorem decodeDouble_cons {text : List CodePoint} (offset : Nat) (noSlash : code.toChar ≠ '\\')
    (noHash : (code == '#') = true → interpolatesNext text = false) :
    decodeDouble offset (code :: text) =
      (decodeDouble (offset + 1) text).map (code :: ·) := by
  cases text with
  | nil => rfl
  | cons next rest =>
    have plain : (code == ofChar '\\') = false := by
      rw [beq_eq_false_iff_ne]
      exact fun slash => noSlash (by rw [slash, toChar_ofChar])
    have quiet : (code == ofChar '#' && interpolates next) = false := by
      rw [Bool.and_eq_false_imp]
      exact noHash
    simp [decodeDouble, plain, quiet]

theorem interpolatesNext_encode {codes : List CodePoint} (quiet : interpolatesNext codes = false) :
    interpolatesNext (encode codes) = false := by
  cases codes with
  | nil => rfl
  | cons code rest =>
    rcases encode_cons code rest with ⟨letter, written, -, -⟩ | ⟨written, -⟩
    · rw [written]
      rfl
    · rw [written]
      exact quiet

theorem decodeDouble_encode (codes : List CodePoint) (offset : Nat) :
    decodeDouble offset (encode codes) = .ok codes := by
  induction codes generalizing offset with
  | nil => rfl
  | cons code rest ih =>
    rcases encode_cons code rest with
      ⟨letter, written, -, back⟩ | ⟨written, noSlash, -, -, noHash⟩
    · rw [written, decodeDouble, if_pos (by simp), ih, back]
      rfl
    · rw [written, decodeDouble_cons offset noSlash
        (fun hash => interpolatesNext_encode (noHash hash)), ih]
      rfl

theorem newline_not_mem_encode (codes : List CodePoint) : ofChar '\n' ∉ encode codes := by
  induction codes with
  | nil => simp [encode]
  | cons code rest ih =>
    rcases encode_cons code rest with ⟨letter, written, noLine, -⟩ | ⟨written, -, -, noLine, -⟩
    · rw [written]
      have first : ofChar '\n' ≠ ofChar '\\' := by decide
      have second : ofChar '\n' ≠ ofChar letter :=
        fun same => noLine (by rw [← toChar_ofChar letter, ← same, toChar_ofChar])
      simp [first, second, ih]
    · rw [written]
      have different : ofChar '\n' ≠ code := by
        rintro rfl
        exact noLine (toChar_ofChar _)
      simp [different, ih]

theorem toList_render (text : Text) :
    (render text).toList = ofChar '"' :: (encode text.toList ++ [ofChar '"']) := by
  simp [render]

theorem scans_render (text : Text) (after : List Char) :
    Lexeme.Scans .string (render text).toList after := by
  refine ⟨ofChar '"', encode text.toList ++ [ofChar '"'], toList_render text, ?_⟩
  rw [toChar_ofChar]
  change (Lexeme.stringLength? '"' _).map (Lexeme.token TokenKind.string, ·) = _
  simp [stringLength?_encode]

/-- Reading a written string gives the string. -/
theorem read_render (text : Text) : read (render text) = .ok text := by
  have quoted : (render text).toList = ofChar '"' :: (encode text.toList ++ [ofChar '"']) :=
    toList_render text
  have length : (render text).length = (encode text.toList).length + 2 := by
    change (render text).codes.size = _
    rw [← Array.length_toList]
    change (render text).toList.length = _
    simp [quoted]
  have inside : ((render text).part 1 ((render text).length - 1)).toList = encode text.toList := by
    change ((render text).codes.extract 1 ((render text).length - 1)).toList = _
    rw [Array.toList_extract, length]
    change (((render text).toList).extract 1 _) = _
    simp [quoted, extract_eq_take_drop]
  have double : (render text).startsWith "'" = false := by
    rw [Text.startsWith, quoted]
    rfl
  rw [read]
  simp [double, inside, decodeDouble_encode, Except.map]

end StringLiteral

namespace Text

theorem digitValue?_of_isDigit (digit : c.isDigit = true) :
    digitValue? c = some (c.toNat - 48) := by
  have range : 48 ≤ c.toNat ∧ c.toNat ≤ 57 := by
    simp only [Char.isDigit, Bool.and_eq_true, decide_eq_true_eq] at digit
    exact digit
  have below : c.toNat < 128 := by omega
  simp [digitValue?, below, range]

theorem isDigit_of_isDigit (digit : c.isDigit = true) : isDigit c = true := by
  simp [isDigit, digitValue?_of_isDigit digit]

theorem digitValue?_lt {value : Nat} (digit : digitValue? c = some value) : value < 10 := by
  unfold digitValue? at digit
  split at digit
  · split at digit
    · cases digit
      omega
    · contradiction
  · obtain ⟨first, found, rfl⟩ := Option.map_eq_some_iff.1 digit
    have range := find?_some found
    simp only [decide_eq_true_eq] at range
    omega

theorem digitsValue_append_singleton (digits : List Char) (c : Char) :
    digitsValue (digits ++ [c]) = digitsValue digits * 10 + (digitValue? c).getD 0 := by
  simp [digitsValue]

theorem digitsValue_lt (digits : List Char) : digitsValue digits < 10 ^ digits.length := by
  induction digits using reverseRecOn with
  | nil => decide
  | append_singleton digits c ih =>
    have small : (digitValue? c).getD 0 < 10 := by
      cases digit : digitValue? c with
      | none => decide
      | some value => exact digitValue?_lt digit
    rw [digitsValue_append_singleton, length_append, length_singleton, Nat.pow_succ]
    omega

theorem digitsValue_eq_ofDigitChars {digits : List Char} (valid : ∀ c ∈ digits, c.isDigit = true) :
    digitsValue digits = Nat.ofDigitChars 10 digits 0 := by
  induction digits using reverseRecOn with
  | nil => rfl
  | append_singleton digits c ih =>
    rw [digitsValue_append_singleton, ih fun d member => valid d (by simp [member]),
      digitValue?_of_isDigit (valid c (by simp)), Nat.ofDigitChars_append, Nat.ofDigitChars_cons,
      Nat.ofDigitChars_nil, Nat.mul_comm]
    rfl

end Text

namespace Lexeme

/-- Runs of the digits `0` to `9`. -/
def AreDigits (digits : List Char) : Prop := ∀ c ∈ digits, c.isDigit = true

theorem areDigits_toDigits (n : Nat) : AreDigits (Nat.toDigits 10 n) :=
  fun _ member => Nat.isDigit_of_mem_toDigits (by decide) (by decide) member

variable {after : List Char}

theorem digitsLength_append {digits : List Char} (valid : AreDigits digits)
    (outside : digitsLength after = 0) : digitsLength (digits ++ after) = digits.length := by
  have none : after.takeWhile Text.isDigit = [] := eq_nil_of_length_eq_zero outside
  rw [digitsLength, takeWhile_append_of_pos fun c member =>
    Text.isDigit_of_isDigit (valid c member), none, append_nil]

theorem digitsLength_endsWord (ends : endsWord after = true) : digitsLength after = 0 := by
  rcases endsWord_cases ends with rfl | ⟨rest, rfl, -⟩ | ⟨c, rest, rfl, member⟩
  · rfl
  · rfl
  · simp [digitsLength, (wordEnds_separate member).2.1]

theorem fractionLength_endsWord (ends : endsWord after = true) : fractionLength after = 0 := by
  rcases endsWord_cases ends with rfl | ⟨rest, rfl, none⟩ | ⟨c, rest, rfl, member⟩
  · rfl
  · simp [fractionLength, none]
  · have noPoint : c ≠ '.' := (wordEnds_separate member).2.2.2.2.1
    unfold fractionLength
    split
    · next equal => exact absurd (List.cons.inj equal).1 noPoint
    · rfl

theorem groupedLength_endsWord (ends : endsWord after = true) : groupedLength after = 0 := by
  have noDigit : ∀ c rest, after = c :: rest → c ≠ '_' ∧ Text.isDigit c = false := by
    rcases endsWord_cases ends with rfl | ⟨rest, rfl, -⟩ | ⟨c, rest, rfl, member⟩
    · simp
    · rintro c rest ⟨rfl, rfl⟩
      decide
    · rintro d more ⟨rfl, rfl⟩
      exact ⟨(wordEnds_separate member).2.2.2.2.2.1, (wordEnds_separate member).2.1⟩
  unfold groupedLength
  split
  · exact absurd rfl (noDigit _ _ rfl).1
  · rw [(noDigit _ _ rfl).2]
    rfl
  · rfl

theorem groupedLength_append {digits : List Char} (valid : AreDigits digits)
    (outside : groupedLength after = 0) : groupedLength (digits ++ after) = digits.length := by
  induction digits with
  | nil => exact outside
  | cons c rest ih =>
    have digit : c.isDigit = true := valid c (by simp)
    have noLine : c ≠ '_' := by
      rintro rfl
      exact absurd digit (by decide)
    have tail := ih fun d member => valid d (by simp [member])
    rw [cons_append, groupedLength.eq_2 _ _ fun _ _ line _ => noLine line,
      if_pos (Text.isDigit_of_isDigit digit), tail, length_cons, Nat.add_comm]

theorem at?_int {first : Char} {more : List Char} (valid : AreDigits (first :: more))
    (ends : endsWord after = true) :
    at? first (more ++ after) = some (.token .int, more.length) := by
  have digits : AreDigits more := fun c member => valid c (by simp [member])
  have whole := digitsLength_append digits (digitsLength_endsWord ends)
  have grouped := groupedLength_append digits (groupedLength_endsWord ends)
  simp only [at?, Text.isDigit_of_isDigit (valid first (by simp)), if_true, number, whole,
    drop_left, fractionLength_endsWord ends, grouped]

theorem scans_nat (n : Nat) (ends : endsWord after = true) :
    Scans .int (Text.ofString (toString n)).toList after := by
  have digits : (toString n).toList = Nat.toDigits 10 n := by
    rw [Nat.toString_eq_repr, Nat.toList_repr]
  have valid := areDigits_toDigits n
  cases split : Nat.toDigits 10 n with
  | nil => exact absurd split Nat.toDigits_ne_nil
  | cons first more =>
    rw [split] at digits valid
    exact scans_of_toList digits (at?_int valid ends)

/-- Exponents as floats are written with them. -/
def IsExponent (text : List Char) : Prop :=
  text = [] ∨ ∃ sign digits, text = 'e' :: sign :: digits ∧ (sign = '+' ∨ sign = '-') ∧
    digits ≠ [] ∧ AreDigits digits

/-- Floats as they are written: digits, a point, digits, and perhaps an exponent. -/
def IsFloat (text : List Char) : Prop :=
  ∃ whole fraction exponent, text = whole ++ '.' :: (fraction ++ exponent) ∧ whole ≠ [] ∧
    AreDigits whole ∧ fraction ≠ [] ∧ AreDigits fraction ∧ IsExponent exponent

theorem exponentLength_append {exponent : List Char} (valid : IsExponent exponent)
    (ends : endsWord after = true) : exponentLength (exponent ++ after) = exponent.length := by
  rcases valid with rfl | ⟨sign, digits, rfl, signed, nonempty, valid⟩
  · rcases endsWord_cases ends with rfl | ⟨rest, rfl, -⟩ | ⟨c, rest, rfl, member⟩
    · rfl
    · cases rest <;> rfl
    · obtain ⟨-, -, -, -, -, -, lower, upper⟩ := wordEnds_separate member
      cases rest with
      | nil => rfl
      | cons next rest => simp [exponentLength, lower, upper]
  · have length := digitsLength_append valid (digitsLength_endsWord ends)
    have positive : digits.length ≠ 0 := by simpa using nonempty
    rcases signed with rfl | rfl
    · simp [exponentLength, length]
    · simp [exponentLength, length]

theorem digitsLength_exponent {exponent : List Char} (valid : IsExponent exponent)
    (ends : endsWord after = true) : digitsLength (exponent ++ after) = 0 := by
  rcases valid with rfl | ⟨sign, digits, rfl, -⟩
  · exact digitsLength_endsWord ends
  · rfl

theorem scans_float {spelling : String} (valid : IsFloat spelling.toList)
    (ends : endsWord after = true) : Scans .float (Text.ofString spelling).toList after := by
  obtain ⟨whole, fraction, exponent, split, nonempty, digits, present, places, raised⟩ := valid
  cases whole with
  | nil => contradiction
  | cons first more =>
    have size : fractionLength ('.' :: (fraction ++ (exponent ++ after))) =
        ('.' :: (fraction ++ exponent)).length := by
      have length := digitsLength_append places (digitsLength_exponent raised ends)
      have positive : fraction.length ≠ 0 := by simpa using present
      simp only [fractionLength, length, drop_left, exponentLength_append raised ends,
        length_cons, length_append]
      omega
    have wholeLength : digitsLength (more ++ '.' :: (fraction ++ (exponent ++ after))) =
        more.length :=
      digitsLength_append (fun c member => digits c (by simp [member])) rfl
    rw [cons_append] at split
    apply scans_of_toList split
    simp only [at?, Text.isDigit_of_isDigit (digits first (by simp)), if_true, number,
      append_assoc, cons_append, wholeLength, drop_left, size, length_append,
      length_cons]

end Lexeme

namespace Decimal

open Lexeme

theorem areDigits_append {left right : List Char} (leftDigits : AreDigits left)
    (rightDigits : AreDigits right) : AreDigits (left ++ right) := by
  intro c member
  rcases mem_append.1 member with inLeft | inRight
  · exact leftDigits c inLeft
  · exact rightDigits c inRight

theorem areDigits_replicate (count : Nat) : AreDigits (List.replicate count '0') := by
  intro c member
  rw [eq_of_mem_replicate member]
  rfl

theorem toList_toString (n : Nat) : (toString n).toList = Nat.toDigits 10 n := by
  rw [Nat.toString_eq_repr, Nat.toList_repr]

theorem isFloat_positionalText (decimal : Digits) : IsFloat (positionalText decimal).toList := by
  have digits := areDigits_toDigits decimal.digits
  have nonempty : Nat.toDigits 10 decimal.digits ≠ [] := Nat.toDigits_ne_nil
  unfold positionalText
  rw [toList_toString]
  cases decimal.exponent with
  | ofNat zeros =>
    refine ⟨Nat.toDigits 10 decimal.digits ++ List.replicate zeros '0', ['0'], [], ?_, ?_,
      areDigits_append digits (areDigits_replicate zeros), by simp, areDigits_replicate 1,
      .inl rfl⟩
    · simp
    · simp [nonempty]
  | negSucc places =>
    generalize padding : List.replicate (places + 1 + 1 - (Nat.toDigits 10 decimal.digits).length)
      '0' ++ Nat.toDigits 10 decimal.digits = padded
    have valid : AreDigits padded := by
      rw [← padding]
      exact areDigits_append (areDigits_replicate _) digits
    have long : places + 1 + 1 ≤ padded.length := by
      rw [← padding, length_append, length_replicate]
      omega
    refine ⟨padded.take (padded.length - (places + 1)), padded.drop (padded.length - (places + 1)),
      [], ?_, ?_, ?_, ?_, ?_, .inl rfl⟩
    · simp [padding]
    · rw [Ne, ← length_eq_zero_iff, length_take]
      omega
    · exact fun c member => valid c (mem_of_mem_take member)
    · rw [Ne, ← length_eq_zero_iff, length_drop]
      omega
    · exact fun c member => valid c (mem_of_mem_drop member)

theorem isExponent_text (lead : Int) : IsExponent ((if lead < 0 then "e-" else "e+") ++
      (if (toString lead.natAbs).length < 2 then "0" ++ toString lead.natAbs
        else toString lead.natAbs)).toList := by
  have digits := areDigits_toDigits lead.natAbs
  have nonempty : Nat.toDigits 10 lead.natAbs ≠ [] := Nat.toDigits_ne_nil
  have tail : ∃ tail, (if (toString lead.natAbs).length < 2 then "0" ++ toString lead.natAbs
      else toString lead.natAbs).toList = tail ∧ tail ≠ [] ∧ AreDigits tail := by
    split
    · refine ⟨'0' :: Nat.toDigits 10 lead.natAbs, by simp, by simp, ?_⟩
      exact areDigits_append (areDigits_replicate 1) digits
    · exact ⟨Nat.toDigits 10 lead.natAbs, toList_toString _, nonempty, digits⟩
  obtain ⟨tail, equal, present, valid⟩ := tail
  rw [String.toList_append, equal]
  split
  · exact .inr ⟨'-', tail, rfl, .inr rfl, present, valid⟩
  · exact .inr ⟨'+', tail, rfl, .inl rfl, present, valid⟩

theorem isFloat_exponentText (decimal : Digits) :
    IsFloat (exponentText literalStyle decimal).toList := by
  have valid := areDigits_toDigits decimal.digits
  have raised := isExponent_text
    (decimal.exponent + Int.ofNat (toString decimal.digits).length - 1)
  rw [exponentText, String.append_assoc, String.toList_append]
  simp only [toList_toString]
  cases digits : Nat.toDigits 10 decimal.digits with
  | nil => exact absurd digits Nat.toDigits_ne_nil
  | cons digit rest =>
    rw [digits] at valid
    have single : AreDigits [digit] := fun c member => valid c (by simp_all)
    cases rest with
    | nil =>
      exact ⟨[digit], ['0'], _, by simp [literalStyle], by simp, single, by simp,
        areDigits_replicate 1, raised⟩
    | cons next rest =>
      refine ⟨[digit], next :: rest, _, by simp, by simp, single, by simp, ?_, raised⟩
      exact fun c member => valid c (mem_cons_of_mem _ member)

/-- Floats that are finite, without a sign, and equal to what their shortest decimal denotes. -/
def ReadsBack (x : Float) : Prop :=
  (∃ mantissa exponent, view x = .finite false mantissa exponent) ∧
    readFloat? (floatText plainStyle x) = some x

variable {x : Float} {n : Nat}

theorem isFloat_floatText {mantissa : Nat} {exponent : Int}
    (finite : view x = .finite false mantissa exponent) :
    IsFloat (floatText literalStyle x).toList := by
  cases mantissa with
  | zero =>
    have zero : floatText literalStyle x = "0.0" := by simp [floatText, finite]
    rw [zero]
    exact ⟨['0'], ['0'], [], rfl, by simp, areDigits_replicate 1, by simp, areDigits_replicate 1,
      .inl rfl⟩
  | succ mantissa =>
    simp only [floatText, finite, Bool.false_eq_true, if_false]
    split
    · exact isFloat_positionalText _
    · exact isFloat_exponentText _

theorem startsWithDigit_of_isFloat {text : List Char} (valid : IsFloat text) :
    ∃ digit rest, text = digit :: rest ∧ digit.isDigit = true := by
  obtain ⟨whole, fraction, raised, rfl, nonempty, digits, -⟩ := valid
  cases whole with
  | nil => contradiction
  | cons first more => exact ⟨first, _, rfl, digits first (by simp)⟩

/-- A literal is the bare notation of its float, but for a mantissa of a single digit, which gets a
point and a zero. -/
theorem floatText_styles {mantissa : Nat} {exponent : Int}
    (finite : view x = .finite false mantissa exponent) :
    floatText literalStyle x = floatText plainStyle x ∨
      ∃ digit raised, digit.isDigit = true ∧ raised ≠ [] ∧ IsExponent raised ∧
        (floatText plainStyle x).toList = digit :: raised ∧
        (floatText literalStyle x).toList = digit :: '.' :: '0' :: raised := by
  cases mantissa with
  | zero => exact .inl (by simp [floatText, finite])
  | succ mantissa =>
    simp only [floatText, finite, Bool.false_eq_true, if_false]
    generalize shortest (mantissa + 1) exponent = decimal
    split
    · exact .inl rfl
    have raised := isExponent_text
      (decimal.exponent + Int.ofNat (toString decimal.digits).length - 1)
    have valid := areDigits_toDigits decimal.digits
    simp only [exponentText, String.append_assoc, toList_toString]
    cases digits : Nat.toDigits 10 decimal.digits with
    | nil => exact absurd digits Nat.toDigits_ne_nil
    | cons digit rest =>
      rw [digits] at valid
      cases rest with
      | nil =>
        refine .inr ⟨digit, _, valid digit (by simp), ?_, raised, ?_, ?_⟩
        · split <;> simp
        · simp [plainStyle]
        · simp [literalStyle]
      | cons next rest => exact .inl rfl

/-- A digit with an exponent is read with and without a point and a zero between them. -/
theorem takeDecimal?_digit {digit : Char} {raised : List Char} (isDigit : digit.isDigit = true)
    (present : raised ≠ []) (valid : IsExponent raised) : ∃ power,
      takeDecimal? (digit :: raised) = some (⟨false, [digit], [], power⟩, []) ∧
      takeDecimal? (digit :: '.' :: '0' :: raised) = some (⟨false, [digit], ['0'], power⟩, []) := by
  obtain ⟨sign, digits, rfl, signed, nonempty, areDigits⟩ := valid.resolve_left present
  have isFirst := Text.isDigit_of_isDigit isDigit
  have unsigned (rest : List Char) : takeSign (digit :: rest) = (false, digit :: rest) := by
    unfold takeSign
    split
    · next first => exact absurd isDigit ((List.cons.inj first).1 ▸ by decide)
    · next first => exact absurd isDigit ((List.cons.inj first).1 ▸ by decide)
    · rfl
  have ends : takeDigits digits = (digits, []) := by
    have each (c : Char) (member : c ∈ digits) := Text.isDigit_of_isDigit (areDigits c member)
    rw [takeDigits, takeWhile_eq_self_iff.2 each, dropWhile_eq_nil_iff.2 each]
  obtain ⟨power, raises⟩ : ∃ power, takeExponent ('e' :: sign :: digits) = (power, []) := by
    cases digits with
    | nil => contradiction
    | cons first more =>
      rcases signed with rfl | rfl
      · exact ⟨_, by simp only [takeExponent, takeSign, ends]; rfl⟩
      · exact ⟨_, by simp only [takeExponent, takeSign, ends]; rfl⟩
  have marks : Text.isDigit 'e' = false ∧ Text.isDigit '.' = false ∧ Text.isDigit '0' = true := by
    decide
  refine ⟨power, ?_, ?_⟩
  · simp [takeDecimal?, unsigned, takeDigits, isFirst, marks, takeFraction, raises]
  · simp [takeDecimal?, unsigned, takeDigits, isFirst, marks, takeFraction, raises]

/-- A zero at the end of the digits does not change the float. -/
theorem nearestFloat_zero (digits : Nat) (exponent : Int) :
    Digits.nearestFloat ⟨digits * 10, exponent - 1⟩ = Digits.nearestFloat ⟨digits, exponent⟩ := by
  rcases digits.eq_zero_or_pos with rfl | positive
  · have trims (exponent : Int) : Digits.trim ⟨0, exponent⟩ = ⟨0, exponent⟩ := by
      simp [Digits.trim, digitCount, Digits.trim.go]
    simp only [Digits.nearestFloat, Nat.zero_mul, trims]
    rfl
  · have count : digitCount (digits * 10) = digitCount digits + 1 := by
      rw [digitCount, Nat.toDigits_of_base_le (by decide) (by omega),
        Nat.mul_div_cancel _ (by decide)]
      simp [digitCount]
    have trims : Digits.trim ⟨digits * 10, exponent - 1⟩ = Digits.trim ⟨digits, exponent⟩ := by
      simp [Digits.trim, count, Digits.trim.go, positive.ne']
    simp only [Digits.nearestFloat, trims]

theorem readFloat?_of_digit {text : String} {digit : Char} {rest : List Char}
    (split : text.toList = digit :: rest) (isDigit : digit.isDigit = true) :
    readFloat? text = match takeDecimal? text.toList with
      | some (parts, []) => some parts.toFloat
      | _ => none := by
  unfold readFloat?
  split
  · cases split; contradiction
  · cases split; contradiction
  · cases split; contradiction
  · rfl

/-- The literal of a float denotes it. -/
theorem takeDecimal?_floatText (readsBack : ReadsBack x) : ∃ parts,
    takeDecimal? (floatText literalStyle x).toList = some (parts, []) ∧ parts.toFloat = x := by
  obtain ⟨⟨mantissa, exponent, finite⟩, back⟩ := readsBack
  rcases floatText_styles finite with same | ⟨digit, raised, isDigit, present, isRaised,
    bare, literal⟩
  · obtain ⟨digit, rest, split, isDigit⟩ := startsWithDigit_of_isFloat (isFloat_floatText finite)
    rw [← same, readFloat?_of_digit split isDigit] at back
    split at back
    · next parts taken => exact ⟨parts, taken, Option.some.inj back⟩
    · contradiction
  · obtain ⟨power, takenBare, takenLiteral⟩ := takeDecimal?_digit isDigit present isRaised
    rw [readFloat?_of_digit bare isDigit, bare, takenBare] at back
    refine ⟨_, literal ▸ takenLiteral, Eq.trans ?_ (Option.some.inj back)⟩
    have value : Text.digitsValue [digit, '0'] = Text.digitsValue [digit] * 10 :=
      Text.digitsValue_append_singleton [digit] '0'
    simp [DecimalParts.toFloat, value, nearestFloat_zero]

/-- The characters of a written float denote it. -/
theorem floatValue_floatText (readsBack : ReadsBack x) {token : Token}
    (spelled : token.text = Text.ofString (floatText literalStyle x)) : floatValue token = x := by
  obtain ⟨parts, taken, same⟩ := takeDecimal?_floatText readsBack
  rw [floatValue, spelled, Text.chars_ofString, taken]
  exact same

/-- Natural numbers are written when they have few enough digits, and read back. -/
theorem intText?_ofNat (small : n < 10 ^ maxIntegerDigits) :
    intText? (Int.ofNat n) = some (toString n) := by
  have short : n.repr.length ≤ maxIntegerDigits :=
    (Nat.length_repr_le_iff (by decide)).2 small
  simp [intText?, short]

theorem readNat?_toString (small : n < 10 ^ maxIntegerDigits) :
    readNat? ((toString n).toList.filter (· != '_')) = some n := by
  have short : (Nat.toDigits 10 n).length ≤ maxIntegerDigits :=
    (Nat.length_toDigits_le_iff (by decide) (by decide)).2 small
  have plain : (Nat.toDigits 10 n).filter (· != '_') = Nat.toDigits 10 n := by
    rw [filter_eq_self]
    rintro c member
    simp only [bne_iff_ne]
    rintro rfl
    exact Nat.underscore_not_in_toDigits member
  rw [toList_toString, plain, readNat?, if_pos short,
    Text.digitsValue_eq_ofDigitChars (areDigits_toDigits n), Nat.ofDigitChars_ten_toDigits]

end Decimal

end Hoist
