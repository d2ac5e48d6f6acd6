import Hoist.Helper.Template
import Hoist.Proofs.Steps

/-!
Filling in templates whose places are plain names: the text around the places is kept, and each
place becomes its value.
-/

namespace Hoist.Template

open List

/-- Text without braces. -/
def isPlain (text : List Char) : Bool := text.all fun c => c != '\x7b' && c != '\x7d'

/-- Characters that end the name of a place or select a part of its value. -/
def placeMarks : List Char := ['\x7b', '\x7d', ':', '!', '[', '.']

/-- Names of places that are looked up as they are. -/
def isPlaceName (name : List Char) : Bool :=
  !name.all isAsciiDigit && name.all fun c => !placeMarks.contains c

variable {values : List (String × String)}

theorem fillFrom_plain {c : Char} (noOpening : c ≠ '\x7b') (noClosing : c ≠ '\x7d') (fuel : Nat)
    (rest : List Char) :
    fillFrom values (fuel + 1) (c :: rest) = (fillFrom values fuel rest).map (c :: ·) := by
  conv_lhs => unfold fillFrom
  split <;> simp_all

theorem fillFrom_append {text rest filled : List Char} {fuel : Nat} (plain : isPlain text = true)
    (fills : fillFrom values fuel rest = .ok filled) :
    fillFrom values (fuel + text.length) (text ++ rest) = .ok (text ++ filled) := by
  induction text with
  | nil => exact fills
  | cons c text ih =>
    simp only [isPlain, all_cons, Bool.and_eq_true, bne_iff_ne] at plain
    have next := ih (by simpa [isPlain] using plain.2)
    rw [length_cons, ← Nat.add_assoc, cons_append,
      fillFrom_plain plain.1.1 plain.1.2, next]
    rfl

variable {name : List Char} {value : String}

theorem placeLength?_name (unmarked : ∀ c ∈ name, c ∉ placeMarks)
    (rest : List Char) : placeLength? false (name ++ '\x7d' :: rest) = some name.length := by
  induction name with
  | nil => rfl
  | cons c name ih =>
    obtain ⟨first, others⟩ := forall_mem_cons.1 unmarked
    simp only [placeMarks, mem_cons, not_mem_nil, not_or] at first
    have noIndex : (c == '[') = false := by simpa using first.2.2.2.2.1
    simp [placeLength?, first, noIndex, ih others]

theorem unmarked_of_isPlaceName (valid : isPlaceName name = true) : ∀ c ∈ name, c ∉ placeMarks := by
  simpa using all_eq_true.1 (Bool.and_eq_true_iff.1 valid).2

theorem readPlace_name (valid : isPlaceName name = true) (rest : List Char) :
    readPlace (name ++ '\x7d' :: rest) = .ok (⟨name, none, []⟩, rest) := by
  simp [readPlace, placeLength?_name (unmarked_of_isPlaceName valid)]

theorem placeValue_name (valid : isPlaceName name = true)
    (found : values.lookup (String.ofList name) = some value) :
    placeValue values name = .ok value.toList := by
  have whole : (name.takeWhile fun c => c != '.' && c != '[') = name := by
    refine takeWhile_eq_self_iff.2 fun c member => ?_
    have unmarked := unmarked_of_isPlaceName valid c member
    simp only [placeMarks, mem_cons, not_mem_nil, not_or] at unmarked
    simp [unmarked]
  have named : name.all isAsciiDigit = false := by
    simpa using (Bool.and_eq_true_iff.1 valid).1
  simp [placeValue, whole, named, found, access]

theorem Layout.apply_default (value : List Char) : ({} : Layout).apply value = value := by
  simp [Layout.apply]

theorem fillFrom_place {rest filled : List Char} {fuel : Nat}
    (valid : isPlaceName name = true) (found : values.lookup (String.ofList name) = some value)
    (fills : fillFrom values fuel rest = .ok filled) :
    fillFrom values (fuel + 1) ('\x7b' :: (name ++ '\x7d' :: rest)) =
      .ok (value.toList ++ filled) := by
  have nothing : fillFrom values fuel [] = .ok [] := by cases fuel <;> rfl
  rw [fillFrom]
  · simp only [readPlace_name valid, placeValue_name valid found, nothing, readLayout,
      ok_bind, fills,
      Layout.apply_default]
    rfl
  · intro other same
    cases name with
    | nil => cases same
    | cons c name =>
      have first := unmarked_of_isPlaceName valid c mem_cons_self
      exact first (by rw [(List.cons.inj same).1]; decide)

/-- A template with two places. -/
theorem fill_places {first middle last other : List Char} {otherValue : String}
    (plainFirst : isPlain first = true) (plainMiddle : isPlain middle = true)
    (plainLast : isPlain last = true) (valid : isPlaceName name = true)
    (otherValid : isPlaceName other = true)
    (found : values.lookup (String.ofList name) = some value)
    (otherFound : values.lookup (String.ofList other) = some otherValue) :
    fill values (String.ofList (first ++ '\x7b' :: (name ++ '\x7d' ::
      (middle ++ '\x7b' :: (other ++ '\x7d' :: last))))) =
      .ok (String.ofList (first ++ (value.toList ++ (middle ++ (otherValue.toList ++ last))))) := by
  have ended : ∀ fuel, fillFrom values fuel [] = .ok [] := by
    intro fuel
    cases fuel <;> rfl
  have atLast := fillFrom_append plainLast (ended (name.length + other.length + 3))
  have atOther := fillFrom_place otherValid otherFound atLast
  have atMiddle := fillFrom_append plainMiddle atOther
  have atName := fillFrom_place valid found atMiddle
  have whole := fillFrom_append plainFirst atName
  simp only [append_nil] at whole
  rw [fill, String.toList_ofList, String.length_ofList]
  refine (congrArg (Except.map String.ofList ∘ fun fuel => fillFrom values fuel _) ?_).trans
    (congrArg (Except.map String.ofList) whole)
  simp only [length_append, length_cons]
  omega

end Hoist.Template
