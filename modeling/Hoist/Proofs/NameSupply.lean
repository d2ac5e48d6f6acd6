import Hoist.NameSupply
import Hoist.Proofs.Syntax.Spelling

/-!
The names of generated code.  A supply always finds a free name: the numbered names of a hint
differ, so one more of them than there are taken names cannot all be taken.  What it has issued
therefore passes the check for collisions, and every issued name can be written as the name of a
method.
-/

namespace Hoist

open List

open Lexeme

theorem keyword?_of_underscore {spelling : String} (starts : spelling.toList.head? = some '_') :
    keyword? spelling = none := by
  unfold keyword?
  split
  all_goals first | rfl | exact absurd starts (by decide)

/-- Hints are parts of words. -/
def isHint (hint : String) : Bool := hint.toList.all isWordChar

theorem isHint_append {left right : String} (leftHint : isHint left = true)
    (rightHint : isHint right = true) : isHint (left ++ right) = true := by
  rw [isHint, String.toList_append, all_append, Bool.and_eq_true]
  exact ⟨leftHint, rightHint⟩

theorem isHint_toString (number : Nat) : isHint (toString number) = true := by
  refine all_eq_true.2 fun c member => ?_
  have digit : c.isDigit = true := by
    refine Nat.isDigit_of_mem_toDigits (by decide) (by decide) (?_ : c ∈ Nat.toDigits 10 number)
    simpa [Nat.repr] using member
  simp only [Char.isDigit, Bool.and_eq_true, decide_eq_true_eq] at digit
  simp only [isWordChar, Bool.or_eq_true, Bool.and_eq_true, decide_eq_true_eq]
  exact .inr digit

theorem isName_generated {hint : String} (valid : isHint hint = true) :
    isName ("_lift_" ++ hint) = true := by
  have chars : ("_lift_" ++ hint).toList = '_' :: ("lift_" ++ hint).toList := by simp
  have ended : ("lift_" ++ hint).toList.dropWhile isWordChar = [] :=
    dropWhile_eq_nil_iff.2 (all_eq_true.1 (isHint_append rfl valid))
  rw [isName, isSpelled, keyword?_of_underscore (by rw [chars]; rfl), chars]
  simp only [ended]
  rfl

theorem isSymbol_of_isName {spelling : String} (valid : isName spelling = true) :
    isSymbol spelling = true := by
  unfold isName isSpelled at valid
  unfold isSymbol isSpelled
  split at valid
  · contradiction
  · next first rest split =>
    simp only [Bool.and_eq_true] at valid
    rw [Bool.and_eq_true, startsWord, valid.1.1]
    exact ⟨rfl, valid.1.2⟩

namespace NameSupply

variable {supply : NameSupply} {hint : String}

/-- What a supply has issued is new to the program and without repetition. -/
structure Sound (supply : NameSupply) : Prop where
  unreserved : ∀ name ∈ supply.issued, name ∉ supply.reserved
  distinct : supply.issued.Nodup

theorem numbered_injective (supply : NameSupply) (hint : String) :
    Function.Injective (supply.numbered hint) := by
  intro left right same
  have digits : (toString left).toList = (toString right).toList := by
    have whole := congrArg String.toList same
    simp only [numbered, String.toList_append] at whole
    exact append_cancel_left whole
  have digits : Nat.toDigits 10 left = Nat.toDigits 10 right := by
    simpa [Nat.repr] using digits
  rw [← @Nat.ofDigitChars_ten_toDigits left, ← @Nat.ofDigitChars_ten_toDigits right, digits]

theorem taken_iff {name : String} :
    supply.taken name = true ↔ name ∈ supply.reserved ++ supply.issued := by
  simp [taken]

/-- The search passes over taken names only, and ends at a free one or after its last try. -/
theorem firstFree_passes (supply : NameSupply) (hint : String) (tries number : Nat) :
    number ≤ supply.firstFree hint tries number ∧
      supply.firstFree hint tries number ≤ number + tries ∧
      (∀ other, number ≤ other → other < supply.firstFree hint tries number →
        supply.taken (supply.numbered hint other) = true) ∧
      (supply.taken (supply.numbered hint (supply.firstFree hint tries number)) = true →
        supply.firstFree hint tries number = number + tries) := by
  induction tries generalizing number with
  | zero => exact ⟨le_rfl, le_rfl, fun other le lt => absurd lt (not_lt.2 le), fun _ => rfl⟩
  | succ tries ih =>
    rw [firstFree]
    split
    · next first =>
      obtain ⟨above, below, passed, ended⟩ := ih (number + 1)
      refine ⟨(Nat.le_succ number).trans above, by omega, fun other le lt => ?_, fun stuck => ?_⟩
      · rcases Nat.eq_or_lt_of_le le with rfl | later
        · exact first
        · exact passed other later lt
      · rw [ended stuck]
        omega
    · next free =>
      exact ⟨le_rfl, by omega, fun other le lt => absurd lt (not_lt.2 le),
        fun stuck => absurd stuck free⟩

theorem firstFree_free {tries : Nat}
    (enough : (supply.reserved ++ supply.issued).toFinset.card ≤ tries) (number : Nat) :
    supply.taken (supply.numbered hint (supply.firstFree hint tries number)) = false := by
  rw [← Bool.not_eq_true]
  intro stuck
  obtain ⟨-, -, passed, ended⟩ := supply.firstFree_passes hint tries number
  have met (more : Nat) (le : more ≤ tries) :
      supply.taken (supply.numbered hint (number + more)) = true := by
    rcases Nat.eq_or_lt_of_le le with rfl | lt
    · rwa [← ended stuck]
    · exact passed _ (Nat.le_add_right number more) (by rw [ended stuck]; omega)
  -- one more name than there are taken names, all different and all taken
  let names := (List.range (tries + 1)).map fun more => supply.numbered hint (number + more)
  have distinct : names.Nodup :=
    nodup_range.map fun left right same =>
      Nat.add_left_cancel (numbered_injective supply hint same)
  have inside : names.toFinset ⊆ (supply.reserved ++ supply.issued).toFinset := by
    intro name member
    obtain ⟨more, there, rfl⟩ := mem_map.1 (mem_toFinset.1 member)
    exact mem_toFinset.2 (taken_iff.1 (met more (Nat.lt_succ_iff.1 (mem_range.1 there))))
  have few := Finset.card_le_card inside
  rw [toFinset_card_of_nodup distinct, length_map, length_range] at few
  omega

theorem card_taken_le (supply : NameSupply) : (supply.reserved ++ supply.issued).toFinset.card ≤
      supply.reserved.length + supply.issued.length :=
  (toFinset_card_le _).trans_eq length_append

theorem firstFree_not_taken (supply : NameSupply) (hint : String) (number : Nat) :
    supply.taken (supply.numbered hint (supply.firstFree hint
      (supply.reserved.length + supply.issued.length) number)) = false :=
  firstFree_free supply.card_taken_le number

theorem Sound.issue (sound : supply.Sound) {name : String} (free : supply.taken name = false) :
    (supply.issue name).Sound := by
  have free : name ∉ supply.reserved ++ supply.issued := by
    rw [← taken_iff, free]
    exact Bool.false_ne_true
  rw [mem_append, not_or] at free
  constructor
  · intro other member
    rcases mem_append.1 member with member | member
    · exact sound.unreserved other member
    · rw [mem_singleton.1 member]
      exact free.1
  · have distinct := sound.distinct.concat free.2
    rwa [concat_eq_append] at distinct

theorem Sound.setCounter (sound : supply.Sound) (hint : String) (number : Nat) :
    (supply.setCounter hint number).Sound := ⟨sound.unreserved, sound.distinct⟩

/-- A supply with the usual start that has issued sound names. -/
structure Ready (supply : NameSupply) : Prop where
  start : supply.start = "_lift_"
  sound : supply.Sound

/-- A new name and the supply after it. -/
structure Issues (supply : NameSupply) (taken : String × NameSupply) : Prop where
  named : isName taken.1 = true
  ready : taken.2.Ready
  reserved : taken.2.reserved = supply.reserved
  issued : taken.2.issued = supply.issued ++ [taken.1]

theorem Ready.fresh (ready : supply.Ready) (valid : isHint hint = true) :
    supply.Issues (supply.fresh hint) where
  named := by
    rw [NameSupply.fresh, numbered, ready.start, String.append_assoc, String.append_assoc]
    exact isName_generated (isHint_append valid (isHint_append rfl (isHint_toString _)))
  ready := ⟨ready.start, (ready.sound.setCounter hint _).issue
    (firstFree_not_taken supply hint (supply.counter hint + 1))⟩
  reserved := rfl
  issued := rfl

theorem Ready.fixed (ready : supply.Ready) (valid : isHint hint = true) :
    supply.Issues (supply.fixed hint) := by
  simp only [NameSupply.fixed]
  split
  · exact ready.fresh valid
  · next free =>
    refine ⟨?_, ⟨ready.start, ready.sound.issue (by simpa using free)⟩, rfl, rfl⟩
    rw [ready.start]
    exact isName_generated valid

end NameSupply

theorem mem_identifiers {program : PlainProgram} {node : PlainNode} {name : String}
    (member : node ∈ walkStmts program) (spelled : node.identifier? = some name) :
    name ∈ identifiers program := by
  rw [identifiers, mem_eraseDups]
  exact mem_filterMap.2 ⟨node, member, spelled⟩

/-- Names that were issued soundly do not collide. -/
theorem verifyNames_ok {reserved : List String} {names : List String} : ∀ {seen : List String},
    (∀ name ∈ names, name ∉ reserved) → (∀ name ∈ names, name ∉ seen) → names.Nodup →
    verifyNames seen reserved names = .ok () := by
  induction names with
  | nil => exact fun _ _ _ => rfl
  | cons first rest ih =>
    intro seen unreserved unseen distinct
    obtain ⟨firstUnreserved, restUnreserved⟩ := forall_mem_cons.1 unreserved
    obtain ⟨firstUnseen, restUnseen⟩ := forall_mem_cons.1 unseen
    obtain ⟨firstNew, restDistinct⟩ := nodup_cons.1 distinct
    rw [verifyNames, if_neg (by simpa using firstUnreserved), if_neg (by simpa using firstUnseen)]
    refine ih restUnreserved (fun name member => ?_) restDistinct
    rw [mem_cons, not_or]
    exact ⟨fun same => firstNew (same ▸ member), restUnseen name member⟩

end Hoist
