import Hoist.Sorting.Search
import Hoist.Proofs.Eval.Computed

/-!
Searches find the first place that does not pass, if those that pass come before those that do not.
This and all that is proved of sorting holds of comparisons that are right; where `exact` does not
hold nothing is known of their answers.
-/

namespace Hoist.Sorting

open List

variable {α ε : Type} {fails : ε → Prop} {exact : Prop}

/-- A test, whose answer is right if all are. -/
abbrev Tells (fails : ε → Prop) (exact right : Prop) (test : Except ε Bool) : Prop :=
  Gives fails (fun answer => exact → (answer = true ↔ right)) test

theorem Tells.negated {right : Prop} {test : Except ε Bool} (tells : Tells fails exact right test) :
    Tells fails exact (¬right) (negated test) := by
  refine Gives.map tells fun answer isRight holds => ?_
  rw [← isRight holds]
  cases answer <;> simp

section Narrowing

variable {cut : Nat → Nat} {test : Nat → Except ε Bool} {bound : Nat}
  (tells : ∀ place, Tells fails exact (place < bound) (test place))
include tells

theorem gives_narrow (cuts : ∀ length, 0 < length → cut length < length) (fuel low high : Nat)
    (enough : high ≤ fuel + low) (above : exact → low ≤ bound) (below : exact → bound ≤ high) :
    Gives fails (fun place => exact → place = bound) (narrow cut test fuel low high) := by
  induction fuel generalizing low high with
  | zero => exact fun holds => le_antisymm (above holds) ((below holds).trans (by omega))
  | succ fuel ih =>
    unfold narrow
    split
    next =>
      have := cuts (high - low) (by omega)
      refine (tells (low + cut (high - low))).bind fun passes isRight => ?_
      split
      next passed => exact ih _ _ (by omega) (fun holds => (isRight holds).1 passed) below
      next failed =>
        exact ih _ _ (by omega) above fun holds => not_lt.1 (mt (isRight holds).2 failed)
    next shut =>
      exact fun holds => le_antisymm (above holds) ((below holds).trans (not_lt.1 shut))

theorem gives_stride {count : Nat} (few : bound ≤ count) (fuel last next : Nat)
    (enough : count < fuel + next) (above : exact → last < bound) :
    Gives fails (fun found => exact → found.1 < bound ∧ bound ≤ found.2)
      (stride count test fuel last next) := by
  induction fuel generalizing last next with
  | zero => exact fun holds => ⟨above holds, by omega⟩
  | succ fuel ih =>
    unfold stride
    split
    next =>
      refine (tells next).bind fun passes isRight => ?_
      split
      next passed => exact ih _ _ (by omega) fun holds => (isRight holds).1 passed
      next failed => exact fun holds => ⟨above holds, not_lt.1 (mt (isRight holds).2 failed)⟩
    next => exact fun holds => ⟨above holds, few⟩

end Narrowing

theorem upperHalf_lt (length : Nat) (positive : 0 < length) : upperHalf length < length :=
  Nat.div_lt_self positive (by decide)

theorem lowerHalf_lt (length : Nat) (positive : 0 < length) : lowerHalf length < length := by
  unfold lowerHalf
  omega

section Passing

variable {passes : α → Prop} {items : List α}

/-- Items that pass come before those that do not. -/
abbrev Leads (passes : α → Prop) (items : List α) : Prop :=
  items.Pairwise fun one other => passes other → passes one

/-- Of some items only the first `count` pass. -/
structure Parts (passes : α → Prop) (items : List α) (count : Nat) : Prop where
  passed : ∀ item ∈ items.take count, passes item
  failed : ∀ item ∈ items.drop count, ¬passes item

variable [DecidablePred passes]

theorem Leads.getElem_iff (leads : Leads passes items) {place : Nat} {item : α}
    (found : items[place]? = some item) :
    passes item ↔ place < (items.takeWhile (passes ·)).length := by
  induction items generalizing place with
  | nil => cases found
  | cons first rest ih =>
    obtain ⟨before, leadsRest⟩ := pairwise_cons.1 leads
    rw [takeWhile_cons]
    by_cases passed : passes first
    · cases place with
      | zero => cases found; simp [passed]
      | succ place => simpa [passed] using ih leadsRest found
    · refine iff_of_false (fun pass => passed ?_) (by simp [passed])
      cases place with
      | zero => cases found; exact pass
      | succ place => exact before item (mem_of_getElem? found) pass

theorem Leads.parts (leads : Leads passes items) :
    Parts passes items (items.takeWhile (passes ·)).length := by
  constructor <;> intro item member <;> obtain ⟨place, found⟩ := getElem?_of_mem member
  · rw [getElem?_take, Option.ite_none_right_eq_some] at found
    exact (leads.getElem_iff found.2).2 found.1
  · rw [getElem?_drop] at found
    rw [leads.getElem_iff found]
    omega

variable (passes) {test : α → Except ε Bool} {cut : Nat → Nat}
  (tells : ∀ item ∈ items, Tells fails exact (passes item) (test item))
  (leads : exact → Leads passes items)
include tells leads

theorem tells_testAt (place : Nat) :
    Tells fails exact (place < (items.takeWhile (passes ·)).length) (testAt test items place) := by
  unfold testAt
  cases found : items[place]? with
  | none =>
    have beyond := ( takeWhile_prefix (passes ·)).length_le.trans (getElem?_eq_none_iff.1 found)
    exact fun _ => iff_of_false Bool.false_ne_true (not_lt.2 beyond)
  | some item =>
    refine (tells item (mem_of_getElem? found)).mono (fun answer isRight holds => ?_) fun _ => id
    rw [isRight holds, (leads holds).getElem_iff found]

variable (cuts : ∀ length, 0 < length → cut length < length)
include cuts

theorem gives_leading : Gives fails (fun found => exact → Parts passes items found)
    (leading cut test items) := by
  have tells := tells_testAt passes tells leads
  refine (tells 0).bind fun passes isRight => ?_
  split
  next passed =>
    refine (gives_stride tells ( takeWhile_prefix _).length_le _ 0 1 (Nat.lt_succ_self _)
      fun holds => (isRight holds).1 passed).bind fun found ends => ?_
    exact (gives_narrow tells cuts _ _ _ (Nat.le_add_right ..) (fun holds => (ends holds).1)
      fun holds => (ends holds).2).mono
      (fun found isBound holds => isBound holds ▸ (leads holds).parts) fun _ => id
  next failed =>
    intro holds
    have none := Nat.eq_zero_of_not_pos (mt (isRight holds).2 failed)
    exact none ▸ (leads holds).parts

theorem gives_narrowItems : Gives fails (fun found => exact → Parts passes items found)
    (narrow cut (testAt test items) items.length 0 items.length) :=
  (gives_narrow (tells_testAt passes tells leads) cuts _ 0 _ le_rfl (fun _ => Nat.zero_le _)
    fun _ => ( takeWhile_prefix _).length_le).mono
    (fun _ isBound holds => isBound holds ▸ (leads holds).parts) fun _ => id

end Passing

end Hoist.Sorting
