import Hoist.Proofs.Eval.Frames

/-!
Reading and writing by index.  A value stored at an index changes that one place of the array, which
grows with nil where it is too short; an index before the first item, or a growth that no memory
holds, leaves the array as it is.  A range selects what its start and a count select, in arrays and
in strings.
-/

namespace Hoist

variable {context : Context} {store : Store} {address : Address}

namespace Index

/-- The place that an index denotes among `length` items, or would denote if there were more. -/
def position (length : Nat) (index : Int) : Int := if index < 0 then index + length else index

/-- An array after a value has been stored at a place of it. -/
structure Written (items : Array Value) (place : Nat) (value : Value) (after : Array Value) :
    Prop where
  size : after.size = max items.size (place + 1)
  stored : after[place]? = some value
  others : ∀ other < items.size, other ≠ place → after[other]? = items[other]?
  gaps : ∀ other < place, items.size ≤ other → after[other]? = some .nil

theorem store?_written {items : Array Value} {index : Int} (value : Value)
    (inside : 0 ≤ position items.size index) :
    ∃ after, store? items index value = some after ∧
      Written items (position items.size index).toNat value after := by
  refine ⟨_, if_neg (not_lt.2 inside), ?_⟩
  change Written items (position items.size index).toNat value
    ((items ++ Array.replicate ((position items.size index).toNat + 1 - items.size)
      Value.nil).setIfInBounds (position items.size index).toNat value)
  generalize (position items.size index).toNat = place
  have size : (items ++ Array.replicate (place + 1 - items.size) Value.nil).size =
      max items.size (place + 1) := by
    simp only [Array.size_append, Array.size_replicate]
    omega
  constructor
  · rw [Array.size_setIfInBounds, size]
  · rw [Array.getElem?_setIfInBounds_self_of_lt (by omega)]
  · intro other old different
    rw [Array.getElem?_setIfInBounds_ne different.symm, Array.getElem?_append_left old]
  · intro other before new
    rw [Array.getElem?_setIfInBounds_ne before.ne', Array.getElem?_append_right new,
      Array.getElem?_replicate, if_pos (by omega)]

theorem rangeSlice?_eq (length : Nat) (start stop : Int) (exclusive : Bool) :
    rangeSlice? length start (some stop) exclusive =
      if position length start < 0 ∨ length < position length start then none
      else some ((position length start).toNat, max (position length start).toNat
        (min (length : Int) (position length stop + if exclusive then 0 else 1)).toNat) := by
  cases exclusive <;> simp [rangeSlice?, position]

/-- A count of items selects the part that ends there, or where the items do. -/
theorem slice?_eq {length : Nat} {start : Int} (inside : ¬(position length start < 0 ∨
    length < position length start)) (ending : Int) :
    slice? length start (max 0 (ending - position length start)) =
      some ((position length start).toNat,
        max (position length start).toNat (min (length : Int) ending).toNat) := by
  have starts : slice? length start (max 0 (ending - position length start)) =
      some ((position length start).toNat,
        min length (position length start + max 0 (ending - position length start)).toNat) :=
    if_neg (by change ¬(position length start < 0 ∨
      (length : Int) < position length start ∨ _); omega)
  rw [starts, Option.some_inj, Prod.mk_right_inj]
  omega

end Index

open Index

/-- What storing at an index does: it fails before the first item and where no memory holds the
array, and else the value stands at its place. -/
def StoresAt (context : Context) (store : Store) (address : Address) (index : Int) (id : Identity)
    (value : Value) : Prop :=
  let items := store.arrays.items address
  let place := position items.size index
  let outcome := send context (.array address) "[]=" [.int index id, value] none store
  if place < 0 then
    ∃ signal, outcome = (.error signal, store) ∧
      (index.natAbs < 10 ^ Decimal.maxIntegerDigits → ∃ message, signal =
        .raised "IndexError" message)
  else if context.Holds (place + 1 - items.size).toNat then
    ∃ after, outcome = (.ok value, after) ∧
      Written items place.toNat value (after.arrays.items address) ∧
      (∀ other ≠ address, after.arrays.items other = store.arrays.items other) ∧
      ∀ id, send context (.array address) "[]" [.int place id] none after = (.ok value, after)
  else ∃ fault, outcome = (.error (.fault fault), store)

/-- Selecting by a range of integers from a receiver of some length: nothing if the range starts
outside it, and else what the start and a count select, which is the part `isPart`. -/
def SlicesBy (context : Context) (store : Store) (receiver : Value) (length : Nat)
    (isPart : (start stop : Nat) → Except Signal Value × Store → Prop) : Prop :=
  ∀ (start stop : Int) (exclusive : Bool) (startId stopId rangeId firstId countId : Identity),
    let first := position length start
    let ending := position length stop + if exclusive then 0 else 1
    let outcome := send context receiver "[]"
      [.range (.int start startId) (.int stop stopId) exclusive rangeId] none store
    if first < 0 ∨ length < first then outcome = (.ok .nil, store)
    else
      outcome = send context receiver "[]"
        [.int start firstId, .int (max 0 (ending - first)) countId] none store ∧
      isPart first.toNat (min (length : Int) ending).toNat outcome

/-- A new array with the items from one place up to another. -/
def IsArrayPart (store : Store) (items : Array Value) (start stop : Nat)
    (outcome : Except Signal Value × Store) : Prop :=
  outcome = (.ok (.array store.arrays.size),
    { store with arrays := store.arrays.push (items.extract start stop) })

/-- A string with the code points from one place up to another. -/
def IsTextPart (store : Store) (text : Text) (start stop : Nat)
    (outcome : Except Signal Value × Store) : Prop :=
  ∃ object after, outcome = (.ok (.str object), after) ∧ object.text = text.part start stop ∧
    after.arrays = store.arrays

theorem Array.extract_max {α : Type} (items : Array α) (start stop : Nat) :
    items.extract start (max start stop) = items.extract start stop := by
  rcases le_total start stop with le | le
  · rw [max_eq_right le]
  · rw [max_eq_left le]
    simp [le]

theorem Draft.text_cut (object : TextObject) (start stop : Nat) :
    (Draft.cut object start stop).text = object.text.part start stop := by
  unfold cut
  split
  · next whole =>
    obtain ⟨rfl, le⟩ := whole
    exact congrArg Text.mk (Array.extract_eq_self_of_le le).symm
  · rfl

theorem slicesBy_of_select {receiver : Value} {length : Nat} {make : Selection → Run Value}
    {isPart : (start stop : Nat) → Except Signal Value × Store → Prop}
    (selects : ∀ args, send context receiver "[]" args none store =
      (Index.select length args >>= make) store) (nothing : make .nothing store = (.ok .nil, store))
    (parts : ∀ start stop, isPart start stop (make (.part start (max start stop)) store)) :
    SlicesBy context store receiver length isPart := by
  intro start stop exclusive startId stopId rangeId firstId countId
  have byRange : Index.select length
      [.range (.int start startId) (.int stop stopId) exclusive rangeId] store =
        (.ok (.ofPart? (rangeSlice? length start (some stop) exclusive)), store) := rfl
  have byCount (count : Int) : Index.select length [.int start firstId, .int count countId] store =
      (.ok (.ofPart? (slice? length start count)), store) := rfl
  rw [rangeSlice?_eq] at byRange
  dsimp only
  split
  · next outside =>
    rw [if_pos outside] at byRange
    rw [selects, steps_bind byRange]
    exact nothing
  · next inside =>
    rw [if_neg inside] at byRange
    rw [selects, selects, steps_bind byRange, steps_bind (byCount _), slice?_eq inside]
    exact ⟨rfl, parts _ _⟩

theorem slicesBy_array (context : Context) (store : Store) (address : Address) :
    SlicesBy context store (.array address) (store.arrays.items address).size
      (IsArrayPart store (store.arrays.items address)) := by
  refine slicesBy_of_select (fun args => rfl) rfl fun start stop => ?_
  rw [IsArrayPart, ← Array.extract_max]
  rfl

theorem slicesBy_text (context : Context) (store : Store) (object : TextObject) :
    SlicesBy context store (.str object) object.text.length (IsTextPart store object.text) := by
  refine slicesBy_of_select (fun args => rfl) rfl fun start stop => ?_
  have text : (Draft.cut object start (max start stop)).text = object.text.part start stop := by
    rw [Draft.text_cut, Text.part, Array.extract_max]
    rfl
  revert text
  change _ → IsTextPart store object.text start stop
    (Run.newString (Draft.cut object start (max start stop)) store)
  obtain ⟨text, _ | id⟩ := Draft.cut object start (max start stop)
  · exact fun text => ⟨_, _, rfl, text, rfl⟩
  · exact fun text => ⟨_, _, rfl, text, rfl⟩

theorem send_store (context : Context) (store : Store) (address : Address) (index : Int)
    (id : Identity) (value : Value) :
    send context (.array address) "[]=" [.int index id, value] none store =
      (let stores : Run Value := do
        context.checkSize (index + 1 - (store.arrays.items address).size).toNat
        Run.modifyArray address fun items => (store? items index value).getD items
        return value
      if index + (store.arrays.items address).size < 0 then do
        let text ← Run.ofExcept (intText index)
        let _ : Unit ← Run.raise "IndexError" ("index " ++ text ++ " too small for array")
        stores
      else stores) store := rfl

theorem intText_ok {value : Int} (short : value.natAbs < 10 ^ Decimal.maxIntegerDigits) :
    ∃ text, intText value = .ok text := by
  have digits : (toString value.natAbs).length ≤ Decimal.maxIntegerDigits :=
    (Nat.length_repr_le_iff (by decide)).2 short
  rw [intText, Decimal.intText?, if_pos digits]
  exact ⟨_, rfl⟩

theorem storesAt (inside : address < store.arrays.size) (index : Int) (id : Identity)
    (value : Value) : StoresAt context store address index id value := by
  have signs : position (store.arrays.items address).size index < 0 ↔
      index + (store.arrays.items address).size < 0 := by
    unfold position
    split <;> omega
  unfold StoresAt
  simp only [send_store, signs]
  split
  · cases shown : intText index with
    | error signal =>
      refine ⟨signal, rfl, fun short => ?_⟩
      obtain ⟨text, isText⟩ := intText_ok short
      cases shown.symm.trans isText
    | ok text => exact ⟨_, rfl, fun _ => ⟨_, rfl⟩⟩
  next from' =>
  have gap : (index + 1 - (store.arrays.items address).size).toNat =
      (position (store.arrays.items address).size index + 1 -
        (store.arrays.items address).size).toNat := by
    unfold position
    split <;> omega
  split
  · next fits =>
    rw [gap, steps_bind (Context.checkSize_ok fits store)]
    obtain ⟨after, stored, written⟩ := store?_written value (not_lt.1 (signs.not.2 from'))
    have items : Heap.items (store.arrays.modify address fun items =>
        (store? items index value).getD items) address = after := by
      rw [Heap.items_modify, if_pos ⟨rfl, inside⟩, stored]
      rfl
    refine ⟨_, rfl, items ▸ written, fun other different => ?_, fun id => ?_⟩
    · exact (Heap.items_modify _ _ address other).trans (if_neg fun same => different same.1.symm)
    · rw [← Int.toNat_of_nonneg (not_lt.1 (signs.not.2 from'))]
      exact Evaluate.send_index context id ((congrArg (·[_]?) items).trans written.stored)
  · next large =>
    obtain ⟨fault, refused⟩ := Context.checkSize_refused large
    rw [gap]
    exact ⟨fault, steps_bind_error (refused store)⟩

/-- The laws of indexing.  Storing is described for every index, and reading by a range for all
integers, for an array of the store and for a string. -/
theorem indexing_laws (context : Context) {store : Store} {address : Address}
    (inside : address < store.arrays.size) (object : TextObject) :
    (∀ index id value, StoresAt context store address index id value) ∧
      SlicesBy context store (.array address) (store.arrays.items address).size
        (IsArrayPart store (store.arrays.items address)) ∧
      SlicesBy context store (.str object) object.text.length (IsTextPart store object.text) :=
  ⟨storesAt inside, slicesBy_array context store address, slicesBy_text context store object⟩

/-- Beyond its end an array of two grows. -/
theorem indexing_laws_beyond_end : 0 < (#[#[.nil, .nil]] : Heap).size ∧
      ∃ after, send (Limits.context {}) (.array 0) "[]=" [.int 4 .shared, .bool true] none
          { arrays := #[#[.nil, .nil]] } = (.ok (.bool true), after) ∧
        (after.arrays.items 0).size = 5 := by
  refine ⟨by decide, ?_⟩
  obtain ⟨after, ran, written, -⟩ := (@indexing_laws (Limits.context {})
    { arrays := #[#[.nil, .nil]] } 0 (by decide) ⟨"ab", .shared⟩).1 4 .shared (.bool true)
  exact ⟨after, ran, written.size⟩

/-- Not every index at or after the first item can be stored at, even in a memory that would hold
what the write adds. -/
theorem store_beyond_memory :
    send (Limits.context { memory := 2 ^ 100 }) (.array 0) "[]=" [.int (2 ^ 70) .shared, .nil] none
      { arrays := #[#[]] } = (.error (.fault .numberTooLarge), { arrays := #[#[]] }) := rfl

end Hoist
