import Hoist.Eval.Evaluate
import Hoist.Proofs.Eval.Reach

/-!
Variables of frames, and what simple steps of evaluation do.
-/

namespace Hoist

theorem lookup_assign {α : Type} (key other : String) (value : α) (entries : List (String × α)) :
    (assign key value entries).lookup other =
      if other = key then some value else entries.lookup other := by
  induction entries with
  | nil =>
    by_cases same : other = key
    · simp [assign, same]
    · simp [assign, List.lookup_cons, beq_false_of_ne same, same]
  | cons first rest ih =>
    obtain ⟨name, old⟩ := first
    by_cases same : name = key
    · subst same
      by_cases isKey : other = name
      · simp [assign, isKey]
      · simp [assign, List.lookup_cons, beq_false_of_ne isKey, isKey]
    · by_cases isName : other = name
      · subst isName
        simp [assign, same]
      · simp [assign, List.lookup_cons, same, beq_false_of_ne isName, ih]

/-- The value of a variable of a frame. -/
def Store.slot? (store : Store) (frame : FrameId) (name : String) : Option Value :=
  (store.frames.getD frame []).lookup name

/-- The store after an assignment to a variable of a frame. -/
def Store.define (store : Store) (frame : FrameId) (name : String) (value : Value) : Store :=
  { store with frames := store.frames.modify frame (assign name value) }

theorem Store.slot?_define {store : Store} {frame : FrameId} (exists' : frame < store.frames.size)
    (name other : String) (value : Value) :
    (store.define frame name value).slot? frame other =
      if other = name then some value else store.slot? frame other := by
  rw [slot?, define, frames_modify, if_pos ⟨rfl, exists'⟩, lookup_assign]
  rfl

/-- A new integer is made without further changes. -/
theorem Run.newInt_eq (value : Int) (store : Store) :
    ∃ id made, Run.newInt value store = (.ok (.int value id), { store with made }) := by
  unfold Run.newInt
  split
  · exact ⟨.shared, store.made, rfl⟩
  · exact ⟨.made store.made, store.made + 1, rfl⟩

namespace Evaluate

variable {context : Context} {env : Environment} {store after : Store} {tree : PlainExpr}
  {value : Value}

theorem exprs_single (plain : isSplat tree = false)
    (ran : expr context env tree store = (.ok value, after)) :
    exprs context env [tree] store = (.ok [value], after) := by
  cases tree
  case splat => cases plain
  all_goals exact (steps_bind ran).trans rfl

theorem send_index (context : Context) {address : Address} {place : Nat} (id : Identity)
    {item : Value} (found : (store.arrays.items address)[place]? = some item) :
    send context (.array address) "[]" [.int place id] none store = (.ok item, store) := by
  obtain ⟨inside, isItem⟩ := Array.getElem?_eq_some_iff.1 found
  have isPlace : Index.place? (store.arrays.items address).size place = some place := by
    simp only [Index.place?, Int.ofNat_eq_natCast]
    rw [if_neg (by omega), if_neg (by omega), Int.toNat_natCast]
  have select : Index.select (store.arrays.items address).size [.int place id] store =
      (.ok (.item place), store) := by
    have arg : Run.intArg (.int place id) store = (.ok (place : Int), store) := rfl
    refine (steps_bind arg).trans ?_
    rw [isPlace]
    rfl
  change (Index.select (store.arrays.items address).size [.int place id] >>= _) store = _
  rw [steps_bind select]
  dsimp only
  rw [Array.getD_eq_getD_getElem?, found]
  rfl

end Evaluate

end Hoist
