import Hoist.Proofs.Eval.Confined
import Hoist.Proofs.Sorting.Runs

/-!
The operators and the methods of arrays are confined, if the calls that they make are.
-/

namespace Hoist

open List

open Run

variable {hidden : Hidden} {store after : Store} {out : JumpKind → Prop} {ρ : Type}

/-- The calls that a built-in method can make are confined: those of its block and of procs. -/
structure Context.Confined (hidden : Hidden) (out : JumpKind → Prop) (block : Option Address)
    (context : Context) : Prop where
  yield : ∀ {store : Store} {args : List Value}, AllKnown hidden store args →
    Run.Knows hidden out store (context.yield block args)
  callProc : ∀ {store : Store} {address : Address} {isLambda : Bool} {args : List Value},
    (Value.proc address isLambda).Known hidden store → AllKnown hidden store args →
      Run.Knows hidden out store (context.callProc address args)

def Builtin.Confined (hidden : Hidden) (out : JumpKind → Prop) (known : Store → ρ → Prop)
    (method : Builtin ρ) : Prop :=
  ∀ (context : Context) (store : Store) (receiver : ρ) (args : List Value)
    (block : Option Address), context.Confined hidden out block → known store receiver →
    AllKnown hidden store args → Run.Knows hidden out store (method context receiver args block)

def BuiltinTable.Confined (hidden : Hidden) (out : JumpKind → Prop) (known : Store → ρ → Prop)
    (table : BuiltinTable ρ) : Prop := ∀ entry ∈ table, Builtin.Confined hidden out known entry.2

variable {value right left : Value} {others : List Value} {context : Context}

section Context

theorem asks_equal : Asks hidden (fun _ => True) store (context.equal left right) :=
  asks_reading fun _ => calm_equal _ _ left right

theorem asks_compare : Asks hidden (fun _ => True) store (context.compare left right) :=
  asks_reading fun _ => calm_compare _ _ left right

theorem asks_inspect : Asks hidden (fun _ => True) store (context.inspect value) :=
  asks_reading fun _ => calm_inspect _ _ value

theorem asks_toText : Asks hidden (fun _ => True) store (context.toText value) :=
  asks_reading fun _ => calm_toText _ _ value

theorem confined_toTextObject : Run.Stays hidden out store (context.toTextObject value) :=
  (asks_reading fun _ => calm_toDraft _ _ value).bind fun _ _ => confined_newText _

theorem Context.Confined.test {block : Option Address}
    (confined : context.Confined hidden out block)
    {args : List Value} (known : AllKnown hidden store args) :
    Run.Stays hidden out store (context.test block args) :=
  (confined.yield known).bind fun _ _ _ _ => .pure trivial

end Context

variable {items : Array Value}

theorem known_extract (known : ∀ item ∈ items, item.Known hidden store) (start stop : Nat) :
    ∀ item ∈ items.extract start stop, item.Known hidden store := by
  intro item member
  obtain ⟨place, _, found⟩ := Array.mem_extract_iff_getElem.1 member
  exact known item (found ▸ Array.getElem_mem _)

theorem allKnown_toList (known : ∀ item ∈ items, item.Known hidden store) :
    AllKnown hidden store items.toList :=
  fun item member => known item (Array.mem_toList_iff.1 member)

variable {value : Value}

namespace Operator

variable {op : BinaryOp}

variable {α : Type} {post : Store → α → Prop}

theorem confined_undefined (name : String) (receiver : Value) :
    Run.Confined hidden out post store (undefined name receiver) := .raise _ _

theorem confined_numeric {receiver : Value} (known : receiver.Known hidden store)
    (left right : Number) : Run.Knows hidden out store (numeric op receiver left right) := by
  unfold numeric
  split
  next result isArithmetic =>
    exact (asks_ofExcept (calm_arithmetic op left right isArithmetic)).bind fun _ _ =>
      confined_newNumber known _
  next =>
    split
    · exact .pure trivial
    · exact confined_undefined _ _

theorem confined_incomparable :
    Run.Confined hidden out post store (incomparable context left right) :=
  asks_inspect.bind fun _ _ => .raise _ _

theorem confined_uncoercible :
    Run.Confined hidden out post store (uncoercible context op left right) := by
  unfold uncoercible
  split
  · exact confined_incomparable
  · exact .raise _ _

theorem asks_formatValues : Asks hidden (fun _ => True) store (formatValues value) := by
  unfold formatValues
  split
  · exact asks_contents.then fun _ _ => .pure trivial
  · exact .pure trivial

theorem confined_onString (left : TextObject) :
    Run.Knows hidden out store (onString context op left right) := by
  unfold onString
  split
  · exact confined_newString _
  · exact .raise _ _
  · exact (Asks.raise _ _).guard ((Asks.fault _).guard
      ((asks_checkSize _ _).bind fun _ _ => confined_newString _))
  · exact .raise _ _
  · exact asks_formatValues.bind fun values _ => (asks_reading fun _ =>
      Format.calm_format _ _ _ values).bind fun _ _ => confined_newString _
  · split
    · exact .pure trivial
    · exact confined_undefined _ _
  · split
    · exact confined_incomparable
    · exact confined_undefined _ _

theorem asks_difference (items : List Value) :
    Asks hidden (fun kept => ∀ item ∈ kept, item ∈ items) store
      (difference context items others) := by
  refine asks_reading fun _ => gives_filterM (fun item => ?_) items
  exact (calm_anyM (calm_equal _ _ item) others).bind fun _ _ => trivial

theorem confined_onArray {left : Address} (shown : ¬hidden.arrays left)
    (known : right.Known hidden store) :
    Run.Knows hidden out store (onArray context op left right) := by
  unfold onArray
  split
  · exact (asks_items shown).bind fun _ leftKnown => (asks_items known.2).bind fun _ rightKnown =>
      confined_newArray fun item member =>
        (Array.mem_append.1 member).elim (leftKnown item) (rightKnown item)
  · exact .raise _ _
  · exact (asks_items shown).bind fun _ known => asks_contents.bind fun _ _ =>
      (asks_difference _).bind fun _ among =>
        confined_newList ((allKnown_toList known).subset among)
  · exact .raise _ _
  · exact asks_contents.bind fun _ _ => (asks_reading fun _ => calm_joined _ _ _ _).bind
      fun _ _ => confined_newString _
  · refine (asks_items shown).bind fun items leftKnown => (Asks.fault _).guard
      ((Asks.fault _).guard (confined_newList ?_))
    split
    · exact allKnown_nil
    · rintro item member
      obtain ⟨_, isCopy, member⟩ := mem_flatten.1 member
      rw [(mem_replicate.1 isCopy).2] at member
      exact leftKnown item (Array.mem_toList_iff.1 member)
  · exact confined_undefined _ _

theorem confined_binary (op : BinaryOp) (leftKnown : left.Known hidden store)
    (rightKnown : right.Known hidden store) :
    Run.Knows hidden out store (binary context op left right) := by
  unfold binary
  split
  · exact asks_equal.bind fun _ _ => .pure trivial
  · exact asks_equal.bind fun _ _ => .pure trivial
  split
  · exact confined_numeric leftKnown _ _
  · exact confined_uncoercible
  split
  · exact confined_onString _
  · exact confined_onArray leftKnown.2 rightKnown
  · exact confined_undefined _ _

theorem confined_unary (op : UnaryOp) {operand : Value} (known : operand.Known hidden store) :
    Run.Knows hidden out store (unary op operand) := by
  unfold unary
  split
  · exact .pure trivial
  · exact .pure trivial
  · split
    · exact confined_newNumber known _
    · exact confined_undefined _ _
  · exact confined_undefined _ _

end Operator

theorem lasting_known : Lasting hidden (Value.Known hidden) :=
  fun _ _ _ grows known => known.mono grows

theorem lasting_allKnown : Lasting hidden (AllKnown hidden) :=
  fun _ _ _ grows known => known.mono grows

theorem known_getD (known : ∀ item ∈ items, item.Known hidden store)
    (place : Nat) : (items.getD place .nil).Known hidden store := by
  rw [Array.getD_eq_getD_getElem?]
  cases found : items[place]? with
  | none => trivial
  | some item => exact known item (Array.mem_of_getElem? found)

theorem known_store? (known : ∀ item ∈ items, item.Known hidden store)
    (valueKnown : value.Known hidden store) (index : Int) :
    ∀ item ∈ (Index.store? items index value).getD items, item.Known hidden store := by
  unfold Index.store?
  generalize (if index < 0 then index + items.size else index) = place
  dsimp only
  split
  · exact known
  · intro item member
    rcases Array.mem_or_eq_of_mem_setIfInBounds member with member | rfl
    · rcases Array.mem_append.1 member with member | member
      · exact known item member
      · rw [(Array.mem_replicate.1 member).2]
        trivial
    · exact valueKnown

namespace ArrayMethod

/-- The array exists and is not hidden. -/
def Shown (hidden : Hidden) (store : Store) (address : Address) : Prop :=
  (Value.array address).Known hidden store

abbrev OnShown (hidden : Hidden) (out : JumpKind → Prop) (method : Builtin Address) : Prop :=
  Builtin.Confined hidden out (Shown hidden) method

variable {address : Address}

theorem asks_list (shown : ¬hidden.arrays address) :
    Asks hidden (AllKnown hidden store) store (list address) :=
  (asks_items shown).then fun _ known => .pure (allKnown_toList known)

theorem confined_elements (known : value.Known hidden store) :
    Run.Confined hidden out (AllKnown hidden) store (elements value) := by
  unfold elements
  split
  · exact (asks_list known.2).confined fun _ known => known
  · exact confined_mapM lasting_known fun _ _ _ _ => confined_newString _
  · exact .fault _

theorem confined_index : OnShown hidden out index := by
  intro context store address args block _ shown _
  refine (asks_items shown.2).bind fun items known => (asks_select _ _).bind fun selection _ => ?_
  split
  · exact .pure trivial
  · exact .pure (known_getD known _)
  · exact confined_newArray (known_extract known _ _)

theorem confined_store : OnShown hidden out ArrayMethod.store := by
  intro context store address args block _ shown known
  refine (asks_checkArity _ _ _).bind fun _ _ => (asks_arg known 0).bind fun index _ =>
    (asks_intArg _).bind fun index _ => (asks_arg known 1).bind fun value valueKnown =>
      asks_size.bind fun size _ => ?_
  have stores : Run.Knows hidden out store (do
      context.checkSize (index + 1 - size).toNat
      Run.modifyArray address fun items => (Index.store? items index value).getD items
      return value) := by
    have stored : Run.Stays hidden out store
        (Run.modifyArray address fun items => (Index.store? items index value).getD items) :=
      confined_modifyArray shown.2 fun guards =>
        known_store? (guards.arrays address shown.2) valueKnown index
    exact (asks_checkSize _ _).bind fun _ _ => stored.bind fun _ _ grows _ =>
      .pure (valueKnown.mono grows)
  dsimp only
  split
  · exact (asks_ofExcept (calm_intText index)).bind fun _ _ =>
      @Asks.bind _ _ _ _ _ _ _ _ (fun _ => True) (.raise _ _) fun _ _ => stores
  · exact stores

theorem confined_first : OnShown hidden out first := by
  intro context store address args block _ shown _
  refine (asks_items shown.2).bind fun items known => ?_
  split
  · exact (asks_intArg _).bind fun _ _ => confined_newArray (known_extract known _ _)
  · exact .pure (known_getD known 0)

theorem known_back (known : ∀ item ∈ items, item.Known hidden store) :
    (items.back?.getD .nil).Known hidden store := by
  cases found : items.back? with
  | none => trivial
  | some item => exact known item (Array.mem_of_back? found)

theorem confined_last : OnShown hidden out last := by
  intro context store address args block _ shown _
  refine (asks_items shown.2).bind fun items known => ?_
  split
  · refine (asks_intArg _).bind fun count _ => ?_
    split
    · exact confined_newArray fun _ member => absurd member (Array.not_mem_empty _)
    · exact confined_newArray (known_extract known _ _)
  · exact .pure (known_back known)

theorem confined_take : OnShown hidden out take := by
  intro context store address args block _ shown known
  exact (asks_items shown.2).bind fun items known' => (asks_arg known 0).bind fun _ _ =>
    (asks_intArg _).bind fun _ _ => confined_newArray (known_extract known' _ _)

theorem confined_drop : OnShown hidden out drop := by
  intro context store address args block _ shown known
  exact (asks_items shown.2).bind fun items known' => (asks_arg known 0).bind fun _ _ =>
    (asks_intArg _).bind fun _ _ => confined_newArray (known_extract known' _ _)

theorem confined_append (shown : Shown hidden store address) (known : AllKnown hidden store others)
    :
    Run.Stays hidden out store
      (Run.modifyArray address fun items => items.appendList others) := by
  refine confined_modifyArray shown.2 fun guards item member => ?_
  rw [← Array.mem_toList_iff, Array.appendList_eq_append, Array.toList_appendList,
    mem_append] at member
  rcases member with member | member
  · exact guards.arrays address shown.2 item (Array.mem_toList_iff.1 member)
  · exact known item member

theorem confined_push : OnShown hidden out push := by
  intro context store address args block _ shown known
  exact (confined_append shown known).bind fun _ _ grows _ => .pure (shown.mono grows)

theorem confined_pop : OnShown hidden out pop := by
  intro context store address args block _ shown _
  refine (asks_items shown.2).bind fun items known => ?_
  refine (confined_modifyArray shown.2 fun guards item member => ?_).bind fun _ _ grows _ =>
    .pure ((known_back known).mono grows)
  rw [← Array.mem_toList_iff, Array.toList_pop] at member
  exact guards.arrays address shown.2 item (Array.mem_toList_iff.1 (mem_of_mem_dropLast member))

theorem confined_shift : OnShown hidden out shift := by
  intro context store address args block _ shown _
  refine (asks_items shown.2).bind fun items known => ?_
  have dropped : Run.Stays hidden out store
      (Run.modifyArray address fun items => items.drop 1) :=
    confined_modifyArray shown.2 fun guards =>
      known_extract (guards.arrays address shown.2) _ _
  refine dropped.bind fun _ _ grows _ => .pure (Value.Known.mono grows ?_)
  cases found : items[0]? with
  | none => trivial
  | some item => exact known item (Array.mem_of_getElem? found)

theorem confined_unshift : OnShown hidden out unshift := by
  intro context store address args block _ shown known
  refine (confined_modifyArray shown.2 fun guards item member => ?_).bind fun _ _ grows _ =>
    .pure (shown.mono grows)
  rcases Array.mem_append.1 member with member | member
  · exact known item (mem_toArray.1 member)
  · exact guards.arrays address shown.2 item member

theorem confined_concatAll (shown : Shown hidden store address)
    (known : AllKnown hidden store others) :
    Run.Stays hidden out store (concatAll address others) := by
  induction others generalizing store with
  | nil => exact .pure trivial
  | cons other rest ih =>
    obtain ⟨otherKnown, restKnown⟩ := allKnown_cons.1 known
    refine (confined_elements otherKnown).bind fun after items grows known => ?_
    refine (confined_append (shown.mono grows) known).bind fun last _ grows' _ => ?_
    exact ih (shown.mono (grows.trans grows')) (restKnown.mono (grows.trans grows'))

theorem confined_concat : OnShown hidden out concat := by
  intro context store address args block _ shown known
  exact (confined_concatAll shown known).bind fun _ _ grows _ => .pure (shown.mono grows)

theorem confined_each : OnShown hidden out each := by
  intro context store address args block confined shown _
  refine confined_overLive (P := fun _ _ => True) shown.2
    (fun _ _ item after _ _ known => ?_) (fun _ after grows _ => shown.mono grows) _ _ _ trivial
  exact (confined.yield (forall_mem_singleton.2 known)).bind fun _ _ _ _ =>
    .pure trivial

variable {block : Option Address}

theorem confined_yieldNumbered (confined : context.Confined hidden out block) (number : Nat)
    {items : List Value} (known : AllKnown hidden store items) :
    Run.Stays hidden out store (yieldNumbered context block number items) := by
  induction items generalizing store number with
  | nil => exact .pure trivial
  | cons item rest ih =>
    obtain ⟨itemKnown, restKnown⟩ := allKnown_cons.1 known
    refine (confined_newInt _).bind fun after number grows numberKnown => ?_
    refine (confined.yield (allKnown_cons.2 ⟨itemKnown.mono grows,
      forall_mem_singleton.2 numberKnown⟩)).bind fun last _ grows' _ => ?_
    exact ih _ (restKnown.mono (grows.trans grows'))

theorem confined_eachWithIndex : OnShown hidden out eachWithIndex := by
  intro context store address args block confined shown _
  exact (asks_list shown.2).bind fun items known =>
    (confined_yieldNumbered confined 0 known).bind fun _ _ grows _ =>
      .pure (shown.mono grows)

theorem confined_yieldSlices (confined : context.Confined hidden out block)
    (shown : ¬hidden.arrays address) (size remaining start : Nat) :
    Run.Stays hidden out store
      (yieldSlices context block address size remaining start) := by
  induction remaining generalizing store start with
  | zero => exact .pure trivial
  | succ remaining ih =>
    refine (asks_items shown).bind fun items known => ?_
    refine (confined_newArray (known_extract known _ _)).bind fun _ part _ partKnown => ?_
    exact (confined.yield (forall_mem_singleton.2 partKnown)).bind fun _ _ _ _ =>
      ih _

theorem confined_eachSlice : OnShown hidden out eachSlice := by
  intro context store address args block confined shown known
  refine (asks_arg known 0).bind fun _ _ => (asks_intArg _).bind fun _ _ => (Asks.raise _ _).guard
    (asks_size.bind fun _ _ => ?_)
  exact (confined_yieldSlices confined shown.2 _ _ _).bind fun _ _ grows _ =>
    .pure (shown.mono grows)

section Walking

variable (confined : context.Confined hidden out block) {items : List Value}
  (known : AllKnown hidden store items)
include confined known

/-- A walk that yields one element after the other. -/
theorem confined_mapYield : Run.Confined hidden out (AllKnown hidden) store
      (items.mapM fun item => context.yield block [item]) :=
  confined_mapM lasting_known fun item member _ grows =>
    confined.yield (forall_mem_singleton.2 ((known item member).mono grows))

theorem confined_filterTest (wanted : Bool) :
    Run.Confined hidden out (fun _ kept => ∀ item ∈ kept, item ∈ items) store
      (items.filterM fun item => return (← context.test block [item]) == wanted) :=
  confined_filterM fun item member _ grows =>
    (confined.test (forall_mem_singleton.2 ((known item member).mono grows))).bind
      fun _ _ _ _ => .pure trivial

end Walking

theorem confined_map : OnShown hidden out map := by
  intro context store address args block confined shown _
  exact (asks_list shown.2).bind fun items known =>
    (confined_mapYield confined known).bind fun _ _ _ known => confined_newList known

theorem asks_spread (known : value.Known hidden store) :
    Asks hidden (AllKnown hidden store) store (spread value) := by
  unfold spread
  split
  · exact asks_list known.2
  · exact .pure (forall_mem_singleton.2 known)

theorem confined_flatMap : OnShown hidden out flatMap := by
  intro context store address args block confined shown _
  refine (asks_list shown.2).bind fun items known => ?_
  refine (confined_mapM lasting_allKnown fun item member after grows => ?_).bind
    fun _ parts _ known => confined_newList (forall_mem_flatten.2 known)
  exact (confined.yield (forall_mem_singleton.2 ((known item member).mono grows))).bind
    fun _ _ _ known => (asks_spread known).confined fun _ known => known

theorem confined_filter (wanted : Bool) : OnShown hidden out (filter wanted) := by
  intro context store address args block confined shown _
  exact (asks_list shown.2).bind fun items known =>
    (confined_filterTest confined known wanted).bind fun _ _ grows among =>
      confined_newList ((known.subset among).mono grows)

theorem confined_partition : OnShown hidden out partition := by
  intro context store address args block confined shown _
  refine (asks_list shown.2).bind fun items known => ?_
  refine (confined_mapM (P := fun after (entry : Value × Bool) => entry.1.Known hidden after)
    (fun _ _ _ grows known => known.mono grows) fun item member after grows => ?_).bind
    fun after marked _ known => ?_
  · have itemKnown := (known item member).mono grows
    exact (confined.test (forall_mem_singleton.2 itemKnown)).bind
      fun _ _ grows _ => .pure (itemKnown.mono grows)
  have part (choose : Value × Bool → Bool) :
      AllKnown hidden after ((marked.filter choose).map Prod.fst) := by
    rintro item member
    obtain ⟨entry, there, rfl⟩ := mem_map.1 member
    exact known entry (mem_of_mem_filter there)
  refine (confined_newList (part _)).bind fun _ selected grows selectedKnown => ?_
  refine (confined_newList ((part _).mono grows)).bind fun _ rejected grows rejectedKnown => ?_
  exact confined_newList (allKnown_cons.2 ⟨selectedKnown.mono grows,
    forall_mem_singleton.2 rejectedKnown⟩)

theorem confined_find : OnShown hidden out find := by
  intro context store address args block confined shown _
  exact (asks_list shown.2).bind fun items known =>
    (confined_firstPassing? known fun item after _ known =>
      confined.test (forall_mem_singleton.2 known)).bind fun _ _ _ known => .pure known

theorem confined_asks (confined : context.Confined hidden out block) {item : Value}
    (known : item.Known hidden store) : Run.Stays hidden out store (asks context block item) := by
  unfold asks
  split
  · exact .pure trivial
  · exact confined.test (forall_mem_singleton.2 known)

theorem confined_anyPasses (confined : context.Confined hidden out block)
    (shown : ¬hidden.arrays address) :
    Run.Stays hidden out store (anyPasses context address block) :=
  (asks_list shown).bind fun _ known => (confined_firstPassing? known fun _ _ _ known =>
    confined_asks confined known).bind fun _ _ _ _ => .pure trivial

theorem confined_anyHold : OnShown hidden out anyHold :=
  fun _ _ _ _ _ confined shown _ => (confined_anyPasses confined shown.2).bind
    fun _ _ _ _ => .pure trivial

theorem confined_noneHold : OnShown hidden out noneHold :=
  fun _ _ _ _ _ confined shown _ => (confined_anyPasses confined shown.2).bind
    fun _ _ _ _ => .pure trivial

theorem confined_allHold : OnShown hidden out allHold := by
  intro context store address args block confined shown _
  refine (asks_list shown.2).bind fun items known => (confined_firstPassing? known
    fun item after _ known => ?_).bind fun _ _ _ _ => .pure trivial
  exact (confined_asks confined known).bind fun _ _ _ _ => .pure trivial

theorem confined_count : OnShown hidden out count := by
  intro context store address args block confined shown argsKnown
  refine (asks_list shown.2).bind fun items known => ?_
  split
  · exact (confined_filterM fun _ _ _ _ => asks_equal.confined fun _ _ => trivial).bind
      fun _ _ _ _ => confined_newInt _
  · exact (confined_filterM fun item member after grows =>
      confined.test (forall_mem_singleton.2 ((known item member).mono grows))).bind
      fun _ _ _ _ => confined_newInt _
  · exact confined_newInt _

theorem confined_findIndex : OnShown hidden out findIndex := by
  intro context store address args block confined shown argsKnown
  refine confined_overLive (P := fun _ _ => True) shown.2
    (fun _ place item after grows _ known => ?_) (fun _ _ _ _ => trivial) _ _ _ trivial
  have answers (found : Bool) (store : Store) : Run.Confined hidden out
      (StepPost (fun _ _ => True) (Value.Known hidden)) store
      (if found then return .inr (← Run.newInt place) else return .inl ()) := by
    split
    · exact (confined_newInt _).bind fun _ _ _ known => .pure known
    · exact .pure trivial
  split
  · exact asks_equal.bind fun found _ => answers found _
  · exact (confined.test (forall_mem_singleton.2 known)).bind fun _ found _ _ =>
      answers found _
  · exact answers false _

theorem confined_foldBlock (confined : context.Confined hidden out block) {result : Value}
    {items : List Value}
    (resultKnown : result.Known hidden store) (known : AllKnown hidden store items) :
    Run.Knows hidden out store (foldBlock context block result items) := by
  induction items generalizing store result with
  | nil => exact .pure resultKnown
  | cons item rest ih =>
    obtain ⟨itemKnown, restKnown⟩ := allKnown_cons.1 known
    refine (confined.yield (allKnown_cons.2 ⟨resultKnown,
      forall_mem_singleton.2 itemKnown⟩)).bind fun after next grows nextKnown => ?_
    exact ih nextKnown (restKnown.mono grows)

theorem confined_inject : OnShown hidden out inject := by
  intro context store address args block confined shown known
  refine (asks_list shown.2).bind fun items itemsKnown => ?_
  split
  · exact confined_foldBlock confined (allKnown_cons.1 known).1 itemsKnown
  · exact confined_foldBlock confined (allKnown_cons.1 itemsKnown).1
      (allKnown_cons.1 itemsKnown).2
  · exact .pure trivial

theorem confined_sum : OnShown hidden out sum := by
  intro context store address args block confined shown known
  refine confined_overLive (P := Value.Known hidden) shown.2
    (fun total _ item after grows totalKnown itemKnown => ?_) (fun _ _ _ known => known) _ _ _ ?_
  · split
    · refine (confined.yield (forall_mem_singleton.2 itemKnown)).bind
        fun last value grows valueKnown => ?_
      exact (Operator.confined_binary .add (totalKnown.mono grows) valueKnown).bind
        fun _ _ _ known => .pure known
    · exact (Operator.confined_binary .add totalKnown itemKnown).bind fun _ _ _ known =>
        .pure known
  · cases args with
    | nil => trivial
    | cons start rest => exact (allKnown_cons.1 known).1

theorem asks_sorted (items : List Value) :
    Asks hidden (fun ordered => ∀ item ∈ ordered, item ∈ items) store (sorted context items) :=
  asks_reading fun _ => Sorting.gives_sort (calm_less _ _) items

theorem confined_keyed (confined : context.Confined hidden out block)
    (shown : ¬hidden.arrays address) :
    Run.Confined hidden out (fun after entries => ∀ entry ∈ entries,
      entry.1.Known hidden after ∧ entry.2.Known hidden after) store
      (keyed context address block) := by
  refine confined_overLive
    (P := fun after (entries : List (Value × Value)) => ∀ entry ∈ entries,
      entry.1.Known hidden after ∧ entry.2.Known hidden after) shown
    (fun entries _ item after _ entriesKnown itemKnown => ?_)
    (fun entries _ _ known entry member => known entry (mem_reverse.1 member)) _ _ _
    (forall_mem_nil _)
  refine (confined.yield (forall_mem_singleton.2 itemKnown)).bind
    fun last key grows keyKnown => .pure ?_
  exact forall_mem_cons.2 ⟨⟨keyKnown, itemKnown.mono grows⟩, fun entry member =>
    (entriesKnown entry member).imp (·.mono grows) (·.mono grows)⟩

theorem confined_sortedBy (confined : context.Confined hidden out block)
    (shown : ¬hidden.arrays address) :
    Run.Confined hidden out (AllKnown hidden) store (sortedBy context address block) := by
  refine (confined_keyed confined shown).bind fun after entries _ known => ?_
  refine (asks_reading fun _ => Sorting.gives_sort (fun left right =>
    calm_less _ _ left.1 right.1) entries).bind fun ordered among => .pure ?_
  rintro item member
  obtain ⟨entry, there, rfl⟩ := mem_map.1 member
  exact (known entry (among entry there)).2

theorem confined_includes : OnShown hidden out includes := by
  intro context store address args block _ shown known
  refine (asks_checkArity _ _ _).bind fun _ _ => (asks_arg known 0).bind fun wanted _ =>
    (asks_list shown.2).bind fun items known => ?_
  exact (confined_firstPassing? known fun _ _ _ _ => asks_equal.confined fun _ _ => trivial).bind
    fun _ _ _ _ => .pure trivial

theorem confined_zip : OnShown hidden out zip := by
  intro context store address args block _ shown known
  refine (confined_mapM lasting_allKnown fun arg member after grows =>
    confined_elements ((known arg member).mono grows)).bind fun after others grows othersKnown => ?_
  refine (asks_list shown.2).bind fun items itemsKnown => ?_
  refine (confined_mapM lasting_known fun entry member last grows => ?_).bind
    fun _ rows _ rowsKnown => confined_newList rowsKnown
  refine confined_newList (allKnown_cons.2 ⟨?_, ?_⟩)
  · exact (itemsKnown _ (fst_mem_of_mem_zipIdx member)).mono grows
  · rintro value isOther
    obtain ⟨other, there, rfl⟩ := mem_map.1 isOther
    rw [getD_eq_getElem?_getD]
    refine AllKnown.getD ((othersKnown other there).mono grows) fun value found => ?_
    exact mem_of_getElem? found

theorem confined_join : OnShown hidden out join := by
  intro context store address args block _ shown _
  have joins (separator : Text) : Run.Knows hidden out store (do
      let items ← list address
      Run.newString (← Run.reading fun heap =>
        Value.joined heap separator context.nesting items)) :=
    (asks_list shown.2).bind fun _ _ =>
      (asks_reading fun _ => calm_joined _ _ _ _).bind fun _ _ => confined_newString _
  unfold join
  dsimp only
  split
  · exact asks_toText.bind fun separator _ => joins separator
  · exact joins ""

theorem confined_table : BuiltinTable.Confined hidden out (Shown hidden) table := by
  have sizes : OnShown hidden out
      (fun _ address _ _ => do Run.newInt (← Run.size address)) :=
    fun _ _ _ _ _ _ shown _ => asks_size.bind fun _ _ => confined_newInt _
  simp only [BuiltinTable.Confined, table, forall_mem_cons]
  refine ⟨sizes, sizes, ?_, confined_index, confined_store, confined_first, confined_last,
    confined_push, confined_push, confined_pop, confined_shift, confined_unshift, confined_concat,
    confined_each, confined_eachWithIndex, confined_eachSlice, confined_map, confined_map,
    confined_flatMap, confined_filter true, confined_filter true, confined_filter true,
    confined_filter false, confined_partition, confined_find, confined_find, confined_anyHold,
    confined_allHold, confined_noneHold, confined_count, confined_findIndex, confined_findIndex,
    confined_inject, confined_inject, confined_sum, ?_, ?_, ?_, ?_, ?_, ?_, ?_, ?_, ?_, ?_,
    confined_includes, confined_join, confined_take, confined_drop, confined_zip, ?_,
    forall_mem_nil _⟩
  all_goals intro context store address args block confined shown known
  · exact asks_size.bind fun _ _ => .pure trivial
  · exact (asks_list shown.2).bind fun _ known => (asks_sorted _).bind
      fun _ among => .pure ((known.subset among).getD fun _ => mem_of_mem_head?)
  · exact (asks_list shown.2).bind fun _ known => (asks_sorted _).bind
      fun _ among => .pure ((known.subset among).getD fun _ => mem_of_getLast?)
  · exact (confined_sortedBy confined shown.2).bind fun _ _ _ known =>
      .pure (known.getD fun _ => mem_of_mem_head?)
  · exact (confined_sortedBy confined shown.2).bind fun _ _ _ known =>
      .pure (known.getD fun _ => mem_of_getLast?)
  · exact (asks_list shown.2).bind fun _ known => (asks_sorted _).bind
      fun _ among => confined_newList (known.subset among)
  · exact (confined_sortedBy confined shown.2).bind fun _ _ _ known => confined_newList known
  · exact (asks_items shown.2).bind fun _ known => confined_newArray fun _ member =>
      known _ (Array.mem_reverse.1 member)
  · exact (asks_list shown.2).bind fun items known =>
      (asks_reading fun _ => gives_distinct _ _ items).bind fun _ among =>
        confined_newList (known.subset among)
  · exact (asks_list shown.2).bind fun items known => (asks_reading fun guards => gives_flattened
      (fun address known => guards.arrays address known.2) _ known).bind
      fun _ known => confined_newList known
  · exact (asks_list shown.2).bind fun items known => confined_newList
      (known.subset fun _ => mem_of_mem_filter)
  · exact .pure shown

end ArrayMethod

end Hoist
