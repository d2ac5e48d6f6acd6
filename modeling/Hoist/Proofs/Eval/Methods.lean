import Hoist.Eval.Kernel
import Hoist.Eval.Send
import Hoist.Proofs.Eval.ArrayMethods

/-!
All built-in methods are confined, if the calls that they make are.
-/

namespace Hoist

open List

open Run

variable {hidden : Hidden} {store after : Store} {out : JumpKind → Prop} {context : Context}
  {block : Option Address}

/-- Receivers that lead to no array. -/
abbrev Anything {ρ : Type} : Store → ρ → Prop := fun _ _ => True

namespace NumberMethod

theorem known_toValue (object : NumberObject) : object.toValue.Known hidden store := by
  unfold NumberObject.toValue
  split <;> trivial

theorem confined_abs (object : NumberObject) : Run.Knows hidden out store (abs object) := by
  unfold abs
  split
  · split
    · exact .pure (known_toValue object)
    · exact confined_newInt _
  · exact confined_newFloat _

theorem confined_toInteger (rounded? : Float → Option Int) (object : NumberObject) :
    Run.Knows hidden out store (toInteger rounded? object) := by
  unfold toInteger
  split
  · exact .pure (known_toValue object)
  · split
    · exact confined_newInt _
    · exact .fault _

theorem confined_toFloat (object : NumberObject) : Run.Knows hidden out store (toFloat object) := by
  unfold toFloat
  split
  · exact (asks_ofExcept (calm_toFloat _)).bind fun _ _ => confined_newFloat _
  · exact .pure (known_toValue object)

theorem asks_quotient (num : Int) (den : Nat) :
    Asks hidden (fun _ => True) store (quotient num den) := by
  unfold quotient
  split
  · exact .pure trivial
  · exact .fault _

theorem confined_roundHalfUp (number : Number) (places : Nat) :
    Run.Knows hidden out store (roundHalfUp number places) := by
  have signed (whole : Int) : Run.Knows hidden out store (do
      let rounded ← quotient whole (Decimal.tenTo places)
      let sign ← Run.ofExcept number.toFloat
      Run.newInt (← Run.truncate (Decimal.withSign rounded sign))) :=
    (asks_quotient _ _).bind fun _ _ => (asks_ofExcept (calm_toFloat _)).bind fun _ _ =>
      (asks_truncate _).bind fun _ _ => confined_newInt _
  unfold roundHalfUp
  dsimp only
  split
  · refine (asks_ofExcept (calm_toFloat _)).bind fun scaled _ => ?_
    split
    · exact .fault _
    · exact signed _
  · refine ((asks_ofExcept (calm_toFloat _)).then fun _ _ => .pure trivial).bind
      fun (scaled : Float) (_ : True) => ?_
    split
    · exact .fault _
    · exact signed _

theorem confined_round : Builtin.Confined hidden out Anything round := by
  intro context store object args block _ _ _
  unfold round
  dsimp only
  split
  · exact confined_roundHalfUp _ _
  · refine (asks_intArg _).bind fun digits _ => ?_
    split
    · split
      · exact (asks_ofExcept (calm_toFloat _)).bind fun _ _ => confined_newFloat _
      · exact confined_newFloat _
    · exact confined_roundHalfUp _ _

theorem confined_isBetween : Builtin.Confined hidden out Anything isBetween := by
  intro context store object args block _ _ known
  refine (asks_arg known 0).bind fun _ _ => asks_compare.bind fun low _ => ?_
  split
  · exact .pure trivial
  · exact (asks_arg known 1).bind fun _ _ => asks_compare.bind fun _ _ => .pure trivial

theorem confined_clamp : Builtin.Confined hidden out Anything clamp := by
  intro context store object args block _ _ known
  refine (asks_arg known 0).bind fun _ lowKnown =>
    asks_compare.bind fun _ _ => ?_
  split
  · exact .pure lowKnown
  refine (asks_arg known 1).bind fun _ highKnown =>
    asks_compare.bind fun _ _ => ?_
  split
  · exact .pure highKnown
  · exact .pure (known_toValue object)

theorem confined_table : BuiltinTable.Confined hidden out Anything table := by
  have lies (side : Ordering) : Builtin.Confined hidden out Anything (liesOn side) :=
    fun _ _ _ _ _ _ _ _ => .pure trivial
  simp only [BuiltinTable.Confined, table, forall_mem_cons]
  refine ⟨?_, ?_, lies .gt, lies .lt, ?_, ?_, ?_, ?_, confined_round, confined_isBetween,
    confined_clamp, forall_mem_nil _⟩
  all_goals intro context store object args block _ _ _
  · exact confined_abs object
  · exact .pure trivial
  · exact confined_toInteger _ object
  · exact confined_toFloat object
  · exact confined_toInteger _ object
  · exact confined_toInteger _ object

end NumberMethod

namespace IntegerMethod

theorem confined_count (confined : context.Confined hidden out block) (step : Int) (remaining : Nat)
    (next : Int) :
    Run.Stays hidden out store (count context block step remaining next) := by
  induction remaining generalizing store next with
  | zero => exact .pure trivial
  | succ remaining ih =>
    exact (confined_newInt next).bind fun _ _ _ known =>
      (confined.yield (forall_mem_singleton.2 known)).bind fun _ _ _ _ =>
        ih _

theorem confined_times : Builtin.Confined hidden out Anything times :=
  fun _ _ _ _ _ confined _ _ =>
    (confined_count confined _ _ _).bind fun _ _ _ _ => .pure trivial

theorem confined_upto : Builtin.Confined hidden out Anything upto :=
  fun _ _ _ _ _ confined _ known => (asks_checkArity _ _ _).bind fun _ _ =>
    (asks_arg known 0).bind fun _ _ => (asks_intArg _).bind fun _ _ =>
      (confined_count confined _ _ _).bind fun _ _ _ _ => .pure trivial

theorem confined_downto : Builtin.Confined hidden out Anything downto :=
  fun _ _ _ _ _ confined _ known => (asks_checkArity _ _ _).bind fun _ _ =>
    (asks_arg known 0).bind fun _ _ => (asks_intArg _).bind fun _ _ =>
      (confined_count confined _ _ _).bind fun _ _ _ _ => .pure trivial

theorem confined_chr : Builtin.Confined hidden out Anything chr := by
  intro context store object args block _ _ _
  unfold chr
  split
  · exact .fault _
  split
  · split
    · exact confined_newString _
    · exact .fault _
  · exact .fault _

theorem confined_table : BuiltinTable.Confined hidden out Anything table := by
  simp only [BuiltinTable.Confined, table, forall_mem_cons]
  refine ⟨confined_times, confined_upto, confined_downto, ?_, ?_, ?_, ?_, confined_chr, ?_,
    forall_mem_nil _⟩
  all_goals intro context store object args block _ _ _
  · exact .pure trivial
  · exact .pure trivial
  · exact confined_newInt _
  · exact confined_newInt _
  · exact (asks_ofExcept (calm_intText _)).bind fun _ _ => confined_newString _

end IntegerMethod

theorem FloatMethod.confined_table : BuiltinTable.Confined hidden out Anything table := by
  simp only [BuiltinTable.Confined, table, forall_mem_cons]
  refine ⟨?_, ?_, forall_mem_nil _⟩
  all_goals intro context store x args block _ _ _
  · exact .pure trivial
  · dsimp only
    split
    · exact confined_newInt _
    · exact .pure trivial

namespace ObjectMethod

theorem confined_isA : Builtin.Confined hidden out (Value.Known hidden) isA := by
  intro context store receiver args block _ _ _
  refine (asks_checkArity _ _ _).bind fun _ _ => ?_
  split
  · exact .pure trivial
  · exact .raise _ _

theorem confined_dup : Builtin.Confined hidden out (Value.Known hidden) dup := by
  intro context store receiver args block _ known _
  unfold dup
  split
  · exact (asks_items known.2).bind fun _ known => confined_newArray known
  · exact .pure known

theorem confined_classOf (value : Value) : Run.Knows hidden out store (classOf value) := by
  unfold classOf
  split
  · exact .pure trivial
  · exact confined_newIdentity.bind fun _ _ _ _ => .pure trivial

theorem confined_table : BuiltinTable.Confined hidden out (Value.Known hidden) table := by
  simp only [BuiltinTable.Confined, table, forall_mem_cons]
  refine ⟨?_, confined_isA, confined_isA, ?_, ?_, ?_, ?_, ?_, ?_, ?_, ?_, ?_, confined_dup, ?_, ?_,
    forall_mem_nil _⟩
  all_goals intro context store receiver args block confined receiverKnown known
  · exact .pure trivial
  · exact confined_classOf receiver
  · exact (asks_reading fun _ => calm_inspectDraft _ _ receiver).bind fun _ _ =>
      confined_newString _
  · exact confined_toTextObject.bind fun _ _ _ _ => .pure trivial
  · exact (asks_arg known 0).bind fun _ _ => asks_equal.bind fun _ _ => .pure trivial
  · exact (asks_arg known 0).bind fun _ _ => asks_equal.bind fun _ _ => .pure trivial
  · exact .pure trivial
  · exact (asks_arg known 0).bind fun _ _ => .pure trivial
  · exact .pure receiverKnown
  · exact .pure trivial
  · exact (confined.yield (forall_mem_singleton.2 receiverKnown)).bind
      fun _ _ grows _ => .pure (receiverKnown.mono grows)
  · exact confined.yield (forall_mem_singleton.2 receiverKnown)

end ObjectMethod

theorem NilMethod.confined_table : BuiltinTable.Confined hidden out Anything table := by
  simp only [BuiltinTable.Confined, table, forall_mem_cons]
  refine ⟨?_, ?_, ?_, forall_mem_nil _⟩
  all_goals intro context store receiver args block _ _ _
  · exact confined_newArray fun _ member => absurd member (Array.not_mem_empty _)
  · exact confined_newInt 0
  · exact .pure trivial

theorem SymbolMethod.confined_table : BuiltinTable.Confined hidden out Anything table := by
  simp only [BuiltinTable.Confined, table, forall_mem_cons]
  refine ⟨?_, ?_, ?_, forall_mem_nil _⟩
  all_goals intro context store receiver args block _ _ _
  · exact .pure trivial
  · exact confined_newInt _
  · exact confined_newInt _

theorem ClassMethod.confined_new : Builtin.Confined hidden out Anything new := by
  rintro context store name args block - - -
  unfold new
  cases raisable : isException name with
  | false => exact Asks.bind (Asks.raise _ _ : Asks hidden (fun _ => False) _ _) fun _ => False.elim
  | true =>
    cases args with
    | nil => exact confined_newError raisable _
    | cons => exact confined_toTextObject.bind fun _ _ _ _ => confined_newError raisable _

theorem ClassMethod.confined_table : BuiltinTable.Confined hidden out Anything table := by
  simp only [BuiltinTable.Confined, table, forall_mem_cons]
  exact ⟨confined_new, fun _ _ _ _ _ _ _ _ => .pure trivial, forall_mem_nil _⟩

theorem ErrorMethod.confined_table : BuiltinTable.Confined hidden out Anything table := by
  simp only [BuiltinTable.Confined, table, forall_mem_cons]
  exact ⟨fun _ _ _ _ _ _ _ _ => .pure trivial, forall_mem_nil _⟩

/-- The proc is known. -/
def ProcMethod.Known (hidden : Hidden) (store : Store) (receiver : Address × Bool) : Prop :=
  (Value.proc receiver.1 receiver.2).Known hidden store

theorem ProcMethod.confined_table :
    BuiltinTable.Confined hidden out (ProcMethod.Known hidden) table := by
  have calls : Builtin.Confined hidden out (ProcMethod.Known hidden) call :=
    fun _ _ _ _ _ confined isKnown known => confined.callProc isKnown known
  simp only [BuiltinTable.Confined, table, forall_mem_cons]
  refine ⟨calls, calls, calls, ?_, ?_, forall_mem_nil _⟩
  all_goals intro context store receiver args block _ _ _
  · exact .pure trivial
  · refine (asks_closure? _).bind fun _ _ => ?_
    split
    · exact confined_newInt _
    · exact confined_newInt _

namespace RangeMethod

/-- The ends of a range are known. -/
def Known (hidden : Hidden) (store : Store) (range : RangeObject) : Prop :=
  range.toValue.Known hidden store

theorem asks_extent (range : RangeObject) : Asks hidden (fun _ => True) store range.extent := by
  unfold RangeObject.extent
  split
  · exact .pure trivial
  · exact .raise _ _

theorem confined_elements (range : RangeObject) (context : Context) :
    Run.Confined hidden out (AllKnown hidden) store (range.elements context) :=
  (asks_extent range).bind fun _ _ => (asks_checkSize _ _).bind fun _ _ =>
    confined_mapM lasting_known fun _ _ _ _ => confined_newInt _

theorem confined_onElements {method : Builtin Address}
    (confined : Builtin.Confined hidden out (ArrayMethod.Shown hidden) method) :
    Builtin.Confined hidden out (Known hidden) (onElements method) := by
  intro context store range args block contextConfined _ known
  refine (confined_elements range context).bind fun _ _ grows elementsKnown =>
    (confined_newList elementsKnown).bind fun _ made grows' madeKnown => ?_
  split
  · exact confined _ _ _ _ _ contextConfined madeKnown (known.mono (grows.trans grows'))
  · exact .pure madeKnown

theorem confined_yieldEach (confined : context.Confined hidden out block) {items : List Value}
    (known : AllKnown hidden store items) :
    Run.Stays hidden out store (yieldEach context block items) := by
  induction items generalizing store with
  | nil => exact .pure trivial
  | cons item rest ih =>
    obtain ⟨itemKnown, restKnown⟩ := allKnown_cons.1 known
    exact (confined.yield (forall_mem_singleton.2 itemKnown)).bind
      fun _ _ grows _ => ih (restKnown.mono grows)

theorem confined_each : Builtin.Confined hidden out (Known hidden) each := by
  intro context store range args block confined rangeKnown _
  exact (confined_elements range context).bind fun _ _ grows known =>
    (confined_yieldEach confined known).bind fun _ _ grows' _ =>
      .pure (rangeKnown.mono (grows.trans grows'))

theorem confined_endOr {pick : RangeObject → Value} {method : Builtin Address}
    (picked : ∀ store range, Known hidden store range → (pick range).Known hidden store)
    (confined : Builtin.Confined hidden out (ArrayMethod.Shown hidden) method) :
    Builtin.Confined hidden out (Known hidden) (endOr pick method) := by
  intro context store range args block contextConfined rangeKnown known
  unfold endOr
  split
  · exact .pure (picked store range rangeKnown)
  · exact confined_onElements confined _ _ _ _ _ contextConfined rangeKnown known

theorem confined_includes : Builtin.Confined hidden out (Known hidden) includes := by
  intro context store range args block _ _ known
  refine (asks_checkArity _ _ _).bind fun _ _ => (asks_arg known 0).bind fun value _ => ?_
  split
  · exact .pure trivial
  refine asks_compare.bind fun _ _ => ?_
  split
  · exact .pure trivial
  · exact asks_compare.bind fun _ _ => .pure trivial

theorem confined_table : BuiltinTable.Confined hidden out (Known hidden) table := by
  refine forall_mem_append.2 ⟨?_, ?_⟩
  · simp only [forall_mem_cons]
    refine ⟨confined_each, ?_, confined_endOr (fun _ _ known => known.1) ArrayMethod.confined_first,
      confined_endOr (fun _ _ known => known.2) ArrayMethod.confined_last, ?_, ?_, ?_,
      confined_includes, confined_includes, ?_, forall_mem_nil _⟩
    all_goals intro context store range args block _ rangeKnown _
    · exact (confined_elements range context).bind fun _ _ _ known => confined_newList known
    · exact .pure rangeKnown.1
    · exact .pure rangeKnown.2
    · exact .pure trivial
    · exact (confined_elements range context).bind fun _ _ _ _ => confined_newInt _
  · intro entry member
    obtain ⟨name, -, found⟩ := mem_filterMap.1 member
    obtain ⟨method, isMethod, rfl⟩ := Option.map_eq_some_iff.1 found
    exact confined_onElements (ArrayMethod.confined_table _ (mem_of_lookup isMethod))

end RangeMethod

namespace TextMethod

theorem confined_strings (drafts : List Draft) : Run.Knows hidden out store (strings drafts) :=
  (confined_mapM lasting_known fun _ _ _ _ => confined_newString _).bind
    fun _ _ _ known => confined_newList known

theorem confined_index : Builtin.Confined hidden out Anything index := by
  intro context store object args block _ _ _
  refine (asks_select _ _).bind fun selection _ => ?_
  split
  · exact .pure trivial
  · exact confined_newString _
  · exact confined_newString _

theorem confined_chomp : Builtin.Confined hidden out Anything chomp := by
  intro context store object args block _ _ known
  unfold chomp
  dsimp only
  split
  · refine asks_toText.bind fun _ _ => ?_
    split
    · exact confined_newString _
    · exact .pure trivial
  · split
    · exact confined_newString _
    · exact .pure trivial

theorem confined_split : Builtin.Confined hidden out Anything split := by
  intro context store object args block _ _ _
  unfold split
  split
  · exact confined_strings _
  · exact confined_strings _
  · split
    · exact confined_strings _
    · exact confined_strings _
  · exact .raise _ _

theorem confined_yieldChars (confined : context.Confined hidden out block)
    (codes : List CodePoint) :
    Run.Stays hidden out store (yieldChars context block codes) := by
  induction codes generalizing store with
  | nil => exact .pure trivial
  | cons code rest ih =>
    exact (confined_newString _).bind fun _ _ _ known =>
      (confined.yield (forall_mem_singleton.2 known)).bind fun _ _ _ _ =>
        ih

theorem confined_substitute (replace? : Text → Text → Text → Option Text) :
    Builtin.Confined hidden out Anything (substitute replace?) := by
  intro context store object args block _ _ _
  refine (asks_checkArity _ _ _).bind fun _ _ => ?_
  split
  · split
    · split
      · exact .pure trivial
      · exact confined_newString _
    · exact .pure trivial
  · exact .raise _ _

theorem confined_find : Builtin.Confined hidden out Anything find := by
  intro context store object args block _ _ known
  refine (asks_checkArity _ _ _).bind fun _ _ => (asks_arg known 0).bind fun _ argKnown =>
    asks_toText.bind fun _ _ => ?_
  split
  · exact confined_newInt _
  · exact .pure trivial

theorem asks_anyText (test : Text → Bool) (args : List Value) :
    Asks hidden (fun _ => True) store (anyText context test args) := by
  induction args with
  | nil => exact .pure trivial
  | cons arg rest ih =>
    refine asks_toText.then fun _ _ => ?_
    split
    · exact .pure trivial
    · exact ih

theorem confined_delete : Builtin.Confined hidden out Anything delete := by
  intro context store object args block _ _ known
  unfold delete
  split
  · exact .pure trivial
  · exact (asks_arg known 0).bind fun _ argKnown => asks_toText.bind
      fun _ _ => confined_newString _

theorem confined_toInteger : Builtin.Confined hidden out Anything toInteger := by
  intro context store object args block _ _ _
  unfold toInteger
  dsimp only
  split
  · exact confined_newInt _
  · split
    · exact confined_newInt _
    · exact .fault _

theorem confined_toFloat : Builtin.Confined hidden out Anything toFloat := by
  intro context store object args block _ _ _
  unfold toFloat
  split
  · exact confined_newFloat _
  · exact .pure trivial

theorem confined_ord : Builtin.Confined hidden out Anything ord := by
  intro context store object args block _ _ _
  unfold ord
  split
  · exact confined_newInt _
  · exact .raise _ _

theorem confined_justify (leftShare : Nat → Nat) :
    Builtin.Confined hidden out Anything (justify leftShare) := by
  intro context store object args block _ _ known
  refine (asks_checkArity _ _ _).bind fun _ _ => (asks_arg known 0).bind fun _ _ =>
    (asks_intArg _).bind fun width _ => ?_
  have padded (pad : TextObject) (store : Store) : Run.Knows hidden out store
      (do
        if pad.text.isEmpty then Run.raise "ArgumentError" "zero width padding"
        let missing := (width - object.text.length).toNat
        context.checkSize (pad.text.length * missing)
        let left := leftShare missing
        Run.newString (.append (.append (fill pad left) object) (fill pad (missing - left)))) :=
    (Asks.raise _ _).guard ((asks_checkSize _ _).bind fun _ _ => confined_newString _)
  dsimp only
  split
  next =>
    exact confined_toTextObject.bind fun _ pad _ _ => padded pad _
  next => exact padded (.shared " ") _

theorem confined_table : BuiltinTable.Confined hidden out Anything table := by
  have maps (image : Text → Text) : Builtin.Confined hidden out Anything (mapping image) :=
    fun _ _ _ _ _ _ _ _ => confined_newString _
  simp only [BuiltinTable.Confined, table, forall_mem_cons]
  refine ⟨?_, ?_, confined_index, maps _, maps _, maps _, maps _, maps _, ?_, ?_, ?_,
    confined_chomp, ?_, ?_, ?_, confined_split, ?_, ?_, ?_, ?_, confined_find,
    confined_substitute _, confined_substitute _, confined_delete, confined_toInteger,
    confined_toFloat, ?_, ?_, confined_ord, confined_justify _, confined_justify _,
    confined_justify _, forall_mem_nil _⟩
  all_goals intro context store object args block confined _ known
  · exact confined_newInt _
  · exact confined_newInt _
  · exact confined_newString _
  · exact confined_newString _
  · exact confined_newString _
  · exact confined_strings _
  · exact confined_strings _
  · exact (confined_yieldChars confined _).bind fun _ _ _ _ => .pure trivial
  · exact (asks_arg known 0).bind fun _ argKnown => asks_toText.bind
      fun _ _ => .pure trivial
  · exact (asks_anyText _ _).bind fun _ _ => .pure trivial
  · exact (asks_anyText _ _).bind fun _ _ => .pure trivial
  · exact .pure trivial
  · exact .pure trivial
  · exact confined_newSymbol _

end TextMethod

namespace Kernel

theorem confined_putsValue (value : Value) :
    Run.Stays hidden out store (putsValue context value) := by
  have prints (lines : List Text) : Run.Stays hidden out store
      (lines.forM fun line => Run.print (if line.endsWith "\n" then line else line ++ "\n")) :=
    confined_forM fun _ _ _ _ => confined_print _
  have written : Run.Stays hidden out store (do
      let lines ← Run.reading fun heap => value.lines heap context.nesting
      lines.forM fun line => Run.print (if line.endsWith "\n" then line else line ++ "\n")) :=
    (asks_reading fun _ => calm_lines _ _ value).bind fun lines _ => prints lines
  unfold putsValue
  dsimp only
  split
  · refine asks_size.bind fun _ _ => ?_
    split
    · exact prints _
    · exact written
  · exact written

theorem confined_puts : Builtin.Confined hidden out Anything puts := by
  intro context store receiver args block _ _ known
  have rest (after : Store) : Run.Knows hidden out after (do
        args.forM (putsValue context)
        return .nil) :=
    (confined_forM fun arg _ _ _ => confined_putsValue arg).bind fun _ _ _ _ => .pure trivial
  unfold puts
  dsimp only
  split
  · exact (confined_print _).bind fun after _ _ _ => rest after
  · exact rest store

theorem confined_printAll : Builtin.Confined hidden out Anything Kernel.print :=
  fun _ _ _ _ _ _ _ _ => (confined_forM fun _ _ _ _ =>
    asks_toText.bind fun _ _ => confined_print _).bind
    fun _ _ _ _ => .pure trivial

theorem confined_inspectAll : Builtin.Confined hidden out Anything inspectAll := by
  intro context store receiver args block _ _ known
  refine (confined_forM fun _ _ _ _ => asks_inspect.bind fun _ _ => confined_print _).bind
    fun after _ grows _ => ?_
  split
  · exact .pure trivial
  · exact .pure ((allKnown_cons.1 known).1.mono grows)
  · exact confined_newList (known.mono grows)

theorem confined_raise : Builtin.Confined hidden out Anything Kernel.raise := by
  intro context store receiver args block _ _ known
  unfold Kernel.raise
  split
  · exact .raise _ _
  · exact .raise _ _
  · exact .raise _ _
  · split
    · split
      · exact .raise _ _
      · exact asks_toText.bind fun _ _ => .raise _ _
    · exact .raise _ _
  · exact .raise _ _

theorem confined_loop : Builtin.Confined hidden out Anything loop := by
  intro context store receiver args block confined _ _
  refine confined_repeatUntil (fun after _ => ?_) _
  refine ((confined.yield allKnown_nil).bind fun _ _ _ _ => .pure nofun).tryCatch
    fun last signal _ known => ?_
  split
  · exact .pure fun _ same => by cases same; trivial
  · exact .throw known

theorem confined_lambda : Builtin.Confined hidden out Anything lambda := by
  intro context store receiver args block _ _ _
  unfold lambda
  split
  · exact .raise _ _
  · refine (asks_closure? _).bind fun closure? known => ?_
    split
    next closure =>
      have ⟨env, code⟩ := known.2 closure rfl
      exact confined_newProc ⟨env, code⟩ rfl
    next => exact .raise _ _

theorem confined_proc (shown : ¬hidden.blocks) : Builtin.Confined hidden out Anything proc := by
  intro context store receiver args block _ _ _
  unfold proc
  split
  · exact .raise _ _
  · refine (asks_closure? _).bind fun closure? _ => ?_
    split
    · exact .pure fun hides => absurd hides shown
    · exact .raise _ _

theorem confined_format : Builtin.Confined hidden out Anything format := by
  intro context store receiver args block _ _ known
  unfold format
  split
  · exact (asks_reading fun _ => Format.calm_format _ _ _ _).bind fun _ _ => confined_newString _
  · exact .raise _ _

theorem confined_table : ∀ entry ∈ table, (hidden.blocks → entry.1 ≠ "proc") →
    Builtin.Confined hidden out Anything entry.2 := by
  simp only [table, forall_mem_cons]
  exact ⟨fun _ => confined_puts, fun _ => confined_printAll, fun _ => confined_inspectAll,
    fun _ => confined_inspectAll, fun _ => confined_raise, fun _ => confined_loop,
    fun _ => confined_lambda, fun other => confined_proc fun hides => other hides rfl,
    fun _ => confined_format, forall_mem_nil _⟩

end Kernel

section Sending

/-- A method with its receiver put in is confined from a store on. -/
def BoundMethod.Confined (hidden : Hidden) (out : JumpKind → Prop) (store : Store)
    (method : BoundMethod) : Prop :=
  ∀ (context : Context) (args : List Value) (block : Option Address),
    context.Confined hidden out block → AllKnown hidden store args →
      Run.Knows hidden out store (method context args block)

variable {args : List Value} {method : BoundMethod} {name : String} {receiver : Value}

theorem BuiltinTable.Confined.bind? {ρ : Type} {receiverKnown : Store → ρ → Prop}
    {table : BuiltinTable ρ} (confined : table.Confined hidden out receiverKnown)
    {receiver : ρ} (isKnown : receiverKnown store receiver)
    (found : table.bind? name receiver = some method) : method.Confined hidden out store := by
  obtain ⟨builtin, isBuiltin, rfl⟩ := Option.map_eq_some_iff.1 found
  intro context args block contextConfined known
  exact confined _ (mem_of_lookup isBuiltin) context store receiver args block
    contextConfined isKnown known

theorem Value.confined_ownMethod? (known : receiver.Known hidden store)
    (found : receiver.ownMethod? name = some method) : method.Confined hidden out store := by
  cases receiver with
  | nil => exact NilMethod.confined_table.bind? trivial found
  | int value id =>
    rcases (Option.orElse_eq_some _ _ _).1 found with found | ⟨-, found⟩
    · exact IntegerMethod.confined_table.bind? trivial found
    · exact NumberMethod.confined_table.bind? trivial found
  | float value id =>
    rcases (Option.orElse_eq_some _ _ _).1 found with found | ⟨-, found⟩
    · exact FloatMethod.confined_table.bind? trivial found
    · exact NumberMethod.confined_table.bind? trivial found
  | str object => exact TextMethod.confined_table.bind? trivial found
  | array address => exact ArrayMethod.confined_table.bind? known found
  | range start stop exclusive id =>
    have ends : RangeMethod.Known hidden store ⟨start, stop, exclusive, id⟩ := known
    exact RangeMethod.confined_table.bind? ends found
  | proc address isLambda =>
    have isKnown : ProcMethod.Known hidden store (address, isLambda) := known
    exact ProcMethod.confined_table.bind? isKnown found
  | symbol text id => exact SymbolMethod.confined_table.bind? trivial found
  | classRef name id => exact ClassMethod.confined_table.bind? trivial found
  | error className message id => exact ErrorMethod.confined_table.bind? trivial found
  | bool | complex => cases found

theorem Value.confined_method? (known : receiver.Known hidden store)
    (found : receiver.method? name = some method) : method.Confined hidden out store := by
  rcases (Option.orElse_eq_some _ _ _).1 found with found | ⟨-, found⟩
  · exact Value.confined_ownMethod? known found
  · exact ObjectMethod.confined_table.bind? known found

theorem confined_send (confined : context.Confined hidden out block)
    (known : AllKnown hidden store args) (receiverKnown : receiver.Known hidden store)
    (name : String) :
    Run.Knows hidden out store (send context receiver name args block) := by
  unfold send
  split
  next method found =>
    exact Value.confined_method? receiverKnown found context args block confined known
  next =>
    split
    · exact Operator.confined_binary _ receiverKnown (allKnown_cons.1 known).1
    · exact Operator.confined_undefined _ _

end Sending

end Hoist
