import Hoist.Eval.Method.Array
import Hoist.Proofs.Steps

/-!
Computations that only look at values.  They may fail, but no jump comes out of them, and the values
that they give are among those that they get or that stand in the arrays they look at.
-/

namespace Hoist

open List

variable {α β σ ε : Type}

/-- A signal that carries no value. -/
def Signal.Plain : Signal → Prop
  | .jump .. => False
  | _ => True

/-- What a computation may fail with, and what holds of its result. -/
def Gives (fails : ε → Prop) (post : α → Prop) : Except ε α → Prop
  | .ok value => post value
  | .error error => fails error

/-- A computation fails without a jump. -/
abbrev Calm (result : Except Signal α) : Prop := Gives Signal.Plain (fun _ => True) result

section Rules

variable {fails : ε → Prop} {post : α → Prop} {last : β → Prop} {result : Except ε α}

theorem Gives.bind {next : α → Except ε β} (gives : Gives fails post result)
    (rest : ∀ value, post value → Gives fails last (next value)) :
    Gives fails last (result >>= next) := by
  cases result with
  | ok value => exact rest value gives
  | error error => exact gives

theorem Gives.map {change : α → β} (gives : Gives fails post result)
    (image : ∀ value, post value → last (change value)) :
    Gives fails last (change <$> result) := by
  cases result with
  | ok value => exact image value gives
  | error error => exact gives

theorem Gives.mono {more : ε → Prop} {post' : α → Prop} (gives : Gives fails post result)
    (image : ∀ value, post value → post' value) (wider : ∀ error, fails error → more error) :
    Gives more post' result := by
  cases result with
  | ok value => exact image value gives
  | error error => exact wider error gives

theorem gives_mapM {P : β → Prop} {compute : α → Except ε β} {items : List α}
    (each : ∀ item ∈ items, Gives fails P (compute item)) :
    Gives fails (fun results => ∀ result ∈ results, P result) (items.mapM compute) := by
  induction items with
  | nil => exact forall_mem_nil _
  | cons item rest ih =>
    obtain ⟨first, others⟩ := forall_mem_cons.1 each
    rw [mapM_cons]
    refine first.bind fun result holds => ?_
    exact (ih others).bind fun results hold => forall_mem_cons.2 ⟨holds, hold⟩

theorem gives_foldlM {P : σ → Prop} {step : σ → α → Except ε σ} {items : List α}
    (each : ∀ item ∈ items, ∀ state, P state → Gives fails P (step state item))
    (start : σ) (starts : P start) : Gives fails P (items.foldlM step start) := by
  induction items generalizing start with
  | nil => exact starts
  | cons item rest ih =>
    obtain ⟨first, others⟩ := forall_mem_cons.1 each
    rw [foldlM_cons]
    exact (first start starts).bind fun state still => ih others state still

section Testing

variable {test : α → Except Signal Bool} (calm : ∀ item, Calm (test item))
include calm

theorem calm_anyM (items : List α) : Calm (items.anyM test) := by
  induction items with
  | nil => trivial
  | cons item rest ih =>
    rw [anyM]
    refine (calm item).bind fun found _ => ?_
    cases found with
    | true => trivial
    | false => exact ih

theorem calm_allM (items : List α) : Calm (items.allM test) := by
  induction items with
  | nil => trivial
  | cons item rest ih =>
    rw [allM]
    refine (calm item).bind fun holds _ => ?_
    cases holds with
    | true => exact ih
    | false => trivial

theorem gives_filterM (items : List α) :
    Gives Signal.Plain (fun result => ∀ item ∈ result, item ∈ items) (items.filterM test) := by
  have kept (rest seen : List α) (among : ∀ item ∈ rest, item ∈ items)
      (seenAmong : ∀ item ∈ seen, item ∈ items) :
      Gives Signal.Plain (fun result => ∀ item ∈ result, item ∈ items)
        (rest.filterAuxM test seen) := by
    induction rest generalizing seen with
    | nil => exact seenAmong
    | cons item rest ih =>
      obtain ⟨first, others⟩ := forall_mem_cons.1 among
      rw [filterAuxM]
      refine (calm item).bind fun passes _ => ih _ others ?_
      cases passes with
      | true => exact forall_mem_cons.2 ⟨first, seenAmong⟩
      | false => exact seenAmong
  exact (kept items [] (fun _ => id) (forall_mem_nil _)).bind fun kept among item member =>
    among item (mem_reverse.1 member)

end Testing

end Rules

namespace Context

/-- A length is a word, and memory holds a text or an array of it. -/
abbrev Holds (context : Context) (size : Nat) : Prop :=
  size < Decimal.twoTo 63 ∧ size ≤ context.memory

variable {context : Context} {size : Nat}

theorem checkSize_ok (holds : context.Holds size) (store : Store) :
    context.checkSize size store = (.ok (), store) := by
  simp only [checkSize, if_neg holds.1.not_ge, if_neg holds.2.not_gt]
  rfl

theorem checkSize_refused (large : ¬context.Holds size) :
    ∃ fault, ∀ store, context.checkSize size store = (.error (.fault fault), store) := by
  by_cases isWord : size < Decimal.twoTo 63
  · have exceeds : context.memory < size := not_le.1 fun fits => large ⟨isWord, fits⟩
    exact ⟨.outOfMemory,
      fun _ => by simp only [checkSize, if_neg isWord.not_ge, if_pos exceeds]; rfl⟩
  · exact ⟨.numberTooLarge, fun _ => by simp only [checkSize, if_pos (not_lt.1 isWord)]; rfl⟩

end Context

theorem calm_intText (value : Int) : Calm (intText value) := by
  unfold intText
  split <;> trivial

section Writing

variable (heap : Heap)

theorem calm_inspect (nesting : Nat) (value : Value) : Calm (value.inspect heap nesting) := by
  induction nesting generalizing value with
  | zero => trivial
  | succ nesting ih =>
    unfold Value.inspect
    cases value with
    | bool value => cases value <;> trivial
    | int => exact (calm_intText _).bind fun _ _ => trivial
    | array => exact (gives_mapM fun item _ => ih item).bind fun _ _ => trivial
    | range start stop => exact (ih start).bind fun _ _ => (ih stop).bind fun _ _ => trivial
    | _ => trivial

theorem calm_inspectDraft (nesting : Nat) (value : Value) :
    Calm (value.inspectDraft heap nesting) :=
  (calm_inspect heap nesting value).bind fun _ _ => trivial

theorem calm_toDraft (nesting : Nat) (value : Value) : Calm (value.toDraft heap nesting) := by
  unfold Value.toDraft
  split
  case h_5 => exact calm_inspectDraft heap nesting _
  all_goals trivial

theorem calm_toText (nesting : Nat) (value : Value) : Calm (value.toText heap nesting) :=
  (calm_toDraft heap nesting value).map fun _ _ => trivial

theorem calm_joined (separator : Text) (nesting : Nat) (items : List Value) :
    Calm (Value.joined heap separator nesting items) := by
  induction nesting generalizing items with
  | zero => trivial
  | succ nesting ih =>
    refine (gives_mapM (P := fun _ => True) fun item member => ?_).bind fun _ _ => trivial
    split
    · exact ih _
    · exact calm_toDraft heap nesting _

theorem calm_lines (nesting : Nat) (value : Value) : Calm (value.lines heap nesting) := by
  induction nesting generalizing value with
  | zero => trivial
  | succ nesting ih =>
    unfold Value.lines
    split
    · exact (gives_mapM fun item _ => ih item).bind fun _ _ => trivial
    · exact (calm_toText heap nesting _).bind fun _ _ => trivial

variable {heap}

/-- Flattening gives elements of the arrays that it spreads out. -/
theorem gives_flattened {holds : Value → Prop}
    (elements : ∀ address, holds (.array address) → ∀ item ∈ heap.items address, holds item)
    (nesting : Nat) {items : List Value} (known : ∀ item ∈ items, holds item) :
    Gives Signal.Plain (fun result => ∀ item ∈ result, holds item)
      (Value.flattened heap nesting items) := by
  induction nesting generalizing items with
  | zero => trivial
  | succ nesting ih =>
    refine (gives_mapM (P := fun part => ∀ item ∈ part, holds item) fun item member => ?_).bind
      fun parts each => forall_mem_flatten.2 each
    have itemKnown := known item member
    split
    · exact ih fun item member => elements _ itemKnown item (Array.mem_toList_iff.1 member)
    · exact forall_mem_singleton.2 itemKnown

end Writing

section Comparing

variable (heap : Heap)

theorem calm_endEqual (nesting : Nat) (left right : Value) :
    Calm (Value.endEqual heap nesting left right) := by
  induction nesting generalizing left right with
  | zero => trivial
  | succ nesting ih =>
    unfold Value.endEqual
    split
    · trivial
    split
    case h_3 =>
      dsimp only
      split
      · trivial
      · exact calm_allM (fun pair : Value × Value => ih pair.1 pair.2) _
    case h_4 =>
      refine (ih _ _).bind fun same _ => ?_
      cases same with
      | false => trivial
      | true =>
        refine (ih _ _).bind fun same _ => ?_
        cases same <;> trivial
    all_goals first | trivial | (split <;> trivial)

theorem calm_equal (nesting : Nat) (left right : Value) :
    Calm (Value.equal heap nesting left right) := by
  induction nesting generalizing left right with
  | zero => trivial
  | succ nesting ih =>
    unfold Value.equal
    split
    case h_9 =>
      dsimp only
      split
      · trivial
      · exact calm_allM (fun pair : Value × Value => ih pair.1 pair.2) _
    case h_10 => exact calm_endEqual heap nesting _ _
    all_goals trivial

theorem calm_compare (nesting : Nat) (left right : Value) :
    Calm (Value.compare heap nesting left right) := by
  induction nesting generalizing left right with
  | zero => trivial
  | succ nesting ih =>
    unfold Value.compare
    split
    · trivial
    split
    · trivial
    · refine (gives_foldlM (P := fun _ => True) (fun pair _ order _ => ?_) _ trivial).bind
        fun _ _ => trivial
      split
      · exact ih pair.1 pair.2
      · trivial
    · exact (calm_inspect heap nesting _).bind fun _ _ => trivial

theorem calm_less (nesting : Nat) (left right : Value) :
    Calm (Value.less heap nesting left right) :=
  (calm_compare heap nesting left right).map fun _ _ => trivial

/-- The distinct elements are elements. -/
theorem gives_distinct (nesting : Nat) (items : List Value) :
    Gives Signal.Plain (fun result => ∀ item ∈ result, item ∈ items)
      (ArrayMethod.distinct heap nesting items) := by
  refine gives_foldlM (fun item member seen among => ?_) [] (forall_mem_nil _)
  refine (calm_anyM (fun other => calm_equal heap nesting item other) seen).bind fun found _ => ?_
  cases found with
  | true => exact among
  | false => exact forall_mem_append.2 ⟨among, forall_mem_singleton.2 member⟩

end Comparing

section Calculating

theorem calm_toFloat (number : Number) : Calm number.toFloat := by
  unfold Number.toFloat
  split
  · trivial
  · split <;> trivial

theorem calm_combine (onInts : Int → Int → Int) (onFloats : Float → Float → Float)
    (left right : Number) : Calm (Number.combine onInts onFloats left right) := by
  unfold Number.combine
  split
  · trivial
  · exact (calm_toFloat left).bind fun _ _ => (calm_toFloat right).bind fun _ _ => trivial

theorem calm_divide (left right : Number) : Calm (left.divide right) := by
  unfold Number.divide
  split
  · split <;> trivial
  split
  · split
    · trivial
    refine (calm_toFloat _).bind fun x _ => ?_
    split
    · trivial
    · exact (calm_toFloat _).bind fun _ _ => trivial
  · exact (calm_toFloat _).bind fun _ _ => (calm_toFloat _).bind fun _ _ => trivial

theorem calm_modulo (left right : Number) : Calm (left.modulo right) := by
  unfold Number.modulo
  split
  · split <;> trivial
  split
  · trivial
  · exact (calm_toFloat _).bind fun _ _ => (calm_toFloat _).bind fun _ _ => trivial

theorem calm_floatPower (base exponent : Float) : Calm (Number.floatPower base exponent) := by
  unfold Number.floatPower Number.complexPower
  dsimp only
  repeat' split
  all_goals trivial

theorem calm_power (left right : Number) : Calm (left.power right) := by
  unfold Number.power
  split
  · trivial
  · exact (calm_toFloat left).bind fun _ _ => (calm_toFloat right).bind fun _ _ =>
      calm_floatPower _ _

theorem calm_arithmetic (op : BinaryOp) (left right : Number) {result : Except Signal Computed}
    (isArithmetic : Operator.arithmetic? op left right = some result) : Calm result := by
  unfold Operator.arithmetic? at isArithmetic
  split at isArithmetic
  all_goals cases isArithmetic
  · exact calm_combine _ _ left right
  · exact calm_combine _ _ left right
  · exact calm_combine _ _ left right
  · exact calm_divide left right
  · exact calm_modulo left right
  · exact calm_power left right

end Calculating

namespace Format

theorem calm_decimalText (value : Int) : Calm (decimalText value) := by
  unfold decimalText
  split <;> trivial

theorem calm_detailed (heap : Heap) (nesting : Nat) (active : List Value) (value : Value) :
    Calm (detailed heap nesting active value) := by
  induction nesting generalizing active value with
  | zero => trivial
  | succ nesting ih =>
    unfold detailed
    split
    case h_3 => exact (calm_decimalText _).bind fun _ _ => trivial
    case h_7 =>
      split
      · trivial
      · exact (gives_mapM fun item _ => ih _ item).bind fun _ _ => trivial
    case h_8 =>
      split
      · trivial
      · exact (ih _ _).bind fun _ _ => (ih _ _).bind fun _ _ => trivial
    all_goals trivial

theorem calm_plain (heap : Heap) (nesting : Nat) (value : Value) :
    Calm (plain heap nesting value) := by
  unfold plain
  split
  case h_3 => exact calm_detailed heap nesting [] _
  all_goals trivial

section Reading

variable (values : List Value)

theorem calm_nextValue : Calm (nextValue values) := by
  cases values <;> trivial

theorem calm_starValue (bound : Nat) : Calm (starValue bound values) := by
  refine (calm_nextValue values).bind fun entry _ => ?_
  obtain ⟨value, values⟩ := entry
  have bounded (number : Int) : Calm
      (if number < -Int.ofNat bound ∨ Int.ofNat bound ≤ number then .error (.fault .numberTooLarge)
      else pure (number, values) : Except Signal (Int × List Value)) := by
    split <;> trivial
  cases value with
  | int value => exact bounded value
  | bool value => exact bounded (if value then 1 else 0)
  | _ => trivial

theorem calm_readNumber (bound : Nat) (message : String) (value : Nat) (codes : List CodePoint) :
    Calm (readNumber bound message value codes) := by
  induction codes generalizing value with
  | nil => trivial
  | cons code rest ih =>
    unfold readNumber
    split
    · dsimp only
      split
      · trivial
      · exact ih _
    · trivial

theorem calm_readWidth (directive : Directive) (codes : List CodePoint) :
    Calm (readWidth directive values codes) := by
  unfold readWidth
  split
  · trivial
  split
  · exact (calm_starValue _ _).bind fun _ _ => trivial
  split
  · exact (calm_readNumber ..).bind fun _ _ => trivial
  · trivial

theorem calm_readPrecision (directive : Directive) (codes : List CodePoint) :
    Calm (readPrecision directive values codes) := by
  unfold readPrecision
  split
  · trivial
  split
  · unfold readPlaces
    split
    · trivial
    split
    · exact (calm_starValue _ _).bind fun _ _ => trivial
    · exact (calm_readNumber ..).bind fun _ _ => trivial
  · trivial

end Reading

theorem calm_writeInteger (directive : Directive) (letter : Char) (value : Int) :
    Calm (writeInteger directive letter value) := by
  unfold writeInteger
  dsimp only
  split
  case h_4 => exact (calm_decimalText _).bind fun _ _ => trivial
  all_goals trivial

theorem calm_integerFor (letter : Char) (value : Value) : Calm (integerFor letter value) := by
  unfold integerFor
  dsimp only
  repeat' split
  all_goals trivial

theorem calm_floatFor (value : Value) : Calm (floatFor value) := by
  unfold floatFor
  dsimp only
  repeat' split
  all_goals trivial

theorem calm_codePointFor (value : Value) : Calm (codePointFor value) := by
  unfold codePointFor
  dsimp only
  repeat' split
  all_goals trivial

section Formatting

variable (heap : Heap) (nesting : Nat)

theorem calm_writeValue (directive : Directive) (code : CodePoint) (index : Thunk Nat)
    (value : Value) : Calm (writeValue heap nesting directive code index value) := by
  have detail := calm_detailed heap nesting [] value
  unfold writeValue
  dsimp only
  split
  · split
    · trivial
    · exact (calm_plain heap nesting value).bind fun _ _ => trivial
  split
  · exact detail.bind fun _ _ => trivial
  split
  · exact detail.bind fun _ _ => trivial
  split
  · exact (calm_integerFor _ value).bind fun _ _ =>
      (calm_writeInteger directive _ _).bind fun _ _ => trivial
  split
  · exact (calm_integerFor _ value).bind fun _ _ =>
      (calm_writeInteger directive _ _).bind fun _ _ => trivial
  split
  · exact (calm_floatFor value).bind fun _ _ => trivial
  split
  · exact (calm_codePointFor value).bind fun _ _ => trivial
  · trivial

theorem calm_contributions (template : TextObject) (fuel : Nat) (codes : List CodePoint)
    (values : List Value) : Calm (contributions heap nesting template fuel codes values) := by
  induction fuel generalizing codes values with
  | zero => trivial
  | succ fuel ih =>
    rcases codes with _ | ⟨code, rest⟩
    · unfold contributions
      split <;> trivial
    unfold contributions
    dsimp only
    split
    · exact (ih _ _).bind fun _ _ => trivial
    split
    · exact (ih _ _).bind fun _ _ => trivial
    · trivial
    refine (calm_readWidth values _ _).bind fun read _ =>
      (calm_readPrecision _ _ _).bind fun read _ => ?_
    split
    · trivial
    · exact (calm_nextValue _).bind fun _ _ => (calm_writeValue heap nesting _ _ _ _).bind
        fun _ _ => (ih _ _).bind fun _ _ => trivial

theorem calm_format (template : TextObject) (values : List Value) :
    Calm (format heap nesting template values) :=
  (calm_contributions heap nesting _ _ _ _).map fun _ _ => trivial

end Formatting

end Format

end Hoist
