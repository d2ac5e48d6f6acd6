import Hoist.Proofs.Steps
import Hoist.Eval.Evaluate
import Mathlib

/-!
Equality of values.  Values without nan are equal when they have the same content, so equality is an
equivalence on them.  Then the distinct elements of an array are the first ones of their classes.
-/

namespace Hoist

open List Decimal

/-- The number that is denoted, or zero for nan. -/
def Number.exact (number : Number) : WithBot (WithTop ℚ) :=
  match number.extended? with
  | some .below => ⊥
  | some .above => ⊤
  | some (.finite num den) => ((num / den : ℚ) : WithTop ℚ)
  | none => ((0 : ℚ) : WithTop ℚ)

/-- What a value is compared by. -/
inductive Content where
  | nil
  | truth (value : Bool)
  | number (value : WithBot (WithTop ℚ))
  | text (value : Text)
  | symbol (name : Text)
  | array (items : List Content)
  | range (start stop : Content) (exclusive : Bool)
  | proc (address : Address) (isLambda : Bool)
  | classRef (name : String)
  | error (className : String) (message : Text)

namespace Value

/-- Values of real numbers and of all other kinds, without nan and nested less than `nesting` deep.
A range counts twice, unless it is itself the end of a range. -/
def isFinite (heap : Heap) : (nesting : Nat) → (atEnd : Bool) → Value → Bool
  | 0, _, _ => false
  | _ + 1, _, .float value _ => (Extended.ofFloat? value).isSome
  | _ + 1, _, .complex .. => false
  | nesting + 1, atEnd, .array address =>
    (heap.items address).toList.all (isFinite heap nesting atEnd)
  | nesting + 1, true, .range start stop _ _ =>
    isFinite heap nesting true start && isFinite heap nesting true stop
  | nesting + 1, false, .range start stop exclusive id =>
    isFinite heap nesting true (.range start stop exclusive id)
  | _ + 1, _, _ => true

/-- The content of a value; at the end of a range truth values are numbers. -/
def content (heap : Heap) : (nesting : Nat) → (atEnd : Bool) → Value → Content
  | 0, _, _ => .nil
  | _ + 1, _, .nil => .nil
  | _ + 1, false, .bool value => .truth value
  | _ + 1, true, .bool value => .number (Number.int value.toInt).exact
  | _ + 1, _, .int value _ => .number (Number.int value).exact
  | _ + 1, _, .float value _ => .number (Number.float value).exact
  | _ + 1, _, .str object => .text object.text
  | _ + 1, _, .symbol name _ => .symbol name.text
  | nesting + 1, atEnd, .array address =>
    .array ((heap.items address).toList.map (content heap nesting atEnd))
  | nesting + 1, true, .range start stop exclusive _ =>
    .range (content heap nesting true start) (content heap nesting true stop) exclusive
  | nesting + 1, false, .range start stop exclusive id =>
    content heap nesting true (.range start stop exclusive id)
  | _ + 1, atEnd, .proc address isLambda => .proc address (atEnd && isLambda)
  | _ + 1, _, .classRef name _ => .classRef name
  | _ + 1, _, .error className message _ => .error className message.text
  | _ + 1, _, .complex .. => .nil

end Value

theorem Number.exact_int (value : Int) :
    (Number.int value).exact = ((value : ℚ) : WithTop ℚ) := by
  simp [exact, extended?, Extended.ofInt]

theorem Number.den_pos {number : Number} {num : Int} {den : Nat}
    (denotes : number.extended? = some (.finite num den)) : (0 : ℚ) < den := by
  cases number with
  | int => cases denotes; simp
  | float value =>
    simp only [Number.extended?, Extended.ofFloat?] at denotes
    split at denotes
    case h_4 exponent _ =>
      cases denotes
      cases exponent with
      | ofNat => simp [signedMagnitude, magnitude]
      | negSucc exponent => simp [signedMagnitude, magnitude, twoTo]
    all_goals cases denotes

theorem compare_eq_compare {α β : Type} [LinearOrder α] [LinearOrder β] {a b : α} {x y : β}
    (less : a < b ↔ x < y) (more : b < a ↔ y < x) : compare a b = compare x y := by
  rcases lt_trichotomy a b with below | rfl | above
  · rw [compare_lt_iff_lt.2 below, compare_lt_iff_lt.2 (less.1 below)]
  · have same : x = y :=
      le_antisymm (not_lt.1 (mt more.2 (lt_irrefl a))) (not_lt.1 (mt less.2 (lt_irrefl a)))
    rw [compare_eq_iff_eq.2 rfl, compare_eq_iff_eq.2 same]
  · rw [compare_gt_iff_gt.2 above, compare_gt_iff_gt.2 (more.1 above)]

theorem Number.compare_eq {left right : Number} (isLeft : left.extended?.isSome)
    (isRight : right.extended?.isSome) : left.compare right = compare left.exact right.exact := by
  obtain ⟨x, isX⟩ := Option.isSome_iff_exists.1 isLeft
  obtain ⟨y, isY⟩ := Option.isSome_iff_exists.1 isRight
  rw [Number.compare, Number.exact, Number.exact, isX, isY]
  cases x <;> cases y
  case finite.finite num den num' den' =>
    have below {num num' : Int} {den den' : ℕ} (pos : (0 : ℚ) < den) (pos' : (0 : ℚ) < den') :
        num * den' < num' * den ↔
          (((num / den : ℚ) : WithTop ℚ) : WithBot (WithTop ℚ)) <
            ((num' / den' : ℚ) : WithTop ℚ) := by
      rw [WithBot.coe_lt_coe, WithTop.coe_lt_coe, div_lt_div_iff₀ pos pos']
      exact_mod_cast Iff.rfl
    exact compare_eq_compare (below (den_pos isX) (den_pos isY)) (below (den_pos isY) (den_pos isX))
  case below.below | above.above => exact (compare_eq_iff_eq.2 rfl).symm
  case below.finite | below.above => exact (compare_lt_iff_lt.2 (WithBot.bot_lt_coe _)).symm
  case finite.below | above.below => exact (compare_gt_iff_gt.2 (WithBot.bot_lt_coe _)).symm
  case finite.above =>
    exact (compare_lt_iff_lt.2 (WithBot.coe_lt_coe.2 (WithTop.coe_lt_top _))).symm
  case above.finite =>
    exact (compare_gt_iff_gt.2 (WithBot.coe_lt_coe.2 (WithTop.coe_lt_top _))).symm

open Classical in
theorem Number.equal_eq {left right : Number} (isLeft : left.extended?.isSome)
    (isRight : right.extended?.isSome) :
    left.equal right = decide (Content.number left.exact = .number right.exact) := by
  obtain ⟨x, isX⟩ := Option.isSome_iff_exists.1 isLeft
  obtain ⟨y, isY⟩ := Option.isSome_iff_exists.1 isRight
  have equal : left.equal right = (left.compare right == .eq) := by
    rw [Number.equal, Number.compare, isX, isY]
  rw [equal, compare_eq isLeft isRight, Bool.eq_iff_iff]
  simp

section Equality

variable {heap : Heap} {left right : Value}

open Classical in
theorem allM_zip_eq {α κ : Type} {test : α → α → Except Signal Bool} {key : α → κ} :
    (left right : List α) → left.length = right.length →
    (∀ one ∈ left, ∀ other ∈ right, test one other = .ok (decide (key one = key other))) →
    ((left.zip right).allM fun pair => test pair.1 pair.2) =
      .ok (decide (left.map key = right.map key))
  | [], [], _, _ => by simp; rfl
  | one :: left, other :: right, sized, tests => by
    have rest := allM_zip_eq left right (Nat.succ.inj sized) fun one member other among =>
      tests one (mem_cons_of_mem _ member) other (mem_cons_of_mem _ among)
    have first := tests one mem_cons_self other mem_cons_self
    rw [zip_cons_cons, allM]
    by_cases same : key one = key other
    · simp only [first, same, decide_true, map_cons, cons.injEq, true_and]
      exact rest
    · simp [first, same]; rfl

open Classical in
theorem Value.array_eq {address other : Address} {nesting : Nat} {atEnd : Bool}
    {test : Value → Value → Except Signal Bool}
    (tests : ∀ one ∈ (heap.items address).toList, ∀ two ∈ (heap.items other).toList,
      test one two = .ok (decide (one.content heap nesting atEnd =
        two.content heap nesting atEnd))) :
    (if (heap.items address).toList.length != (heap.items other).toList.length then .ok false
      else ((heap.items address).toList.zip (heap.items other).toList).allM fun pair =>
        test pair.1 pair.2) = .ok (decide ((array address).content heap (nesting + 1) atEnd =
          (array other).content heap (nesting + 1) atEnd)) := by
  rw [content, content]
  by_cases sized : (heap.items address).toList.length = (heap.items other).toList.length
  · rw [if_neg (by simpa using sized), allM_zip_eq _ _ sized tests]
    simp
  · rw [if_pos (by simpa using sized), decide_eq_false]
    intro same
    exact sized (by simpa using congrArg length (Content.array.inj same))

open Classical in
theorem Value.endEqual_eq (nesting : Nat) (isLeft : left.isFinite heap nesting true)
    (isRight : right.isFinite heap nesting true) : left.endEqual heap nesting right =
      .ok (decide (left.content heap nesting true = right.content heap nesting true)) := by
  induction nesting generalizing left right with
  | zero => cases isLeft
  | succ nesting ih =>
    by_cases same : left = right
    · simp [endEqual, sameObject, same]
    unfold endEqual
    rw [if_neg (by simpa [sameObject] using same)]
    cases left <;> cases right
    case array.array =>
      exact array_eq fun one member two among => ih (all_eq_true.1 isLeft one member)
        (all_eq_true.1 isRight two among)
    case range.range start stop exclusive _ start' stop' exclusive' _ =>
      obtain ⟨isStart, isStop⟩ := Bool.and_eq_true_iff.1 isLeft
      obtain ⟨isStart', isStop'⟩ := Bool.and_eq_true_iff.1 isRight
      by_cases starts : start.content heap nesting true = start'.content heap nesting true <;>
        by_cases stops : stop.content heap nesting true = stop'.content heap nesting true <;>
        simp [ih isStart isStart', ih isStop isStop', content, starts, stops] <;> rfl
    case proc.proc =>
      refine congrArg Except.ok (decide_eq_false fun alike => same ?_).symm
      simpa [content] using alike
    all_goals
      try casesm* Bool
      all_goals first
        | exact absurd isLeft Bool.false_ne_true
        | exact absurd isRight Bool.false_ne_true
        | exact absurd rfl same
        | exact congrArg Except.ok (Number.equal_eq isLeft isRight)
        | (refine congrArg Except.ok (Bool.eq_iff_iff.2 ?_); simp [content])

open Classical in
theorem Value.equal_eq (nesting : Nat) (isLeft : left.isFinite heap nesting false)
    (isRight : right.isFinite heap nesting false) : left.equal heap nesting right =
      .ok (decide (left.content heap nesting false = right.content heap nesting false)) := by
  induction nesting generalizing left right with
  | zero => cases isLeft
  | succ nesting ih =>
    unfold equal
    cases left <;> cases right
    case array.array =>
      exact array_eq fun one member two among => ih (all_eq_true.1 isLeft one member)
        (all_eq_true.1 isRight two among)
    case range.range => exact endEqual_eq nesting isLeft isRight
    all_goals first
      | exact absurd isLeft Bool.false_ne_true
      | exact absurd isRight Bool.false_ne_true
      | exact congrArg Except.ok (Number.equal_eq isLeft isRight)
      | (refine congrArg Except.ok (Bool.eq_iff_iff.2 ?_); simp [content, Number.exact_int]; done)
      -- A range is compared at the next level, which exists.
      | (cases nesting
         · first | exact absurd isLeft Bool.false_ne_true | exact absurd isRight Bool.false_ne_true
         · refine congrArg Except.ok (Bool.eq_iff_iff.2 ?_)
           simp [content])

end Equality

/-- Values that are finite in a heap. -/
structure FiniteValue (heap : Heap) (nesting : Nat) where
  val : Value
  isFinite : val.isFinite heap nesting false

namespace FiniteValue

variable {heap : Heap} {nesting : Nat}

def Equals (left right : FiniteValue heap nesting) : Prop :=
  left.val.equal heap nesting right.val = .ok true

theorem equals_iff {left right : FiniteValue heap nesting} : left.Equals right ↔
    left.val.content heap nesting false = right.val.content heap nesting false := by
  simp [Equals, Value.equal_eq nesting left.isFinite right.isFinite]

open Classical in
theorem equal_eq (left right : FiniteValue heap nesting) :
    left.val.equal heap nesting right.val = .ok (decide (left.Equals right)) := by
  simp [equals_iff, Value.equal_eq nesting left.isFinite right.isFinite]

theorem equivalence : Equivalence (@Equals heap nesting) :=
  ⟨fun _ => equals_iff.2 rfl, fun same => equals_iff.2 (equals_iff.1 same).symm,
    fun same same' => equals_iff.2 ((equals_iff.1 same).trans (equals_iff.1 same'))⟩

end FiniteValue

/-- The items that are like none before them. -/
inductive Firsts {α : Type} (alike : α → α → Prop) : (items firsts : List α) → Prop
  | nil : Firsts alike [] []
  | first {items firsts : List α} {item : α} : Firsts alike items firsts →
    (∀ other ∈ items, ¬alike item other) → Firsts alike (items ++ [item]) (firsts ++ [item])
  | later {items firsts : List α} {item : α} : Firsts alike items firsts →
    (∃ other ∈ items, alike item other) → Firsts alike (items ++ [item]) firsts

/-- The chosen items stand for all of them: they are the first ones, no two are alike, and each item
is like exactly one of them. -/
structure Represents {α : Type} (alike : α → α → Prop) (items chosen : List α) : Prop where
  firsts : Firsts alike items chosen
  apart : chosen.Pairwise fun one other => ¬alike other one
  unique : ∀ item ∈ items, ∃! one, one ∈ chosen ∧ alike item one

section Firsts

variable {α : Type} {alike : α → α → Prop} {items firsts : List α}

namespace Firsts

theorem subset (are : Firsts alike items firsts) : firsts ⊆ items := by
  induction are with
  | nil => exact Subset.refl _
  | first _ _ ih => exact append_subset.2 ⟨subset_append_of_subset_left _ ih, by simp⟩
  | later _ _ ih => exact subset_append_of_subset_left _ ih

theorem apart (are : Firsts alike items firsts) :
    firsts.Pairwise fun one other => ¬alike other one := by
  induction are with
  | nil => exact .nil
  | first are new ih =>
    refine pairwise_append.2 ⟨ih, pairwise_singleton .., fun one member item isItem => ?_⟩
    cases mem_singleton.1 isItem
    exact new one (are.subset member)
  | later _ _ ih => exact ih

theorem covers (equivalence : Equivalence alike) (are : Firsts alike items firsts) :
    ∀ item ∈ items, ∃ one ∈ firsts, alike item one := by
  induction are with
  | nil => exact nofun
  | @first _ _ item _ _ ih =>
    refine forall_mem_append.2 ⟨fun item member => ?_, ?_⟩
    · obtain ⟨one, isOne, same⟩ := ih item member
      exact ⟨one, mem_append_left _ isOne, same⟩
    · exact forall_mem_singleton.2 ⟨item, by simp, equivalence.refl item⟩
  | later _ found ih =>
    obtain ⟨other, member, same⟩ := found
    obtain ⟨one, isOne, same'⟩ := ih other member
    exact forall_mem_append.2
      ⟨ih, forall_mem_singleton.2 ⟨one, isOne, equivalence.trans same same'⟩⟩

theorem eq_of_apart (are : Firsts alike items firsts)
    (apart : items.Pairwise fun one other => ¬alike other one) : firsts = items := by
  induction are with
  | nil => rfl
  | first _ _ ih => rw [ih (pairwise_append.1 apart).1]
  | later _ found =>
    obtain ⟨other, member, same⟩ := found
    exact absurd same ((pairwise_append.1 apart).2.2 other member _ mem_cons_self)

theorem represents (equivalence : Equivalence alike) (are : Firsts alike items firsts) :
    Represents alike items firsts := by
  refine ⟨are, are.apart, fun item member => ?_⟩
  obtain ⟨one, isOne, same⟩ := are.covers equivalence item member
  refine ⟨one, ⟨isOne, same⟩, fun other ⟨isOther, same'⟩ => ?_⟩
  by_contra different
  have : Std.Symm fun one other : α => ¬alike other one :=
    ⟨fun _ _ apart same => apart (equivalence.symm same)⟩
  exact are.apart.forall isOther isOne different (equivalence.trans (equivalence.symm same) same')

end Firsts

end Firsts

section Methods

variable {heap : Heap} {nesting : Nat} {context : Context} {store : Store}

open Classical in
theorem anyM_equal (item : FiniteValue heap nesting) (others : List (FiniteValue heap nesting)) :
    ((others.map (·.val)).anyM fun other => item.val.equal heap nesting other) =
      .ok (decide (∃ other ∈ others, item.Equals other)) := by
  induction others with
  | nil => simp; rfl
  | cons other rest ih =>
    rw [map_cons, anyM, item.equal_eq other, ok_bind]
    by_cases same : item.Equals other
    · simp [same]; rfl
    · simp only [same, decide_false, exists_mem_cons_iff, false_or]
      exact ih

theorem distinct_firsts (items : List (FiniteValue heap nesting)) :
    ∃ chosen : List (FiniteValue heap nesting),
      ArrayMethod.distinct heap nesting (items.map (·.val)) = .ok (chosen.map (·.val)) ∧
        Firsts FiniteValue.Equals items chosen := by
  induction items using reverseRecOn with
  | nil => exact ⟨[], rfl, .nil⟩
  | append_singleton items item ih =>
    obtain ⟨chosen, ran, are⟩ := ih
    rw [ArrayMethod.distinct] at ran ⊢
    simp only [map_append, foldlM_append, ran, ok_bind, map_cons, map_nil, foldlM_cons, foldlM_nil,
      anyM_equal]
    by_cases found : ∃ other ∈ chosen, item.Equals other
    · obtain ⟨other, member, same⟩ := found
      refine ⟨chosen, ?_, are.later ⟨other, are.subset member, same⟩⟩
      rw [if_pos (by simpa using ⟨other, member, same⟩)]
      rfl
    · refine ⟨chosen ++ [item], ?_, are.first fun other member same => found ?_⟩
      · rw [if_neg (by simpa using found), map_append]
        rfl
      · obtain ⟨one, isOne, same'⟩ := are.covers FiniteValue.equivalence other member
        exact ⟨one, isOne, FiniteValue.equivalence.trans same same'⟩

theorem firstPassing?_of_ok {test : Value → Run Bool} {answer : Value → Bool} {items : List Value}
    (answers : ∀ item ∈ items, test item store = (.ok (answer item), store)) :
    Run.firstPassing? test items store = (.ok (items.find? answer), store) := by
  induction items with
  | nil => rfl
  | cons item rest ih =>
    obtain ⟨first, answers⟩ := forall_mem_cons.1 answers
    rw [Run.firstPassing?, steps_bind first, find?_cons]
    cases answer item with
    | true => rfl
    | false => exact ih answers

open Classical in
theorem send_include? {address : Address}
    {items : List (FiniteValue store.arrays context.nesting)}
    (held : (store.arrays.items address).toList = items.map (·.val))
    (wanted : FiniteValue store.arrays context.nesting) :
    send context (.array address) "include?" [wanted.val] none store =
      (.ok (.bool (decide (∃ item ∈ items, item.Equals wanted))), store) := by
  have answers : ∀ item ∈ (store.arrays.items address).toList,
      context.equal item wanted.val store = (.ok (decide (item.equal store.arrays context.nesting
        wanted.val = .ok true)), store) := by
    rw [held]
    refine forall_mem_map.2 fun item _ => ?_
    refine (congrArg (fun result => Run.ofExcept result store) (item.equal_eq wanted)).trans ?_
    exact congrArg (fun found => (Except.ok found, store)) (decide_eq_decide.2 Iff.rfl)
  refine (steps_bind (firstPassing?_of_ok answers)).trans ?_
  refine congrArg (fun found => (Except.ok (Value.bool found), store)) (Bool.eq_iff_iff.2 ?_)
  rw [decide_eq_true_iff]
  simp [held, FiniteValue.Equals]

end Methods

/-- Equality is an equivalence on finite values without nan, and it is decided.  `uniq` picks the
first value of each class and changes nothing when repeated, and whether a value is included can be
asked of what it picks. -/
theorem equal_equivalence (context : Context) (store : Store) (address : Address)
    (items : List (FiniteValue store.arrays context.nesting))
    (held : (store.arrays.items address).toList = items.map (·.val)) :
    (∀ heap nesting, Equivalence (@FiniteValue.Equals heap nesting) ∧
      ∀ left right : FiniteValue heap nesting,
        ∃ same, left.val.equal heap nesting right.val = .ok same) ∧
    ∃ chosen, Represents FiniteValue.Equals items chosen ∧
      send context (.array address) "uniq" [] none store =
        Run.newList (chosen.map (·.val)) store ∧
      ∀ other, (store.arrays.items other).toList = chosen.map (·.val) →
        send context (.array other) "uniq" [] none store =
          Run.newList (chosen.map (·.val)) store ∧
        ∀ wanted : FiniteValue store.arrays context.nesting,
          ∃ found, (found = true ↔ ∃ item ∈ items, item.Equals wanted) ∧
            ∀ array ∈ [address, other],
              send context (.array array) "include?" [wanted.val] none store =
                (.ok (.bool found), store) := by
  refine ⟨fun _ _ => ⟨FiniteValue.equivalence, fun left right => ⟨_, left.equal_eq right⟩⟩, ?_⟩
  have uniq {address : Address} {items chosen : List Value}
      (held : (store.arrays.items address).toList = items)
      (ran : ArrayMethod.distinct store.arrays context.nesting items = .ok chosen) :
      send context (.array address) "uniq" [] none store = Run.newList chosen store := by
    change (Run.ofExcept (ArrayMethod.distinct store.arrays context.nesting
      (store.arrays.items address).toList) >>= Run.newList) store = _
    rw [held, ran]
    rfl
  obtain ⟨chosen, ran, are⟩ := distinct_firsts items
  refine ⟨chosen, are.represents FiniteValue.equivalence, uniq held ran, fun other held' => ?_⟩
  obtain ⟨again, ran', are'⟩ := distinct_firsts chosen
  rw [are'.eq_of_apart are.apart] at ran'
  refine ⟨uniq held' ran', fun wanted => ⟨_, by simp, forall_mem_cons.2
    ⟨send_include? held wanted, forall_mem_singleton.2 ((send_include? held' wanted).trans ?_)⟩⟩⟩
  refine congrArg (fun found => (Except.ok (Value.bool found), store)) (Bool.eq_iff_iff.2 ?_)
  simp only [decide_eq_true_eq]
  refine ⟨fun ⟨one, member, same⟩ => ⟨one, are.subset member, same⟩, fun ⟨item, member, same⟩ => ?_⟩
  obtain ⟨one, isOne, like⟩ := are.covers FiniteValue.equivalence item member
  exact ⟨one, isOne, FiniteValue.equivalence.trans (FiniteValue.equivalence.symm like) same⟩

/-- Of one and one as a float, some stand for both. -/
theorem equal_equivalence_numbers :
    ∃ chosen, Represents (@FiniteValue.Equals #[#[.int 1 .shared, .float 1.0 .shared]] 400)
      [⟨.int 1 .shared, by decide⟩, ⟨.float 1.0 .shared, by decide⟩] chosen := by
  obtain ⟨-, chosen, represents, -⟩ := equal_equivalence (Limits.context {})
    { arrays := #[#[.int 1 .shared, .float 1.0 .shared]] } 0
    [⟨.int 1 .shared, by decide⟩, ⟨.float 1.0 .shared, by decide⟩] rfl
  exact ⟨chosen, represents⟩

end Hoist
