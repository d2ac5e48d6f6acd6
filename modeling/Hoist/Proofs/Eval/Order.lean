import Hoist.Proofs.Eval.Equality
import Hoist.Proofs.Sorting.Runs

/-!
The order of values.  As far as values without nan can be compared their comparison is an order, and
the values that come out as the same are those that are equal.  Whether two values can be compared
is not transitive, and some values cannot even be compared with themselves.  Still, sorting any
values that can be compared with each other keeps their order and does not exchange equal ones.
-/

namespace Hoist

open List
open Std (TransCmp OrientedCmp LawfulEqCmp)

variable {α κ ε : Type} {among : α → Prop} {key : α → κ} {order : α → α → Ordering → Prop}

/-- The laws of a comparison that need not have an answer.  It is about keys, so that it is told
which values are the same. -/
structure Orders (among : α → Prop) (key : α → κ) (order : α → α → Ordering → Prop) : Prop where
  swap {a b : α} {o : Ordering} : among a → among b → order a b o → order b a o.swap
  same {a b : α} {o : Ordering} : among a → among b → order a b o → (o = .eq ↔ key a = key b)
  trans {a b c : α} {o p q : Ordering} : among a → among b → among c → order a b o → order b c p →
    order a c q → o.isLE → p.isLE → q = o.then p

theorem orders_of_cmp (cmp : κ → κ → Ordering) [TransCmp cmp] [LawfulEqCmp cmp]
    (tells : ∀ {a b o}, among a → among b → (order a b o ↔ cmp (key a) (key b) = o)) :
    Orders among key order where
  swap isA isB compared := by
    rw [tells isB isA, ← (tells isA isB).1 compared]
    exact OrientedCmp.eq_swap
  same isA isB compared := by
    rw [← (tells isA isB).1 compared, LawfulEqCmp.compare_eq_iff_eq]
  trans {a b c} o p q isA isB isC compared compared' compared'' small small' := by
    obtain rfl := (tells isA isB).1 compared
    obtain rfl := (tells isB isC).1 compared'
    obtain rfl := (tells isA isC).1 compared''
    cases first : cmp (key a) (key b) with
    | lt => exact TransCmp.lt_of_lt_of_isLE first small'
    | eq => exact TransCmp.congr_left first
    | gt => simp [first] at small

section Lists

/-- Lists are compared by the first items that differ. -/
inductive Lex (order : α → α → Ordering → Prop) : List α → List α → Ordering → Prop
  | nil : Lex order [] [] .eq
  | shorter {b : α} {right : List α} : Lex order [] (b :: right) .lt
  | longer {a : α} {left : List α} : Lex order (a :: left) [] .gt
  | cons {a b : α} {left right : List α} {o p : Ordering} : order a b o →
    (o = .eq → Lex order left right p) → Lex order (a :: left) (b :: right) (o.then p)

theorem Orders.lex (orders : Orders among key order) :
    Orders (∀ item ∈ ·, among item) (map key) (Lex order) where
  swap := by
    intro left right o areLeft areRight compared
    induction compared with
    | nil => exact .nil
    | shorter => exact .longer
    | longer => exact .shorter
    | cons first _ ih =>
      obtain ⟨isLeft, areLeft⟩ := forall_mem_cons.1 areLeft
      obtain ⟨isRight, areRight⟩ := forall_mem_cons.1 areRight
      rw [Ordering.swap_then]
      refine .cons (orders.swap isLeft isRight first) fun agree => ?_
      exact ih (Ordering.swap_eq_eq.1 agree) areLeft areRight
  same := by
    intro left right o areLeft areRight compared
    induction compared with
    | nil | shorter | longer => simp
    | cons first _ ih =>
      obtain ⟨isLeft, areLeft⟩ := forall_mem_cons.1 areLeft
      obtain ⟨isRight, areRight⟩ := forall_mem_cons.1 areRight
      rw [Ordering.then_eq_eq, map_cons, map_cons, cons.injEq, orders.same isLeft isRight first]
      refine and_congr_right fun alike => ?_
      exact ih ((orders.same isLeft isRight first).2 alike) areLeft areRight
  trans := by
    intro left middle right o p q areLeft areMiddle areRight compared compared'
    induction compared generalizing right p q with
    | nil => cases compared' <;> rintro (_ | _) <;> simp
    | shorter => cases compared' <;> rintro (_ | _) <;> simp
    | longer => simp
    | @cons a b left middle o p first _ ih =>
      cases compared' with
      | longer => simp
      | @cons _ c _ right o' p' second next =>
        rintro (_ | _ | _ | ⟨third, last⟩) small small'
        obtain ⟨isA, areLeft⟩ := forall_mem_cons.1 areLeft
        obtain ⟨isB, areMiddle⟩ := forall_mem_cons.1 areMiddle
        obtain ⟨isC, areRight⟩ := forall_mem_cons.1 areRight
        have small₁ := (Ordering.isLE_then_iff_and.1 small).1
        have small₂ := (Ordering.isLE_then_iff_and.1 small').1
        obtain rfl := orders.trans isA isB isC first second third small₁ small₂
        -- The heads settle it, unless all three are the same.
        cases o with
        | lt => rfl
        | gt => cases small₁
        | eq =>
          cases o' with
          | lt => cases p <;> first | rfl | cases small
          | gt => cases small₂
          | eq => exact ih rfl areLeft areMiddle areRight (next rfl) (last rfl) small small'

/-- Comparing item by item until they differ, and the lengths then. -/
theorem lex_iff {ask : α → α → Except ε Ordering} {step : Ordering → α × α → Except ε Ordering}
    (undecided : ∀ pair, step .eq pair = ask pair.1 pair.2)
    (decided : ∀ pair, step .lt pair = .ok .lt ∧ step .gt pair = .ok .gt) (left right : List α)
    (o : Ordering) :
    ((left.zip right).foldlM step .eq >>= fun found =>
      .ok (found.then (compare left.length right.length))) = .ok o ↔
      Lex (fun a b o => ask a b = .ok o) left right o := by
  have settled (o : Ordering) (differ : o ≠ .eq) (pairs : List (α × α)) :
      pairs.foldlM step o = .ok o := by
    induction pairs with
    | nil => rfl
    | cons pair rest ih =>
      rw [foldlM_cons]
      cases o with
      | lt => rw [(decided pair).1, ok_bind, ih]
      | gt => rw [(decided pair).2, ok_bind, ih]
      | eq => contradiction
  induction left generalizing right with
  | nil =>
    cases right with
    | nil => exact ⟨fun | rfl => .nil, fun | .nil => rfl⟩
    | cons => exact ⟨fun | rfl => .shorter, fun | .shorter => rfl⟩
  | cons a left ih =>
    cases right with
    | nil => exact ⟨fun | rfl => .longer, fun | .longer => rfl⟩
    | cons b right =>
      have sizes : compare (a :: left).length (b :: right).length =
          compare left.length right.length := by
        simp [Nat.compare_eq_ite_lt]
      rw [zip_cons_cons, foldlM_cons, undecided, sizes]
      cases asked : ask a b with
      | error =>
        refine ⟨nofun, fun lex => ?_⟩
        cases lex with
        | cons first => cases asked.symm.trans first
      | ok p =>
        rw [ok_bind]
        by_cases agree : p = .eq
        · subst agree
          refine (ih right).trans ⟨fun lex => .cons asked fun _ => lex, fun lex => ?_⟩
          cases lex with
          | cons first rest =>
            cases asked.symm.trans first
            exact rest rfl
        · rw [settled p agree, ok_bind]
          have isHead (next : Ordering) : p.then next = p := by
            cases p <;> first | rfl | contradiction
          rw [isHead]
          refine ⟨fun | rfl => ?_, fun lex => ?_⟩
          · exact isHead .eq ▸ .cons asked fun same => absurd same agree
          · cases lex with
            | cons first =>
              cases asked.symm.trans first
              rw [isHead]

end Lists

section Values

variable {heap : Heap} {nesting : Nat} {left right : Value} {o : Ordering}

/-- Which values can be compared. -/
inductive Value.Compared (heap : Heap) (nesting : Nat) : Value → Value → Ordering → Prop
  | numbers {left right : Value} {a b : Number} : left.number? = some a → right.number? = some b →
    Compared heap nesting left right (a.compare b)
  | texts {a b : TextObject} : Compared heap nesting (.str a) (.str b) (a.text.compare b.text)
  | arrays {a b : Address} {o : Ordering} :
    Lex (fun left right o => left.compare heap nesting right = .ok o) (heap.items a).toList
      (heap.items b).toList o → Compared heap nesting (.array a) (.array b) o

theorem Value.compare_iff :
    left.compare heap (nesting + 1) right = .ok o ↔ Compared heap nesting left right o := by
  constructor
  · intro ran
    unfold Value.compare at ran
    split at ran
    · cases ran
      exact .numbers ‹_› ‹_›
    · split at ran
      · cases ran
        exact .texts
      · exact .arrays ((lex_iff (fun _ => rfl) (fun _ => ⟨rfl, rfl⟩) ..).1 ran)
      · obtain ⟨_, -, ⟨⟩⟩ := bind_eq_ok.1 ran
  · intro compared
    cases compared with
    | numbers isLeft isRight => simp [Value.compare, isLeft, isRight]
    | texts => rfl
    | arrays lex => exact (lex_iff (fun _ => rfl) (fun _ => ⟨rfl, rfl⟩) ..).2 lex

theorem Value.content_number {value : Value} {number : Number} (is : value.number? = some number)
    (finite : value.isFinite heap (nesting + 1) false) :
    value.content heap (nesting + 1) false = .number number.exact ∧ number.extended?.isSome := by
  cases value <;> cases is
  · exact ⟨rfl, rfl⟩
  · exact ⟨rfl, finite⟩

theorem orders_numbers : Orders (fun number : Number => number.extended?.isSome = true) Number.exact
    (fun a b o => a.compare b = o) :=
  orders_of_cmp compare fun isA isB => by rw [Number.compare_eq isA isB]

theorem orders_texts : Orders (fun _ => True) Text.toList (fun a b o => a.compare b = o) := by
  have : TransCmp fun a b : CodePoint => compare a.val b.val :=
    inferInstanceAs (TransCmp (compareOn CodePoint.val))
  have : LawfulEqCmp fun a b : CodePoint => compare a.val b.val :=
    ⟨fun {a b} same => by cases a; cases b; simpa using same⟩
  exact orders_of_cmp (List.compareLex fun a b => compare a.val b.val) fun _ _ => Iff.rfl

/-- Comparison is an order of the values that it can compare. -/
theorem orders_values (heap : Heap) (nesting : Nat) :
    Orders (fun value => value.isFinite heap nesting false = true)
      (Value.content heap nesting false)
      (fun left right o => left.compare heap nesting right = .ok o) := by
  induction nesting with
  | zero => exact ⟨nofun, nofun, nofun⟩
  | succ nesting ih =>
    refine ⟨fun isA isB compared => ?_, fun isA isB compared => ?_,
      fun isA isB isC compared compared' compared'' small small' => ?_⟩ <;>
      rw [Value.compare_iff] at *
    · cases compared with
      | numbers a b =>
        rw [← orders_numbers.swap (Value.content_number a isA).2 (Value.content_number b isB).2 rfl]
        exact .numbers b a
      | texts =>
        rw [← orders_texts.swap trivial trivial rfl]
        exact .texts
      | arrays lex =>
        exact .arrays (ih.lex.swap (all_eq_true.1 isA) (all_eq_true.1 isB) lex)
    · cases compared with
      | numbers a b =>
        obtain ⟨isNumber, finite⟩ := Value.content_number a isA
        obtain ⟨isNumber', finite'⟩ := Value.content_number b isB
        rw [orders_numbers.same finite finite' rfl, isNumber, isNumber', Content.number.injEq]
      | texts =>
        rw [orders_texts.same trivial trivial rfl, Value.content, Value.content, Content.text.injEq]
        exact ⟨Text.toList_injective, congrArg Text.toList⟩
      | arrays lex =>
        rw [ih.lex.same (all_eq_true.1 isA) (all_eq_true.1 isB) lex]
        simp [Value.content]
    · cases compared with
      | numbers a b =>
        cases compared' with
        | numbers b' c =>
          cases compared'' with
          | numbers a' c' =>
            cases a.symm.trans a'
            cases b.symm.trans b'
            cases c.symm.trans c'
            exact orders_numbers.trans (Value.content_number a isA).2 (Value.content_number b isB).2
              (Value.content_number c isC).2 rfl rfl rfl small small'
          | texts | arrays => cases a
        | texts | arrays => cases b
      | texts =>
        cases compared' with
        | numbers b => cases b
        | texts =>
          cases compared'' with
          | numbers a => cases a
          | texts => exact orders_texts.trans trivial trivial trivial rfl rfl rfl small small'
      | arrays lex =>
        cases compared' with
        | numbers b => cases b
        | arrays lex' =>
          cases compared'' with
          | numbers a => cases a
          | arrays lex'' =>
            exact ih.lex.trans (all_eq_true.1 isA) (all_eq_true.1 isB) (all_eq_true.1 isC) lex lex'
              lex'' small small'

end Values

section Ranks

variable {ask : α → α → Except ε Ordering} {items : List α} {a b : α} {o : Ordering}

/-- The items that come before one. -/
def before (ask : α → α → Except ε Ordering) (items : List α) (item : α) : Set α :=
  {other | other ∈ items ∧ ask other item = .ok .lt}

/-- Values that can be compared with each other are ordered like their ranks. -/
noncomputable def rank (ask : α → α → Except ε Ordering) (items : List α) (item : α) : Int :=
  (before ask items item).ncard

variable (orders : Orders among key fun a b o => ask a b = .ok o)
  (areAmong : ∀ item ∈ items, among item)
  (comparable : items.Pairwise fun a b => ∃ o, ask a b = .ok o)
include orders areAmong comparable

theorem both_told : items.Pairwise fun a b => (∃ o, ask a b = .ok o) ∧ ∃ o, ask b a = .ok o :=
  comparable.imp_of_mem fun isA isB ⟨o, told⟩ =>
    ⟨⟨o, told⟩, o.swap, orders.swap (areAmong _ isA) (areAmong _ isB) told⟩

theorem told_of_ne (isA : a ∈ items) (isB : b ∈ items) (differ : a ≠ b) : ∃ o, ask a b = .ok o := by
  have : Std.Symm fun a b => (∃ o, ask a b = .ok o) ∧ ∃ o, ask b a = .ok o := ⟨fun _ _ => And.symm⟩
  exact ((both_told orders areAmong comparable).forall isA isB differ).1

theorem before_subset (isA : a ∈ items) (isB : b ∈ items) (told : ask a b = .ok o)
    (small : o.isLE) : before ask items a ⊆ before ask items b := by
  rintro other ⟨member, first⟩
  by_cases isLast : other = b
  · subst isLast
    have back := orders.swap (areAmong a isA) (areAmong other isB) told
    cases o <;> cases small <;> cases first.symm.trans back
  · obtain ⟨p, told'⟩ := told_of_ne orders areAmong comparable member isB isLast
    cases orders.trans (areAmong other member) (areAmong a isA) (areAmong b isB) first told told'
      rfl small
    exact ⟨member, told'⟩

theorem compare_rank (isA : a ∈ items) (isB : b ∈ items) (told : ask a b = .ok o) :
    compare (rank ask items a) (rank ask items b) = o := by
  have less {a b : α} (isA : a ∈ items) (isB : b ∈ items) (told : ask a b = .ok .lt) :
      rank ask items a < rank ask items b := by
    refine Int.ofNat_lt.2 (Set.ncard_lt_ncard ⟨?_, fun back => ?_⟩
      (items.finite_toSet.subset fun _ => And.left))
    · exact before_subset orders areAmong comparable isA isB told rfl
    · have self : ask a a = .ok .lt := (back ⟨isA, told⟩).2
      cases (orders.same (areAmong a isA) (areAmong a isA) self).2 rfl
  have back := orders.swap (areAmong a isA) (areAmong b isB) told
  cases o with
  | lt => exact compare_lt_iff_lt.2 (less isA isB told)
  | gt => exact compare_gt_iff_gt.2 (less isB isA back)
  | eq =>
    have same : before ask items a = before ask items b :=
      (before_subset orders areAmong comparable isA isB told rfl).antisymm
        (before_subset orders areAmong comparable isB isA back rfl)
    rw [rank, rank, same, compare_eq_iff_eq]

theorem rank_eq_iff (isA : a ∈ items) (isB : b ∈ items) :
    rank ask items a = rank ask items b ↔ key a = key b := by
  by_cases same : a = b
  · simp [same]
  · obtain ⟨o, told⟩ := told_of_ne orders areAmong comparable isA isB same
    rw [← compare_eq_iff_eq, compare_rank orders areAmong comparable isA isB told]
    exact orders.same (areAmong a isA) (areAmong b isB) told

open Classical in
/-- Sorting gives the items in their order, and those with the same key as they came. -/
theorem sort_of_orders : ∃ ordered,
    Sorting.sort (fun a b => (· == .lt) <$> ask a b) items = .ok ordered ∧ ordered.Perm items ∧
      (ordered.Pairwise fun a b => ∃ o, ask a b = .ok o ∧ o.isLE) ∧
      ∀ item ∈ items, ordered.filter (key · = key item) = items.filter (key · = key item) := by
  have tells {a b : α} (isA : a ∈ items) (isB : b ∈ items) {o : Ordering} (told : ask a b = .ok o) :
      Sorting.Tells (fun _ => False) True (rank ask items a < rank ask items b)
        ((· == .lt) <$> ask a b) := by
    rw [told]
    intro
    rw [← compare_lt_iff_lt, compare_rank orders areAmong comparable isA isB told, beq_iff_eq]
  have ranked : Sorting.Comparable (fun _ => False) True (rank ask items)
      (fun a b => (· == .lt) <$> ask a b) items :=
    comparable.imp_of_mem fun isA isB ⟨o, told⟩ =>
      ⟨tells isB isA (orders.swap (areAmong _ isA) (areAmong _ isB) told), tells isA isB told⟩
  have sorts := Sorting.sorts_sort ranked
  cases ran : Sorting.sort (fun a b => (· == .lt) <$> ask a b) items with
  | error =>
    rw [ran] at sorts
    exact sorts.elim
  | ok ordered =>
    rw [ran] at sorts
    obtain ⟨⟨perm, stable⟩, inOrder⟩ := sorts
    refine ⟨ordered, rfl, perm, ?_, fun item member => ?_⟩
    · have told := (perm.pairwise_iff And.symm).2 (both_told orders areAmong comparable)
      refine (told.and (inOrder trivial)).imp_of_mem ?_
      rintro a b isA isB ⟨⟨⟨o, told⟩, -⟩, le⟩
      refine ⟨o, told, ?_⟩
      rw [← compare_rank orders areAmong comparable (perm.mem_iff.1 isA) (perm.mem_iff.1 isB) told]
      exact Std.isLE_compare.2 le
    · have sameTest (x : α) (isX : x ∈ items) :
          decide (rank ask items x = rank ask items item) = decide (key x = key item) :=
        decide_eq_decide.2 (rank_eq_iff orders areAmong comparable isX member)
      rw [← filter_congr sameTest, ← filter_congr fun x isX => sameTest x (perm.mem_iff.1 isX)]
      exact stable trivial _

end Ranks

section Methods

variable (context : Context) (store : Store) (address : Address)

theorem send_sort : send context (.array address) "sort" [] none store =
    (ArrayMethod.sorted context (store.arrays.items address).toList >>= Run.newList) store := rfl

theorem send_min : send context (.array address) "min" [] none store =
    (ArrayMethod.sorted context (store.arrays.items address).toList >>= fun items =>
      return items.head?.getD .nil) store := rfl

theorem send_max : send context (.array address) "max" [] none store =
    (ArrayMethod.sorted context (store.arrays.items address).toList >>= fun items =>
      return items.getLast?.getD .nil) store := rfl

end Methods

/-- The answer of a comparison. -/
def FiniteValue.Compares {heap : Heap} {nesting : Nat} (left right : FiniteValue heap nesting)
    (o : Ordering) : Prop :=
  left.val.compare heap nesting right.val = .ok o

open Classical in
/-- Comparison is an order of finite values without nan, as far as it has answers, and only equal
values are the same to it.  Values that can all be compared with each other are sorted: `sort` gives
them in order, equal ones as they came, and `min` and `max` are the first and the last of these. -/
theorem sort_respects_order (context : Context) (store : Store) (address : Address) :
    (∀ heap nesting, ∀ a b c : FiniteValue heap nesting,
      (∀ o, a.Compares b o ↔ b.Compares a o.swap) ∧
      (∀ o, a.Compares b o → (o = .eq ↔ a.Equals b)) ∧
      ∀ o p q, a.Compares b o → b.Compares c p → a.Compares c q → o ≠ .gt → p ≠ .gt → q ≠ .gt) ∧
    ∀ items, items = (store.arrays.items address).toList →
      (∀ item ∈ items, item.isFinite store.arrays context.nesting false) →
      (items.Pairwise fun left right =>
        ∃ o, left.compare store.arrays context.nesting right = .ok o) →
      ∃ ordered : List Value, ordered.Perm items ∧
        (ordered.Pairwise fun left right =>
          ∃ o, left.compare store.arrays context.nesting right = .ok o ∧ o ≠ .gt) ∧
        (∀ item ∈ items,
          ordered.filter (item.equal store.arrays context.nesting · = .ok true) =
            items.filter (item.equal store.arrays context.nesting · = .ok true)) ∧
        send context (.array address) "sort" [] none store = Run.newList ordered store ∧
        send context (.array address) "min" [] none store =
          (.ok (ordered.head?.getD .nil), store) ∧
        send context (.array address) "max" [] none store =
          (.ok (ordered.getLast?.getD .nil), store) := by
  refine ⟨fun heap nesting a b c => ?_, ?_⟩
  · have orders := orders_values heap nesting
    refine ⟨fun o => ⟨orders.swap a.isFinite b.isFinite, fun told => ?_⟩, fun o told => ?_,
      fun o p q told told' told'' small small' => ?_⟩
    · exact o.swap_swap ▸ orders.swap b.isFinite a.isFinite told
    · rw [orders.same a.isFinite b.isFinite told, FiniteValue.equals_iff]
    · cases orders.trans a.isFinite b.isFinite c.isFinite told told' told''
        (Ordering.isLE_iff_ne_gt.2 small) (Ordering.isLE_iff_ne_gt.2 small')
      cases o <;> simp_all
  · rintro items rfl finite comparable
    obtain ⟨ordered, ran, perm, inOrder, stable⟩ :=
      sort_of_orders (orders_values store.arrays context.nesting) finite comparable
    have sorted : ArrayMethod.sorted context (store.arrays.items address).toList store =
        (.ok ordered, store) := congrArg (fun result => Run.ofExcept result store) ran
    refine ⟨ordered, perm, ?_, fun item member => ?_, (send_sort ..).trans (steps_bind sorted),
      (send_min ..).trans (steps_bind sorted), (send_max ..).trans (steps_bind sorted)⟩
    · exact inOrder.imp fun ⟨o, told, small⟩ => ⟨o, told, Ordering.isLE_iff_ne_gt.1 small⟩
    · have sameTest (x : Value) (isX : x ∈ (store.arrays.items address).toList) :
          decide (x.content store.arrays context.nesting false =
            item.content store.arrays context.nesting false) =
          decide (item.equal store.arrays context.nesting x = .ok true) := by
        rw [Value.equal_eq _ (finite item member) (finite x isX)]
        simp [eq_comm]
      rw [← filter_congr sameTest, ← filter_congr fun x isX => sameTest x (perm.mem_iff.1 isX)]
      exact stable item member

/-- Arrays are sorted also where one of them could not be compared with itself. -/
theorem sort_respects_order_nested :
    let store : Store := { arrays := #[#[.array 1, .array 2, .array 3], #[.int 1 .shared, .nil],
      #[.int 0 .shared], #[.int 2 .shared, .bool true]] }
    ∃ ordered, ordered.Perm [.array 1, .array 2, .array 3] ∧
      send (Limits.context {}) (.array 0) "sort" [] none store = Run.newList ordered store := by
  intro store
  obtain ⟨ordered, perm, -, -, sorted, -⟩ :=
    (sort_respects_order (Limits.context {}) store 0).2 _ rfl (by decide)
      (.cons (forall_mem_cons.2 ⟨⟨.gt, rfl⟩, forall_mem_singleton.2 ⟨.lt, rfl⟩⟩)
        (.cons (forall_mem_singleton.2 ⟨.lt, rfl⟩) (pairwise_singleton ..)))
  exact ⟨ordered, perm, sorted⟩

end Hoist
