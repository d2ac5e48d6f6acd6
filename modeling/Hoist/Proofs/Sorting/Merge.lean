import Hoist.Proofs.Sorting.Search
import Hoist.Sorting.Merge
import Mathlib

/-!
Merging of two runs.  Items are sorted by keys.  Runs that are in order are merged as they would be
by taking the lesser of their first items again and again; what is left of them and what has been
merged always tells the same outcome.
-/

namespace Hoist.Sorting

open List

variable {α ε : Type} {fails : ε → Prop} {exact : Prop} {key : α → Int}
  {less : α → α → Except ε Bool} {left right : List α}

/-- A rearrangement that does not exchange items with the same key. -/
structure Same (exact : Prop) (key : α → Int) (output input : List α) : Prop where
  perm : output.Perm input
  stable : exact → ∀ k, output.filter (key · = k) = input.filter (key · = k)

namespace Same

variable {xs ys zs others : List α}

theorem refl (xs : List α) : Same exact key xs xs := ⟨.refl xs, fun _ _ => rfl⟩

theorem trans (first : Same exact key xs ys) (second : Same exact key ys zs) :
    Same exact key xs zs :=
  ⟨first.perm.trans second.perm,
    fun holds k => (first.stable holds k).trans (second.stable holds k)⟩

theorem append (first : Same exact key xs ys) (second : Same exact key zs others) :
    Same exact key (xs ++ zs) (ys ++ others) := by
  refine ⟨first.perm.append second.perm, fun holds k => ?_⟩
  rw [filter_append, filter_append, first.stable holds k, second.stable holds k]

theorem swap (apart : exact → ∀ x ∈ xs, ∀ y ∈ ys, key x ≠ key y) :
    Same exact key (ys ++ xs) (xs ++ ys) := by
  refine ⟨perm_append_comm, fun holds k => ?_⟩
  rw [filter_append, filter_append]
  by_cases found : ∃ x ∈ xs, key x = k
  · obtain ⟨x, isX, rfl⟩ := found
    have none : ys.filter (key · = key x) = [] :=
      filter_eq_nil_iff.2 fun y isY => by simpa using (apart holds x isX y isY).symm
    rw [none, nil_append, append_nil]
  · have none : xs.filter (key · = k) = [] := filter_eq_nil_iff.2 (by simpa using found)
    rw [none, nil_append, append_nil]

end Same

/-- The keys never fall. -/
abbrev Ordered (key : α → Int) (items : List α) : Prop :=
  items.Pairwise fun x y => key x ≤ key y

theorem rel_take_drop {items : List α} (ordered : Ordered key items) {count : Nat} {x y : α}
    (isX : x ∈ items.take count) (isY : y ∈ items.drop count) : key x ≤ key y := by
  rw [← take_append_drop count items] at ordered
  exact (pairwise_append.1 ordered).2.2 x isX y isY

theorem Ordered.turned {items : List α} (ordered : Ordered key items) :
    Ordered (fun x => -key x) items.reverse :=
  pairwise_reverse.2 (ordered.imp neg_le_neg)

/-- What sorting comes to. -/
structure Sorts (exact : Prop) (key : α → Int) (input output : List α) : Prop where
  same : Same exact key output input
  ordered : exact → Ordered key output

/-- Sorting from the back is sorting from the front in the opposite order. -/
theorem Sorts.turned {items merged : List α}
    (sorts : Sorts exact (fun x => -key x) items.reverse merged) :
    Sorts exact key items merged.reverse := by
  refine ⟨⟨(reverse_perm merged).trans (sorts.same.perm.trans (reverse_perm items)),
    fun isExact k => ?_⟩, fun isExact => pairwise_reverse.2 ?_⟩
  · have stable := congrArg reverse (sorts.same.stable isExact (-k))
    simpa [filter_reverse] using stable
  · exact (sorts.ordered isExact).imp neg_le_neg_iff.1

/-- Items that come before or after all others stay where they are. -/
theorem Sorts.between {front items back merged : List α} (sorts : Sorts exact key items merged)
    (ordered : exact → Ordered key front ∧ Ordered key back)
    (low : exact → ∀ x ∈ front, ∀ y ∈ items ++ back, key x ≤ key y)
    (high : exact → ∀ x ∈ items, ∀ y ∈ back, key x ≤ key y) :
    Sorts exact key (front ++ (items ++ back)) (front ++ (merged ++ back)) := by
  refine ⟨(Same.refl front).append (sorts.same.append (.refl back)), fun isExact => ?_⟩
  have among {x : α} : x ∈ merged ↔ x ∈ items := sorts.same.perm.mem_iff
  refine pairwise_append.2 ⟨(ordered isExact).1, pairwise_append.2 ⟨sorts.ordered isExact,
    (ordered isExact).2, fun x isX => high isExact x (among.1 isX)⟩, fun x isX y isY => ?_⟩
  refine low isExact x isX y ?_
  simpa only [mem_append, among] using isY

theorem mem_take_one {items : List α} {item : α} : item ∈ items.take 1 ↔ item ∈ items.head? := by
  rw [take_one, Option.mem_toList]
  rfl

/-- The later of two items is asked whether it comes before the earlier one. -/
abbrev Judges (fails : ε → Prop) (exact : Prop) (key : α → Int) (less : α → α → Except ε Bool)
    (earlier later : List α) : Prop :=
  ∀ y ∈ later, ∀ x ∈ earlier, Tells fails exact (key y < key x) (less y x)

/-- Runs that remain to be merged: all of the left one comes after the first item of the right one,
and all of the right one before the last item of the left one. -/
structure Interlocked (key : α → Int) (left right : List α) : Prop where
  orderedLeft : Ordered key left
  orderedRight : Ordered key right
  low : ∀ y ∈ right.head?, ∀ x ∈ left, key y < key x
  high : ∀ x ∈ left.getLast?, ∀ y ∈ right, key y < key x

theorem Interlocked.turned (runs : Interlocked key left right) :
    Interlocked (fun x => -key x) right.reverse left.reverse :=
  ⟨runs.orderedRight.turned, runs.orderedLeft.turned, by simpa using runs.high,
    by simpa using runs.low⟩

namespace Merging

variable {state : Merging α} {isSecond : Bool} {count : Nat}

/-- Whether an item of one run comes before one of the other. -/
def Before (key : α → Int) (isSecond : Bool) (item other : α) : Prop :=
  if isSecond then key item < key other else key item ≤ key other

instance : DecidableRel (Before key isSecond) := fun item other => by
  unfold Before
  infer_instance

theorem not_before {item other : α} :
    ¬Before key isSecond item other ↔ Before key (!isSecond) other item := by
  cases isSecond <;> simp [Before]

theorem Before.le {item other : α} (before : Before key isSecond item other) :
    key item ≤ key other := by
  cases isSecond with
  | true => exact le_of_lt before
  | false => exact before

theorem Before.trans_le {item other last : α} (before : Before key isSecond item other)
    (le : key other ≤ key last) : Before key isSecond item last := by
  cases isSecond with
  | true => exact lt_of_lt_of_le before le
  | false => exact le_trans before le

def remaining (state : Merging α) : Nat := state.first.length + state.second.length

/-- A merge under way. -/
structure Holds (exact : Prop) (key : α → Int) (state start : Merging α) : Prop where
  runs : ∀ isSecond, state.run isSecond <:+ start.run isSecond
  same : Same exact key (state.merged.toList ++ (state.first ++ state.second))
    (start.first ++ start.second)
  ordered : exact → ∀ isSecond, Ordered key (state.merged.toList ++ state.run isSecond)

theorem merged_take : (state.take isSecond count).merged.toList =
    state.merged.toList ++ (state.run isSecond).take count := by
  cases isSecond <;> simp [take]

theorem run_take : (state.take isSecond count).run isSecond = (state.run isSecond).drop count := by
  cases isSecond <;> rfl

theorem run_take_not : (state.take isSecond count).run (!isSecond) = state.run (!isSecond) := by
  cases isSecond <;> rfl

theorem remaining_take : (state.take isSecond count).remaining ≤ state.remaining := by
  cases isSecond <;> simp [remaining, take, run]

variable {start : Merging α} (holds : state.Holds exact key start)
include holds

theorem Holds.take (low : exact → ∀ item ∈ (state.run isSecond).take count,
      ∀ other ∈ (state.run !isSecond).head?, Before key isSecond item other) :
    (state.take isSecond count).Holds exact key start := by
  have whole (items : List α) : items.take count ++ items.drop count = items := take_append_drop ..
  have before (isExact : exact) : ∀ item ∈ (state.run isSecond).take count,
      ∀ other ∈ state.run !isSecond, Before key isSecond item other := by
    intro item isItem other isOther
    have inOrder := (pairwise_append.1 (holds.ordered isExact (!isSecond))).2.1
    cases isRun : state.run !isSecond with
    | nil => simp [isRun] at isOther
    | cons next rest =>
      rw [isRun] at inOrder isOther
      have first := low isExact item isItem next (by rw [isRun]; rfl)
      rcases mem_cons.1 isOther with rfl | isOther
      · exact first
      · exact first.trans_le (rel_of_pairwise_cons inOrder isOther)
  refine ⟨fun side => ?_, ?_, fun isExact side => ?_⟩
  · by_cases same : side = isSecond
    · rw [same, run_take]
      exact (drop_suffix ..).trans (holds.runs isSecond)
    · rw [Bool.eq_not_of_ne same, run_take_not]
      exact holds.runs _
  · refine .trans ?_ holds.same
    rw [merged_take, append_assoc]
    refine (Same.refl _).append ?_
    cases isSecond with
    | false => exact append_assoc .. ▸ (whole state.first).symm ▸ .refl _
    | true =>
      have moved : Same exact key (state.second.take count ++ state.first)
          (state.first ++ state.second.take count) :=
        .swap fun isExact x isX y isY => (before isExact y isY x isX : key y < key x).ne'
      have moved := moved.append (.refl (state.second.drop count))
      rwa [append_assoc, append_assoc, whole] at moved
  · have inOrder := holds.ordered isExact
    rw [merged_take]
    by_cases same : side = isSecond
    · rw [same, run_take, append_assoc, whole]
      exact inOrder isSecond
    · rw [Bool.eq_not_of_ne same, run_take_not]
      have taken := inOrder isSecond
      rw [← whole (state.run isSecond), ← append_assoc] at taken
      obtain ⟨-, left, across⟩ := pairwise_append.1 (inOrder !isSecond)
      refine pairwise_append.2 ⟨(pairwise_append.1 taken).1, left, fun x isX y isY => ?_⟩
      rcases mem_append.1 isX with isX | isX
      · exact across x isX y isY
      · exact (before isExact x isX y isY).le

omit holds in
theorem isDone_iff : state.isDone = true ↔ state.second = [] ∨ state.first.tail = [] := by
  simp [isDone]

/-- The rest needs no comparison when a merge is done. -/
theorem Holds.sorts (done : exact → state.isDone = true)
    (high : exact → ∀ x ∈ start.first.getLast?, ∀ y ∈ start.second, key y < key x) :
    Sorts exact key (start.first ++ start.second) state.result := by
  have above (isExact : exact) : ∀ x ∈ state.first, ∀ y ∈ state.second, key y < key x := by
    intro x isX y isY
    obtain ⟨before, whole⟩ := holds.runs false
    rcases isDone_iff.1 (done isExact) with none | few
    · simp [none] at isY
    · have alone : state.first = [x] := by
        cases isFirst : state.first with
        | nil => simp [isFirst] at isX
        | cons => simp_all
      refine high isExact x ?_ y ((holds.runs true).subset isY)
      rw [← show before ++ state.first = start.first from whole, alone, getLast?_concat]
      rfl
  have all : (state.take true state.second.length).Holds exact key start :=
    holds.take fun isExact y isY x isX =>
      above isExact x (mem_of_mem_head? isX) y (mem_of_mem_take isY)
  have shape : state.result = (state.take true state.second.length).merged.toList ++
      state.first := by
    rw [merged_take, result, append_assoc, run, if_pos rfl, take_length]
  refine ⟨?_, fun isExact => shape ▸ all.ordered isExact false⟩
  have same := all.same
  simp only [Merging.take, if_true, drop_length, append_nil] at same
  exact shape ▸ same

section Steps

variable (judges : Judges fails exact key less start.first start.second)
include judges

omit holds in
theorem tells_precedes {item other : α} (isItem : item ∈ start.run isSecond)
    (isOther : other ∈ start.run !isSecond) :
    Tells fails exact (Before key isSecond item other) (precedes less isSecond item other) := by
  cases isSecond with
  | true => exact judges item isItem other isOther
  | false =>
    refine (judges other isOther item isItem).negated.mono (fun _ isRight isExact => ?_) fun _ => id
    rw [isRight isExact, not_lt]
    rfl

theorem gives_oneByOne (threshold fuel : Nat) (fromSecond : Bool) (count : Nat) :
    Gives fails (fun after => after.Holds exact key start ∧ after.remaining ≤ state.remaining ∧
        (0 < fuel → after.isDone = true ∨ after.remaining < state.remaining))
      (oneByOne less threshold fuel fromSecond count state) := by
  induction fuel generalizing state fromSecond count with
  | zero => exact ⟨holds, le_rfl, fun positive => absurd positive (lt_irrefl 0)⟩
  | succ fuel ih =>
    unfold oneByOne
    split
    next first next firsts second seconds isFirst isSecond =>
      have amongFirst := (holds.runs false).subset
      have amongSecond := (holds.runs true).subset
      simp only [run, isFirst, isSecond, Bool.false_eq_true, if_true, if_false]
        at amongFirst amongSecond
      refine (judges second (amongSecond mem_cons_self) first (amongFirst mem_cons_self)).bind
        fun answer isRight => ?_
      have taken : (state.take answer 1).Holds exact key start := by
        refine holds.take fun isExact item isItem other isOther => ?_
        cases answer with
        | true => simp_all [run, Before]
        | false => simp_all [run, Before]
      have fewer : (state.take answer 1).remaining < state.remaining := by
        cases answer <;> simp [remaining, Merging.take, isFirst, isSecond]
      dsimp only
      split
      · exact ⟨taken, fewer.le, fun _ => .inr fewer⟩
      · exact (ih taken answer _).mono (fun _ ended => ⟨ended.1, ended.2.1.trans fewer.le,
          fun _ => .inr (ended.2.1.trans_lt fewer)⟩) fun _ => id
    next ended =>
      refine ⟨holds, le_rfl, fun _ => .inl (isDone_iff.2 ?_)⟩
      by_contra notDone
      obtain ⟨someSecond, twoFirst⟩ := not_or.1 notDone
      obtain ⟨second, seconds, isSecond⟩ := exists_cons_of_ne_nil someSecond
      obtain ⟨next, firsts, isTail⟩ := exists_cons_of_ne_nil twoFirst
      cases isFirst : state.first with
      | nil => simp [isFirst] at isTail
      | cons first =>
        exact ended first next firsts second seconds (by simpa [isFirst] using isTail) isSecond

/-- What a turn does to a merge under way. -/
abbrev Turns (fails : ε → Prop) (exact : Prop) (key : α → Int) (start : Merging α)
    (turn : Merging α → Except ε (Merging α × Nat)) : Prop :=
  ∀ state : Merging α, state.Holds exact key start →
    Gives fails (fun after => after.1.Holds exact key start ∧ after.1.remaining ≤ state.remaining)
      (turn state)

omit holds in
theorem turns_many {cut : Nat → Nat} (cuts : ∀ length, 0 < length → cut length < length)
    (isSecond : Bool) :
    Turns fails exact key start (many less cut isSecond) := by
  intro state holds
  unfold many
  split
  next other notDone isOther =>
    have among := (holds.runs (!isSecond)).subset (mem_of_mem_head? isOther)
    refine (gives_leading (Before key isSecond · other) (fun item isItem =>
      tells_precedes judges ((holds.runs isSecond).subset isItem) among) (fun isExact : exact => ?_)
      cuts).bind fun count parts => ?_
    · refine (pairwise_append.1 (holds.ordered isExact isSecond)).2.1.imp ?_
      cases isSecond with
      | false => exact le_trans
      | true => exact lt_of_le_of_lt
    have taken : (state.take isSecond count).Holds exact key start := by
      refine holds.take fun isExact item isItem next isNext => ?_
      cases isOther.symm.trans isNext
      exact (parts isExact).passed item isItem
    dsimp only
    split
    · exact ⟨taken, remaining_take⟩
    · refine ⟨taken.take fun isExact item isItem next isNext =>
        ?_, remaining_take.trans remaining_take⟩
      rw [run_take_not, mem_take_one] at isItem
      rw [Bool.not_not, run_take] at isNext
      cases isOther.symm.trans isItem
      exact not_before.1 ((parts isExact).failed next (mem_of_mem_head? isNext))
  next => exact ⟨holds, le_rfl⟩

omit holds judges in
theorem turns_manyAtOnce {turn : Bool → Merging α → Except ε (Merging α × Nat)}
    (turns : ∀ isSecond, Turns fails exact key start (turn isSecond)) (fuel threshold : Nat) :
    Turns fails exact key start (manyAtOnce turn isSecond fuel threshold) := by
  induction fuel generalizing threshold with
  | zero => exact fun state holds => ⟨holds, le_rfl⟩
  | succ fuel ih =>
    intro state holds
    refine (turns isSecond state holds).bind fun turned after => ?_
    refine (turns (!isSecond) turned.1 after.1).bind fun ended last => ?_
    have fewer := last.2.trans after.2
    obtain ⟨ended, otherCount⟩ := ended
    dsimp only
    split
    · exact ⟨last.1, fewer⟩
    split
    · exact (ih _ ended last.1).mono (fun _ after => ⟨after.1, after.2.trans fewer⟩) fun _ => id
    · exact ⟨last.1, fewer⟩

variable (high : exact → ∀ x ∈ start.first.getLast?, ∀ y ∈ start.second, key y < key x)
  {cut : Nat → Nat} (cuts : ∀ length, 0 < length → cut length < length)
include high cuts

theorem sorts_loop (fuel threshold : Nat) (enough : state.remaining ≤ fuel) :
    Gives fails (fun merged => Sorts exact key (start.first ++ start.second) merged.1)
      (loop less cut isSecond fuel threshold state) := by
  induction fuel generalizing threshold state with
  | zero =>
    refine holds.sorts (fun _ => isDone_iff.2 (.inl (length_eq_zero_iff.1 ?_))) high
    unfold remaining at enough
    omega
  | succ fuel ih =>
    refine (gives_oneByOne holds judges threshold _ false 0).bind fun single after => ?_
    split
    next done => exact after.1.sorts (fun _ => done) high
    next notDone =>
      refine (turns_manyAtOnce (turns_many judges cuts) _ threshold single after.1).bind
        fun ended last => ?_
      obtain ⟨ended, threshold⟩ := ended
      dsimp only
      split
      next done => exact last.1.sorts (fun _ => done) high
      next =>
        have someLeft : 0 < single.remaining :=
          Nat.add_pos_right _ (length_pos_iff.2 (not_or.1 (mt isDone_iff.2 notDone)).1)
        have fewer : single.remaining < state.remaining :=
          (after.2.2 (someLeft.trans_le after.2.1)).resolve_left notDone
        exact ih last.1 threshold (Nat.le_of_lt_succ (last.2.trans_lt (fewer.trans_le enough)))

end Steps

end Merging

section Runs

variable (judges : Judges fails exact key less left right)
include judges

theorem sorts_start (runs : exact → Interlocked key left right) {cut : Nat → Nat}
    (cuts : ∀ length, 0 < length → cut length < length) (isSecond : Bool) (threshold : Nat) :
    Gives fails (fun merged => Sorts exact key (left ++ right) merged.1)
      (Merging.start less cut isSecond threshold left right) := by
  have starts : (Merging.mk left right #[]).Holds exact key ⟨left, right, #[]⟩ := by
    refine ⟨fun _ => suffix_rfl, .refl _, fun isExact isSecond => ?_⟩
    cases isSecond with
    | false => exact (runs isExact).orderedLeft
    | true => exact (runs isExact).orderedRight
  refine Merging.sorts_loop (starts.take fun isExact y isY x isX => ?_) judges
    (fun isExact => (runs isExact).high) cuts _ threshold Merging.remaining_take
  exact (runs isExact).low y (mem_take_one.1 isY) x (mem_of_mem_head? isX)

theorem sorts_mergeForward (threshold : Nat) (runs : exact → Interlocked key left right) :
    Gives fails (fun merged => Sorts exact key (left ++ right) merged.1)
      (mergeForward less threshold left right) :=
  sorts_start judges runs upperHalf_lt false threshold

theorem sorts_mergeBackward (threshold : Nat) (runs : exact → Interlocked key left right) :
    Gives fails (fun merged => Sorts exact key (left ++ right) merged.1)
      (mergeBackward less threshold left right) := by
  have turned : Judges fails exact (fun x => -key x) (flip less) right.reverse left.reverse :=
    fun y isY x isX => by simpa [flip] using judges x (mem_reverse.1 isX) y (mem_reverse.1 isY)
  refine (sorts_start turned (fun isExact => (runs isExact).turned) lowerHalf_lt true
    threshold).bind fun merged sorts => ?_
  rw [← reverse_append] at sorts
  exact sorts.turned

theorem sorts_mergeRuns (threshold : Nat) (ordered : exact → Ordered key left ∧ Ordered key right) :
    Gives fails (fun merged => Sorts exact key (left ++ right) merged.1)
      (mergeRuns less threshold left right) := by
  unfold mergeRuns
  split
  next lowest highest isLowest isHighest =>
    have least (isExact : exact) : ∀ y ∈ right, key lowest ≤ key y := by
      obtain ⟨rest, rfl⟩ := head?_eq_some_iff.1 isLowest
      exact forall_mem_cons.2 ⟨le_rfl, fun y => rel_of_pairwise_cons (ordered isExact).2⟩
    have greatest (isExact : exact) : ∀ x ∈ left, key x ≤ key highest := by
      obtain ⟨before, rfl⟩ := getLast?_eq_some_iff.1 isHighest
      refine forall_mem_append.2 ⟨fun x isX => ?_, forall_mem_singleton.2 le_rfl⟩
      exact (pairwise_append.1 (ordered isExact).1).2.2 x isX highest (mem_singleton.2 rfl)
    refine (gives_leading (fun item => key item ≤ key lowest) (fun item isItem => ?_)
      (fun isExact : exact => (ordered isExact).1.imp le_trans) upperHalf_lt).bind
      fun kept keeps => ?_
    · exact (judges lowest (mem_of_mem_head? isLowest) item isItem).negated.mono
        (fun _ isRight isExact => by rw [isRight isExact, not_lt]) fun _ => id
    split
    next all =>
      refine ⟨.refl _, fun isExact => pairwise_append.2 ⟨(ordered isExact).1, (ordered isExact).2,
        fun x isX y isY => ((keeps isExact).passed x ?_).trans (least isExact y isY)⟩⟩
      rwa [all, take_length]
    next notAll =>
      refine (gives_leading (fun item => key highest ≤ key item) (fun item isItem => ?_)
        (fun isExact : exact => ?_) lowerHalf_lt).bind fun last moves => ?_
      · exact (judges item (mem_reverse.1 isItem) highest (mem_of_getLast? isHighest)).negated.mono
          (fun _ isRight isExact => by rw [isRight isExact, not_lt]) fun _ => id
      · exact pairwise_reverse.2 ((ordered isExact).2.imp fun below above => above.trans below)
      have above (isExact : exact) :
          ∀ y ∈ right.drop (right.length - last), key highest ≤ key y := by
        intro y isY
        refine (moves isExact).passed y ?_
        rwa [take_reverse, mem_reverse]
      have below (isExact : exact) :
          ∀ y ∈ right.take (right.length - last), key y < key highest := by
        intro y isY
        refine not_le.1 ((moves isExact).failed y ?_)
        rwa [drop_reverse, mem_reverse]
      dsimp only
      generalize right.length - last = moved at above below
      have judges : Judges fails exact key less (left.drop kept) (right.take moved) :=
        fun y isY x isX => judges y (mem_of_mem_take isY) x (mem_of_mem_drop isX)
      have runs (isExact : exact) : Interlocked key (left.drop kept) (right.take moved) := by
        refine ⟨(ordered isExact).1.drop, (ordered isExact).2.take, fun y isY x isX => ?_,
          fun x isX y isY => ?_⟩
        · rw [head?_take] at isY
          split at isY
          · cases isY
          · cases isLowest.symm.trans isY
            exact not_le.1 ((keeps isExact).failed x isX)
        · rw [getLast?_drop] at isX
          split at isX
          · cases isX
          · cases isHighest.symm.trans isX
            exact below isExact y isY
      have finish {merged : List α}
          (sorts : Sorts exact key (left.drop kept ++ right.take moved) merged) :
          Sorts exact key (left ++ right) (left.take kept ++ merged ++ right.drop moved) := by
        have whole : left.take kept ++ (left.drop kept ++ right.take moved ++ right.drop moved) =
            left ++ right := by
          rw [append_assoc, ← append_assoc, take_append_drop, take_append_drop]
        rw [← whole, append_assoc (take ..) merged]
        refine sorts.between (fun isExact => ⟨(ordered isExact).1.take, (ordered isExact).2.drop⟩)
          (fun isExact x isX y isY => ?_) fun isExact x isX y isY => ?_
        · rw [append_assoc, take_append_drop, mem_append] at isY
          rcases isY with isY | isY
          · exact rel_take_drop (ordered isExact).1 isX isY
          · exact ((keeps isExact).passed x isX).trans (least isExact y isY)
        · rcases mem_append.1 isX with isX | isX
          · exact (greatest isExact x (mem_of_mem_drop isX)).trans (above isExact y isY)
          · exact rel_take_drop (ordered isExact).2 isX isY
      split
      · exact (sorts_mergeForward judges threshold runs).bind fun _ => finish
      · exact (sorts_mergeBackward judges threshold runs).bind fun _ => finish
  next missing =>
    refine ⟨.refl _, fun isExact => ?_⟩
    cases right with
    | nil => exact (append_nil left).symm ▸ (ordered isExact).1
    | cons lowest right =>
      cases isLast : left.getLast? with
      | none => exact getLast?_eq_none_iff.1 isLast ▸ (ordered isExact).2
      | some highest => exact (missing lowest highest rfl isLast).elim

end Runs

end Hoist.Sorting
