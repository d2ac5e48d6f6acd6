import Hoist.Sorting
import Hoist.Proofs.Sorting.Merge

/-!
Sorting rearranges, and puts in order what can be compared.  The runs that wait, the one that is
being made and what is left of the list are at any time a rearrangement of the list.
-/

namespace Hoist.Sorting

open List

variable {α ε : Type} {fails : ε → Prop} {exact : Prop} {key : α → Int}
  {less : α → α → Except ε Bool} {items : List α}

theorem Same.reversed {xs : List α} (apart : exact → xs.Pairwise fun x y => key x ≠ key y) :
    Same exact key xs xs.reverse := by
  induction xs with
  | nil => exact .refl []
  | cons x xs ih =>
    have swapped : Same exact key ([x] ++ xs) (xs ++ [x]) := .swap fun isExact y isY z isZ => by
      rw [mem_singleton.1 isZ]
      exact (rel_of_pairwise_cons (apart isExact) isY).symm
    rw [reverse_cons]
    exact swapped.trans ((ih fun isExact => (apart isExact).of_cons).append (.refl [x]))

/-- Two items that can be compared either way. -/
abbrev Compares (fails : ε → Prop) (exact : Prop) (key : α → Int) (less : α → α → Except ε Bool)
    (x y : α) : Prop :=
  Tells fails exact (key y < key x) (less y x) ∧ Tells fails exact (key x < key y) (less x y)

abbrev Comparable (fails : ε → Prop) (exact : Prop) (key : α → Int) (less : α → α → Except ε Bool)
    (items : List α) : Prop :=
  items.Pairwise (Compares fails exact key less)

theorem Comparable.perm {others : List α} (comparable : Comparable fails exact key less items)
    (perm : others.Perm items) : Comparable fails exact key less others :=
  (perm.pairwise_iff fun both => ⟨both.2, both.1⟩).2 comparable

theorem Comparable.judges {earlier later : List α}
    (comparable : Comparable fails exact key less (earlier ++ later)) :
    Judges fails exact key less earlier later :=
  fun y isY x isX => ((pairwise_append.1 comparable).2.2 x isX y isY).1

section Insertion

variable {run : List α} {pivot : α}

theorem sorts_insert (judges : Judges fails exact key less run [pivot])
    (ordered : exact → Ordered key run) :
    Gives fails (Sorts exact key (run ++ [pivot])) (insert less run pivot) := by
  refine (gives_narrowItems (fun item => key item ≤ key pivot) (fun item isItem => ?_)
    (fun isExact : exact => (ordered isExact).imp le_trans) upperHalf_lt).bind fun place parts => ?_
  · exact (judges pivot (mem_singleton.2 rfl) item isItem).negated.mono
      (fun _ isRight isExact => by rw [isRight isExact, not_lt]) fun _ => id
  have whole := take_append_drop place run
  refine ⟨?_, fun isExact => ?_⟩
  · have moved : Same exact key ([pivot] ++ run.drop place) (run.drop place ++ [pivot]) :=
      .swap fun isExact x isX y isY => by
        rw [mem_singleton.1 isY]
        exact fun same => (parts isExact).failed x isX same.le
    have same := (Same.refl (run.take place)).append moved
    rwa [← append_assoc _ (drop ..), whole] at same
  · refine pairwise_append.2 ⟨(ordered isExact).take, pairwise_cons.2 ⟨fun x isX => ?_,
      (ordered isExact).drop⟩, fun x isX => forall_mem_cons.2 ⟨(parts isExact).passed x isX,
        fun y => rel_take_drop (ordered isExact) isX⟩⟩
    exact (not_le.1 ((parts isExact).failed x isX)).le

theorem sorts_inserts {added : List α} (comparable : Comparable fails exact key less (run ++ added))
    (ordered : exact → Ordered key run) :
    Gives fails (Sorts exact key (run ++ added)) (added.foldlM (insert less) run) := by
  induction added generalizing run with
  | nil =>
    rw [append_nil]
    exact ⟨.refl _, ordered⟩
  | cons pivot added ih =>
    rw [← singleton_append, ← append_assoc] at comparable ⊢
    refine (sorts_insert (Comparable.judges (pairwise_append.1 comparable).1) ordered).bind
      fun result sorts => ?_
    have same := sorts.same.append (.refl added)
    exact (ih (comparable.perm same.perm) sorts.ordered).mono
      (fun _ all => ⟨all.same.trans same, all.ordered⟩) fun _ => id

end Insertion

/-- How a list begins: with a run that is not empty unless the list is. -/
structure Begins (exact : Prop) (key : α → Int) (items : List α) (next : List α × List α) :
    Prop where
  same : Same exact key (next.1 ++ next.2) items
  ordered : exact → Ordered key next.1
  some : items ≠ [] → next.1 ≠ []

section Beginning

theorem gives_takeRun {relates : α → α → Prop} {ends : α → α → Except ε Bool}
    (trans : ∀ x y z, relates x y → relates y z → relates x z) (last : α) (before : List α)
    {rest : List α}
    (tells : ((last :: before).reverse ++ rest).Pairwise fun x y =>
      Tells fails exact (¬relates x y) (ends y x))
    (related : exact → (last :: before).Pairwise fun y x => relates x y) :
    Gives fails (fun next => next.1.reverse ++ next.2 = (last :: before).reverse ++ rest ∧
        (exact → next.1.Pairwise fun y x => relates x y) ∧ next.1 ≠ [])
      (takeRun ends last before rest) := by
  induction rest generalizing before last with
  | nil => exact ⟨rfl, related, cons_ne_nil _ _⟩
  | cons item rest ih =>
    refine ((pairwise_append.1 tells).2.2 last (by simp) item mem_cons_self).bind
      fun answer isRight => ?_
    split
    next => exact ⟨rfl, related, cons_ne_nil _ _⟩
    next goesOn =>
      have shape : (item :: last :: before).reverse ++ rest =
          (last :: before).reverse ++ item :: rest := by simp
      rw [← shape] at tells ⊢
      refine ih item (last :: before) tells fun isExact =>
        pairwise_cons.2 ⟨fun x isX => ?_, related isExact⟩
      have follows : relates last item := not_not.1 (mt (isRight isExact).2 goesOn)
      rcases mem_cons.1 isX with rfl | isX
      · exact follows
      · exact trans x last item (rel_of_pairwise_cons (related isExact) isX) follows

theorem begins_initialRun (comparable : Comparable fails exact key less items) :
    Gives fails (Begins exact key items) (initialRun less items) := by
  unfold initialRun
  split
  next => exact ⟨.refl [], fun _ => .nil, id⟩
  next item => exact ⟨.refl [item], fun _ => pairwise_singleton .., fun _ => cons_ne_nil _ _⟩
  next first second rest =>
    have firstTwo := rel_of_pairwise_cons comparable (mem_cons_self (a := second))
    refine firstTwo.1.bind fun answer isRight => ?_
    split
    next descends =>
      have tells : ([second, first].reverse ++ rest).Pairwise fun x y =>
          Tells fails exact (¬key y < key x) (negated (less y x)) :=
        comparable.imp fun both => both.1.negated
      refine (gives_takeRun (fun _ _ _ first second => second.trans first) second [first] tells
        fun isExact => by simpa using (isRight isExact).1 descends).mono (fun next found => ?_)
        fun _ => id
      refine ⟨?_, fun isExact => (found.2.1 isExact).imp le_of_lt, fun _ => found.2.2⟩
      have shape : next.1.reverse ++ next.2 = first :: second :: rest := found.1
      rw [← shape]
      exact (Same.reversed fun isExact => (found.2.1 isExact).imp ne_of_lt).append (.refl next.2)
    next ascends =>
      have tells : ([second, first].reverse ++ rest).Pairwise fun x y =>
          Tells fails exact (¬key x ≤ key y) (less y x) :=
        comparable.imp fun both => both.1.mono (fun _ isRight isExact => by
          rw [isRight isExact, not_le]) fun _ => id
      refine (gives_takeRun (fun _ _ _ first second => first.trans second) second [first] tells
        fun isExact => by simpa using not_lt.1 (mt (isRight isExact).2 ascends)).bind
        fun next found => ?_
      exact ⟨found.1 ▸ .refl _, fun isExact => pairwise_reverse.2 (found.2.1 isExact),
        fun _ => by simpa using found.2.2⟩

theorem begins_nextRun (comparable : Comparable fails exact key less items) (shortest : Nat) :
    Gives fails (Begins exact key items) (nextRun less shortest items) := by
  refine (begins_initialRun comparable).bind fun next begins => ?_
  obtain ⟨run, rest⟩ := next
  dsimp only
  have whole := take_append_drop (shortest - run.length) rest
  have all := comparable.perm begins.same.perm
  rw [← whole, ← append_assoc] at all
  refine (sorts_inserts (pairwise_append.1 all).1 begins.ordered).bind fun result sorts => ?_
  have same := sorts.same.append (.refl (rest.drop (shortest - run.length)))
  rw [append_assoc, whole] at same
  refine ⟨same.trans begins.same, sorts.ordered, fun nonempty empty => begins.some nonempty ?_⟩
  obtain rfl : result = [] := empty
  exact (append_eq_nil_iff.1 sorts.same.perm.nil_eq.symm).1

end Beginning

section Waiting

/-- Runs that wait, the last one first, and what is left of a list. -/
structure Piled (exact : Prop) (key : α → Int) (items : List α) (runs : List (List α))
    (rest : List α) : Prop where
  same : Same exact key (runs.reverse.flatten ++ rest) items
  ordered : exact → ∀ run ∈ runs, Ordered key run

variable {below : List (List α)} {earlier later : List α} {rest : List α}
  (comparable : Comparable fails exact key less items)
include comparable

/-- Neighbours may be merged wherever they stand. -/
theorem piled_mergeRuns (above : List (List α))
    (piled : Piled exact key items (above ++ later :: earlier :: below) rest) (threshold : Nat) :
    Gives fails (fun merged => Piled exact key items (above ++ merged.1 :: below) rest)
      (mergeRuns less threshold earlier later) := by
  have whole : Same exact key
      (below.reverse.flatten ++ ((earlier ++ later) ++ (above.reverse.flatten ++ rest))) items := by
    simpa using piled.same
  have both : Comparable fails exact key less (earlier ++ later) :=
    (pairwise_append.1 (pairwise_append.1 (comparable.perm whole.perm)).2.1).1
  refine (sorts_mergeRuns both.judges threshold fun isExact =>
    ⟨piled.ordered isExact earlier (by simp), piled.ordered isExact later (by simp)⟩).mono
    (fun merged sorts => ?_) fun _ => id
  constructor
  · have same := (Same.refl below.reverse.flatten).append
      (sorts.same.append (.refl (above.reverse.flatten ++ rest)))
    simpa using same.trans whole
  · intro isExact run isRun
    have others := piled.ordered isExact
    simp only [mem_append, mem_cons] at isRun others
    rcases isRun with isRun | rfl | isRun
    · exact others run (.inl isRun)
    · exact sorts.ordered isExact
    · exact others run (.inr (.inr (.inr isRun)))

theorem piled_mergeAbove (level threshold : Nat) (last : Waiting α) (waiting : List (Waiting α))
    (piled : Piled exact key items ((last :: waiting).map (·.items)) rest) :
    Gives fails (fun stack => Piled exact key items (stack.1.map (·.items)) rest)
      (mergeAbove less level threshold last waiting) := by
  induction waiting generalizing last threshold with
  | nil => exact piled
  | cons before waiting ih =>
    unfold mergeAbove
    split
    · exact (piled_mergeRuns comparable [] piled threshold).bind fun merged piled =>
        ih merged.2 { before with items := merged.1 } piled
    · exact piled

theorem piled_pushRun (length : Nat) (stack : Stack α) (run : List α)
    (piled : Piled exact key items (stack.1.map (·.items)) (run ++ rest))
    (ordered : exact → Ordered key run) :
    Gives fails (fun stack => Piled exact key items (stack.1.map (·.items)) rest)
      (pushRun less length stack run) := by
  have push {runs : List (List α)} (piled : Piled exact key items runs (run ++ rest)) :
      Piled exact key items (run :: runs) rest := by
    refine ⟨?_, fun isExact other isOther => ?_⟩
    · simpa using piled.same
    · rcases mem_cons.1 isOther with rfl | isOther
      · exact ordered isExact
      · exact piled.ordered isExact other isOther
  unfold pushRun
  split
  next => exact push piled
  next last waiting threshold =>
    exact (piled_mergeAbove comparable _ threshold last waiting piled).bind fun _ => push

theorem piled_pushRuns (length fuel : Nat) (stack : Stack α) (enough : rest.length ≤ fuel)
    (piled : Piled exact key items (stack.1.map (·.items)) rest) :
    Gives fails (fun stack => Piled exact key items (stack.1.map (·.items)) [])
      (pushRuns less length fuel rest stack) := by
  induction fuel generalizing rest stack with
  | zero =>
    obtain rfl : rest = [] := length_eq_zero_iff.1 (Nat.le_zero.1 enough)
    exact piled
  | succ fuel ih =>
    cases rest with
    | nil => exact piled
    | cons item rest =>
      have left := (pairwise_append.1 (comparable.perm piled.same.perm)).2.1
      refine (begins_nextRun left (shortestRun length)).bind fun next begins => ?_
      have same := ((Same.refl (stack.1.map (·.items)).reverse.flatten).append begins.same).trans
        piled.same
      refine (piled_pushRun comparable length stack next.1 ⟨same, piled.ordered⟩
        begins.ordered).bind fun stack piled => ih stack ?_ piled
      have whole := begins.same.perm.length_eq
      have some := length_pos_iff.2 (begins.some (cons_ne_nil item rest))
      simp only [length_append, length_cons] at whole enough
      omega

theorem sorts_mergeAll (fuel : Nat) (stack : Stack α) (enough : stack.1.length ≤ fuel + 1)
    (piled : Piled exact key items (stack.1.map (·.items)) []) :
    Gives fails (Sorts exact key items) (mergeAll less fuel stack) := by
  have single {run : List α} (piled : Piled exact key items [run] []) :
      Sorts exact key items run :=
    ⟨by simpa using piled.same, fun isExact => piled.ordered isExact run (by simp)⟩
  fun_induction mergeAll less fuel stack with
  | case1 => exact ⟨piled.same, fun _ => .nil⟩
  | case2 _ run => exact single piled
  | case3 last rest threshold several =>
    exact absurd (by simpa using enough) several
  | case4 fuel last before threshold ih =>
    exact (piled_mergeRuns comparable [] piled threshold).bind fun merged piled =>
      ih merged.1 merged.2 (by simp) piled
  | case5 fuel last middle first rest threshold shorter ih =>
    exact (piled_mergeRuns comparable [last.items] piled threshold).bind fun merged piled =>
      ih merged.1 merged.2 (by simpa using enough) piled
  | case6 fuel last middle first rest threshold longer ih =>
    exact (piled_mergeRuns comparable [] piled threshold).bind fun merged piled =>
      ih merged.1 merged.2 (by simpa using enough) piled

theorem sorts_sort : Gives fails (Sorts exact key items) (sort less items) := by
  refine (piled_pushRuns comparable items.length items.length ([], Merging.worthwhile) le_rfl
    ⟨.refl items, fun _ _ isRun => absurd isRun not_mem_nil⟩).bind fun stack piled => ?_
  exact sorts_mergeAll comparable stack.1.length stack (Nat.le_succ _) piled

end Waiting

/-- Sorting adds nothing, whatever the comparisons say. -/
theorem gives_sort (told : ∀ x y, Gives fails (fun _ => True) (less x y)) (items : List α) :
    Gives fails (fun result => ∀ item ∈ result, item ∈ items) (sort less items) := by
  have tells (x y : α) : Tells fails False ((0 : Int) < 0) (less x y) :=
    (told x y).mono (fun _ _ => False.elim) fun _ => id
  have comparable : Comparable fails False (fun _ => 0) less items :=
    pairwise_iff_forall_sublist.2 fun {x y} _ => ⟨tells y x, tells x y⟩
  exact (sorts_sort comparable).mono (fun _ sorts _ => sorts.same.perm.mem_iff.1) fun _ => id

end Hoist.Sorting
