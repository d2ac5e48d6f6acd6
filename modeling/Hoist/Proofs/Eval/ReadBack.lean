import Hoist.Eval.Session
import Hoist.Proofs.Eval.Frames
import Hoist.Proofs.Syntax.Like

/-!
Values as program text.  A value that is built of nil, truth values, integers, strings, symbols and
arrays is written as the text of an expression, and evaluating that expression gives a value which
cannot be told from it but by its identity.
-/

namespace Hoist

open List Lexeme

/-- A later heap with the arrays of an earlier one. -/
structure Heap.Extends (heap after : Heap) : Prop where
  size : heap.size ≤ after.size
  items : ∀ address, address < heap.size → after.items address = heap.items address

theorem Heap.Extends.refl (heap : Heap) : heap.Extends heap := ⟨le_rfl, fun _ _ => rfl⟩

theorem Heap.Extends.trans {heap middle after : Heap} (first : heap.Extends middle)
    (second : middle.Extends after) : heap.Extends after where
  size := first.size.trans second.size
  items address inside := by
    rw [second.items address (inside.trans_le first.size), first.items address inside]

theorem Heap.extends_push (heap : Heap) (items : Array Value) : heap.Extends (heap.push items) where
  size := by simp
  items address inside := by rw [Heap.items_push, if_neg inside.ne]

/-- The expression that a value is written as, given those of the elements of arrays. -/
inductive Value.WrittenOver (heap : Heap) (elements : Value → PlainExpr → Prop) :
    Value → PlainExpr → Prop
  | nil : WrittenOver heap elements .nil (.literal default .nil)
  | bool (value : Bool) : WrittenOver heap elements (.bool value) (.literal default (.bool value))
  | str (object : TextObject) :
    WrittenOver heap elements (.str object) (.literal default (.str object.text))
  | natural (value : Nat) (id : Identity) (small : value < 10 ^ Decimal.maxIntegerDigits) :
    WrittenOver heap elements (.int value id) (.literal default (.int value))
  | negative (value : Nat) (id : Identity) (below : 0 < value)
    (small : value < 10 ^ Decimal.maxIntegerDigits) :
    WrittenOver heap elements (.int (-value) id)
      (.unary default .negate (.literal default (.int value)))
  | symbol {name : TextObject} {spelling : String} (id : Identity)
    (text : name.text = .ofString spelling) (valid : isSymbol spelling = true) :
    WrittenOver heap elements (.symbol name id) (.symbol default spelling)
  | array {address : Address} {trees : List PlainExpr} (inside : address < heap.size)
    (each : Forall₂ elements (heap.items address).toList trees) :
    WrittenOver heap elements (.array address) (.array default trees)

/-- The expression that a value which is nested less than so deeply is written as. -/
def Value.WrittenAs (heap : Heap) : (depth : Nat) → Value → PlainExpr → Prop
  | 0 => fun _ _ => False
  | depth + 1 => WrittenOver heap (WrittenAs heap depth)

namespace Value.WrittenAs

variable {heap : Heap} {depth nesting : Nat} {value : Value} {tree : PlainExpr}

theorem mono {after : Heap} (grown : heap.Extends after)
    (written : value.WrittenAs heap depth tree) :
    value.WrittenAs after depth tree := by
  induction depth generalizing value tree with
  | zero => cases written
  | succ depth ih =>
    cases written with
    | nil => exact .nil
    | bool value => exact .bool value
    | str object => exact .str object
    | natural value id small => exact .natural value id small
    | negative value id below small => exact .negative value id below small
    | symbol id text valid => exact .symbol id text valid
    | array inside each =>
      refine .array (inside.trans_le grown.size) ?_
      rw [grown.items _ inside]
      exact each.imp fun _ _ => ih

theorem wellFormed {floats : Float → Prop} (written : value.WrittenAs heap depth tree)
    (position : Position) : tree.WellFormed (.plain floats) position := by
  induction depth generalizing value tree position with
  | zero => cases written
  | succ depth ih =>
    cases written with
    | nil | bool | str => trivial
    | natural value _ small => exact ⟨value, rfl, small⟩
    | negative value _ _ small => exact ⟨rfl, value, rfl, small⟩
    | symbol _ _ valid => exact valid
    | @array address _ _ each =>
      rw [Expr.WellFormed]
      generalize (heap.items address).toList = items at each
      induction each with
      | nil => trivial
      | cons first _ rest => exact ⟨ih first .argument, rest⟩

theorem plain (written : value.WrittenAs heap depth tree) :
    Evaluate.isSplat tree = false ∧ Level.ternary ≤ tree.level := by
  have above : Level.ternary ≤ Level.unary ∧ Level.ternary ≤ Level.postfixForm := by decide
  cases depth with
  | zero => cases written
  | succ depth =>
    cases written with
    | negative => exact ⟨rfl, above.1⟩
    | _ => exact ⟨rfl, above.2⟩

theorem inspect_printed_list {items : List Value} {trees : List PlainExpr}
    (each : Forall₂ (WrittenAs heap depth) items trees)
    (printed : ∀ {value : Value} {tree : PlainExpr}, value.WrittenAs heap depth tree →
      ∃ text, value.inspect heap nesting = .ok text ∧ Printer.expr 0 tree =
      .ok (text, tree.level)) :
    ∃ texts, items.mapM (inspect heap nesting) = .ok texts ∧
      Printer.exprsAt 0 Level.ternary trees = .ok texts := by
  induction each with
  | nil => exact ⟨[], rfl, rfl⟩
  | cons first _ ih =>
    obtain ⟨text, inspected, firstPrinted⟩ := printed first
    obtain ⟨texts, restInspected, restPrinted⟩ := ih
    refine ⟨text :: texts, ?_, ?_⟩
    · rw [mapM_cons, inspected, restInspected]
      rfl
    · rw [Printer.exprsAt, firstPrinted, restPrinted]
      simp [Printer.atLevel, Nat.not_lt.2 first.plain.2]

theorem inspect_printed (written : value.WrittenAs heap depth tree) (deep : depth ≤ nesting) :
    ∃ text, value.inspect heap nesting = .ok text ∧
      Printer.expr 0 tree = .ok (text, tree.level) := by
  induction depth generalizing value tree nesting with
  | zero => cases written
  | succ depth ih =>
    obtain ⟨nesting, rfl⟩ : ∃ less, nesting = less + 1 := ⟨nesting - 1, by omega⟩
    cases written with
    | nil => exact ⟨_, rfl, rfl⟩
    | bool value => cases value <;> exact ⟨_, rfl, rfl⟩
    | str => exact ⟨_, rfl, rfl⟩
    | natural value _ small =>
      have shown := Decimal.intText?_ofNat small
      refine ⟨.ofString (toString value), ?_, ?_⟩
      · rw [inspect, intText, show Decimal.intText? (value : Int) = _ from shown]
        rfl
      · rw [Printer.expr, Printer.literal, show Decimal.intText? (value : Int) = _ from shown]
        rfl
    | negative value _ below small =>
      have short := (Nat.length_repr_le_iff (by decide)).2 small
      have shown := Decimal.intText?_ofNat small
      refine ⟨.ofString "-" ++ .ofString (toString value), ?_, ?_⟩
      · have negated : intText (-value) = .ok ("-" ++ toString value) := by
          simp [intText, Decimal.intText?, short, below]
        rw [inspect, negated]
        exact congrArg Except.ok (Text.toList_injective (by simp))
      · rw [Printer.expr, Printer.expr, Printer.literal,
          show Decimal.intText? (value : Int) = _ from shown]
        rfl
    | symbol _ text =>
      refine ⟨_, rfl, ?_⟩
      rw [Printer.expr, ← text]
      rfl
    | array _ each =>
      obtain ⟨texts, inspected, printed⟩ :=
        inspect_printed_list each fun written => ih written (Nat.le_of_succ_le_succ deep)
      refine ⟨"[" ++ Text.intercalate ", " texts ++ "]", ?_, ?_⟩
      · rw [inspect, inspected]
        rfl
      · rw [Printer.expr, printed]
        rfl

theorem inspect_eq_render (written : value.WrittenAs heap depth tree) (deep : depth ≤ nesting) :
    value.inspect heap nesting = .ok (Row.render (Row.expr 0 tree)) := by
  obtain ⟨text, inspected, printed⟩ := written.inspect_printed deep
  have valid := @wellFormed _ _ _ _ (fun _ => False) written .operand
  rw [Row.expr_printed 0 _ valid] at printed
  rw [inspected, ← (Prod.mk.inj (Except.ok.inj printed)).1]

theorem parse_inspect (written : value.WrittenAs heap depth tree) :
    ∃ loc again, parse (Row.render (Row.expr 0 tree)) = .ok [.expression loc again] ∧
      again.WellFormed (.plain fun _ => True) .head ∧ again.Like tree := by
  obtain ⟨program, parsed, reparsed⟩ :=
    @parse_renderStmt (.expression default tree) (written.wellFormed .head)
  have same := @Reparsed.sameProgram _ _ _ reparsed (fun _ => False) nofun
    ⟨written.wellFormed .head, trivial⟩
  obtain ⟨first, rest, rfl, like, restLike⟩ := StmtsLike.cons same
  obtain ⟨loc, again, rfl, againLike⟩ := Stmt.Like.evaluate like
  cases StmtsLike.nil restLike
  exact ⟨loc, again, parsed, reparsed.wellFormed.1, againLike⟩

theorem equal_eq {other : Value} (written : value.WrittenAs heap depth tree)
    (same : other.WrittenAs heap depth tree) (deep : depth ≤ nesting) :
    Value.equal heap nesting value other = .ok true := by
  induction depth generalizing value other tree nesting with
  | zero => cases written
  | succ depth ih =>
    obtain ⟨nesting, rfl⟩ : ∃ less, nesting = less + 1 := ⟨nesting - 1, by omega⟩
    cases written with
    | array _ each =>
      cases same with
      | array _ sameEach =>
        have all : ∀ {trees : List PlainExpr} {values others : List Value},
            Forall₂ (WrittenAs heap depth) values trees →
            Forall₂ (WrittenAs heap depth) others trees →
            values.length = others.length ∧ (values.zip others).allM
              (fun pair => Value.equal heap nesting pair.1 pair.2) = .ok true := by
          intro trees values others each
          induction each generalizing others with
          | nil => rintro ⟨⟩; exact ⟨rfl, rfl⟩
          | cons first _ rest =>
            rintro (_ | ⟨sameFirst, sameRest⟩)
            obtain ⟨length, equal⟩ := rest sameRest
            refine ⟨congrArg (· + 1) length, ?_⟩
            rw [zip_cons_cons, allM]
            simp only [ih first sameFirst (Nat.le_of_succ_le_succ deep), ok_bind]
            exact equal
        obtain ⟨length, equal⟩ := all each sameEach
        rw [Value.equal]
        simp only [length, bne_self_eq_false]
        exact equal
    | symbol _ text =>
      cases same with
      | symbol _ sameText => simp [Value.equal, text, sameText]
    | str object =>
      generalize isText : object.text = text at same
      cases same
      simp [Value.equal, isText]
    | _ =>
      cases same
      simp [Value.equal]

theorem className_eq {other : Heap} {otherValue : Value} (written : value.WrittenAs heap depth tree)
    (same : otherValue.WrittenAs other depth tree) : otherValue.className = value.className := by
  cases depth with
  | zero => cases written
  | succ depth =>
    cases written with
    | str object =>
      generalize object.text = text at same
      cases same
      rfl
    | _ =>
      cases same
      rfl

end Value.WrittenAs

/-- Whether a value is nested less than so deeply and can be written as an expression. -/
def Value.isWritable (heap : Heap) : (depth : Nat) → Value → Bool
  | 0, _ => false
  | depth + 1, value =>
    match value with
    | .nil | .bool _ | .str _ => true
    | .int value _ => value.natAbs < 10 ^ Decimal.maxIntegerDigits
    | .symbol name _ => name.text == .ofString name.text.toString && isSymbol name.text.toString
    | .array address =>
      address < heap.size && (heap.items address).toList.all (isWritable heap depth)
    | _ => false

theorem Value.exists_writtenAs {heap : Heap} {depth : Nat} {value : Value}
    (writable : value.isWritable heap depth = true) : ∃ tree, value.WrittenAs heap depth tree := by
  induction depth generalizing value with
  | zero => cases writable
  | succ depth ih =>
    cases value with
    | nil => exact ⟨_, .nil⟩
    | bool value => exact ⟨_, .bool value⟩
    | str object => exact ⟨_, .str object⟩
    | int number id =>
      have small : number.natAbs < 10 ^ Decimal.maxIntegerDigits := by simpa [isWritable]
        using writable
      rcases number.natAbs_eq with natural | negative
      · rw [natural]
        exact ⟨_, .natural _ id small⟩
      · by_cases zero : number.natAbs = 0
        · rw [Int.natAbs_eq_zero.1 zero]
          exact ⟨_, .natural 0 id (Nat.pow_pos (by decide))⟩
        · rw [negative]
          exact ⟨_, .negative _ id (Nat.pos_of_ne_zero zero) small⟩
    | symbol name id =>
      obtain ⟨text, valid⟩ := Bool.and_eq_true_iff.1 writable
      exact ⟨_, .symbol id (eq_of_beq text) valid⟩
    | array address =>
      rw [isWritable, Bool.and_eq_true, decide_eq_true_eq, all_eq_true] at writable
      obtain ⟨inside, each⟩ := writable
      have elements : ∀ items : List Value, (∀ item ∈ items, item.isWritable heap depth = true) →
          ∃ trees, Forall₂ (WrittenAs heap depth) items trees := by
        intro items each
        induction items with
        | nil => exact ⟨[], .nil⟩
        | cons item items rest =>
          obtain ⟨first, others⟩ := forall_mem_cons.1 each
          obtain ⟨tree, written⟩ := ih first
          obtain ⟨trees, restWritten⟩ := rest others
          exact ⟨tree :: trees, .cons written restWritten⟩
      obtain ⟨trees, written⟩ := elements _ each
      exact ⟨_, .array inside written⟩
    | _ => cases writable

namespace Evaluate

theorem literal_of_like {tree : PlainExpr} {value : Literal} {floats : Float → Prop}
    {position : Position} (valid : tree.WellFormed (.plain floats) position)
    (like : tree.Like (.literal default value)) : ∃ loc, tree = .literal loc value := by
  cases tree with
  | literal loc => cases like; exact ⟨loc, rfl⟩
  | call => rw [Expr.Like, Expr.reform_call] at like; cases like
  | block | param | stmt => cases valid
  | _ => cases like

variable {heap : Heap} {floats : Float → Prop} {position : Position} {depth : Nat}

/-- A tree gives a value that is written as it, with no change but new arrays. -/
def GivesBack (depth : Nat) (tree pattern : PlainExpr) : Prop :=
  ∀ (context : Context) (env : Environment) (store : Store), ∃ again after,
    expr context env tree store = (.ok again, after) ∧ store.arrays.Extends after.arrays ∧
      again.WrittenAs after.arrays depth pattern

theorem exprs_givesBack {items : List Value} {trees patterns : List PlainExpr}
    (written : Forall₂ (Value.WrittenAs heap depth) items patterns)
    (each : ∀ {value : Value} {tree pattern : PlainExpr}, value.WrittenAs heap depth pattern →
      tree.WellFormed (.plain floats) .argument → tree.Like pattern →
      GivesBack depth tree pattern) (valid : exprsWellFormed (.plain floats) .argument trees)
    (like : ExprsLike trees patterns) (context : Context) (env : Environment) (store : Store) :
    ∃ values after, exprs context env trees store = (.ok values, after) ∧
      store.arrays.Extends after.arrays ∧
        Forall₂ (Value.WrittenAs after.arrays depth) values patterns := by
  induction written generalizing trees store with
  | nil =>
    cases like.nil
    exact ⟨[], store, rfl, .refl _, .nil⟩
  | cons first _ ih =>
    cases trees with
    | nil => cases like
    | cons tree trees =>
      obtain ⟨treeLike, restLike⟩ := cons.inj like
      have plain : isSplat tree = false := (Expr.Like.isSplat treeLike).trans first.plain.1
      obtain ⟨value, middle, ran, grown, again⟩ := each first valid.1 treeLike context env store
      obtain ⟨values, after, restRan, restGrown, others⟩ := ih valid.2 restLike middle
      refine ⟨value :: values, after, ?_, grown.trans restGrown,
        .cons (again.mono restGrown) others⟩
      have steps : exprs context env (tree :: trees) = (do
          let value ← expr context env tree
          return value :: (← exprs context env trees)) := by
        cases tree
        case splat => cases plain
        all_goals rfl
      rw [steps, steps_bind ran, steps_bind restRan]
      rfl

theorem expr_givesBack {value : Value} {tree pattern : PlainExpr}
    (written : value.WrittenAs heap depth pattern)
    (valid : tree.WellFormed (.plain floats) position) (like : tree.Like pattern) :
    GivesBack depth tree pattern := by
  induction depth generalizing value tree pattern position with
  | zero => cases written
  | succ depth ih =>
    intro context env store
    cases written with
    | nil =>
      obtain ⟨loc, rfl⟩ := literal_of_like valid like
      exact ⟨_, store, rfl, .refl _, .nil⟩
    | bool value =>
      obtain ⟨loc, rfl⟩ := literal_of_like valid like
      exact ⟨_, store, rfl, .refl _, .bool value⟩
    | str object =>
      obtain ⟨loc, rfl⟩ := literal_of_like valid like
      exact ⟨_, store, rfl, .refl _, .str (.written loc object.text)⟩
    | natural number id small =>
      obtain ⟨loc, rfl⟩ := literal_of_like valid like
      exact ⟨_, store, rfl, .refl _, .natural number _ small⟩
    | negative number id below small =>
      obtain ⟨loc, inner, rfl, innerLike⟩ := like.unary
      obtain ⟨innerLoc, rfl⟩ := literal_of_like valid.2 innerLike
      obtain ⟨id, made, ran⟩ := Run.newInt_eq (-number) store
      exact ⟨_, _, ran, .refl _, .negative number id below small⟩
    | symbol id text isSymbol =>
      obtain ⟨loc, rfl⟩ := Expr.Like.symbol like
      exact ⟨_, _, rfl, .refl _, .symbol _ rfl isSymbol⟩
    | array inside each =>
      obtain ⟨loc, elements, rfl, elementsLike⟩ := Expr.Like.array like
      obtain ⟨values, after, ran, grown, again⟩ :=
        exprs_givesBack each ih valid elementsLike context env store
      refine ⟨.array after.arrays.size, { after with arrays := after.arrays.push values.toArray },
        (steps_bind ran).trans rfl, grown.trans (Heap.extends_push _ _), .array (by simp) ?_⟩
      rw [Heap.items_push, if_pos rfl]
      exact again.imp fun _ _ same => same.mono (Heap.extends_push _ _)

end Evaluate

/-- A value that is built of nil, truth values, integers, strings, symbols and arrays is written as
a text that is read as one expression.  Evaluating that expression, in any store, gives a value of
the same class that is written as the same text; in a store with the arrays of the value the two are
equal. -/
theorem inspect_readsBack {heap : Heap} {depth : Nat} {value : Value}
    (writable : value.isWritable heap depth = true) :
    ∃ text loc tree, (∀ nesting, depth ≤ nesting → value.inspect heap nesting = .ok text) ∧
      parse text = .ok [.expression loc tree] ∧
      ∀ limits store, ∃ again after,
        Session.start limits [.expression loc tree] store = (.ok again, after) ∧
        again.className = value.className ∧
        (∀ nesting, depth ≤ nesting → again.inspect after.arrays nesting = .ok text) ∧
        (store.arrays = heap → ∀ nesting, depth ≤ nesting →
          Value.equal after.arrays nesting value again = .ok true ∧
          Value.equal after.arrays nesting again value = .ok true) := by
  obtain ⟨pattern, written⟩ := Value.exists_writtenAs writable
  obtain ⟨loc, tree, parsed, valid, like⟩ := written.parse_inspect
  refine ⟨_, loc, tree, fun _ => written.inspect_eq_render, parsed, fun limits store => ?_⟩
  obtain ⟨again, after, ran, grown, same⟩ :=
    Evaluate.expr_givesBack written valid like limits.context [0] store
  refine ⟨again, after, ?_, written.className_eq same, fun _ => same.inspect_eq_render, ?_⟩
  · exact steps_tryCatch_ok ((steps_bind ran).trans rfl)
  · rintro rfl nesting deep
    exact ⟨(written.mono grown).equal_eq same deep, same.equal_eq (written.mono grown) deep⟩

/-- A nested array with a negative number, a symbol with a mark, and a string that would interpolate
and holds a quote, a backslash and a line end. -/
theorem inspect_readsBack_nested :
    let heap : Heap := #[#[.array 1, .int (-7) .shared, .nil],
      #[.str (.shared "#\x7b\"\\\n"), .symbol (.shared "ok?") .shared]]
    let text : Text := "[[\"\\#\x7b\\\"\\\\\\n\", :ok?], -7, nil]"
    (Value.array 0).isWritable heap 3 = true ∧ (Value.array 0).inspect heap 3 = .ok text ∧
      ∃ loc tree again after, parse text = .ok [.expression loc tree] ∧
        Session.start {} [.expression loc tree] { arrays := heap } = (.ok again, after) ∧
        again.className = "Array" ∧ again.inspect after.arrays 3 = .ok text ∧
        Value.equal after.arrays 3 again (.array 0) = .ok true := by
  intro heap text
  have writable : (Value.array 0).isWritable heap 3 = true := by decide +kernel
  have inspected : (Value.array 0).inspect heap 3 = .ok text := by rfl
  obtain ⟨shown, loc, tree, isShown, parsed, evaluates⟩ := inspect_readsBack writable
  obtain ⟨again, after, ran, sameClass, sameText, equal⟩ := evaluates {} { arrays := heap }
  cases (isShown 3 le_rfl).symm.trans inspected
  exact ⟨writable, inspected, loc, tree, again, after, parsed, ran, sameClass, sameText 3 le_rfl,
    (equal rfl 3 le_rfl).2⟩

end Hoist
