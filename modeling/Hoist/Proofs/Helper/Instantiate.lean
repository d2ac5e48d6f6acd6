import Hoist.Helper.Basic
import Hoist.Proofs.Helper.Filling
import Hoist.Proofs.NameSupply
import Hoist.Proofs.Syntax.RoundTrip

/-!
Helpers can always be made.  Each template is the text of a method whose loop has a place for the
stop check; filled in, it is the text of the method with the check in that place, so it is read as
this method, whatever the names are.
-/

namespace Hoist

open List

open Lexeme Piece Row

namespace Row

theorem stmts_append (depth : Nat) (left right : List PlainStmt) :
    stmts depth (left ++ right) = stmts depth left ++ stmts depth right := by
  induction left with
  | nil => rfl
  | cons first rest ih => simp [stmts, ih]

end Row

/-- The parts of a method that calls a closure in a loop, before and after the stop check. -/
structure Iteration where
  params : List String
  front : List PlainStmt
  condition : PlainExpr
  before : List PlainStmt
  after : List PlainStmt
  last : List PlainStmt

namespace Iteration

/-- The method, with a statement in the place of the stop check. -/
def definition (iteration : Iteration) (name : String) (check : PlainStmt) : PlainStmt :=
  .define default () name (iteration.params.map (.mk · default none))
    (iteration.front ++
      .whileLoop default iteration.condition (iteration.before ++ check :: iteration.after) ::
        iteration.last)

structure WellFormed (floats : Float → Prop) (iteration : Iteration) : Prop where
  params : ∀ name ∈ iteration.params, isName name = true
  front : stmtsWellFormed (.plain floats) false iteration.front
  condition : iteration.condition.WellFormed (.plain floats) .operand
  before : stmtsWellFormed (.plain floats) false iteration.before
  after : stmtsWellFormed (.plain floats) false iteration.after
  last : stmtsWellFormed (.plain floats) false iteration.last

theorem WellFormed.definition {floats : Float → Prop} {iteration : Iteration} {name : String}
    {check : PlainStmt} (valid : iteration.WellFormed floats) (named : isName name = true)
    (checkValid : check.WellFormed (.plain floats) false) :
    stmtsWellFormed (.plain floats) false [iteration.definition name check] := by
  have params := @paramsWellFormed_names String Unit (.plain floats)
    (iteration.params.map (.mk · default none))
    (forall_mem_map.2 fun name member => ⟨name, default, rfl, valid.params name member⟩)
  refine ⟨⟨named, params, ?_⟩, trivial⟩
  exact stmtsWellFormed_append.2 ⟨valid.front, ⟨valid.condition, stmtsWellFormed_append.2
    ⟨valid.before, checkValid, valid.after⟩⟩, valid.last⟩

/-- What stands between the name of the method and the stop check. -/
def opening (iteration : Iteration) : Row :=
  paramList (Row.params 0 (iteration.params.map (.mk · default none))) ++ .lineEnd true ::
    (stmts 1 iteration.front ++ (indent 1 ++ conditionHead .kwWhile "while"
      (atLevel Level.keyword iteration.condition.level (Row.expr 1 iteration.condition)) ++
      .lineEnd true :: stmts 2 iteration.before))

/-- What stands after the stop check. -/
def closing (iteration : Iteration) : Row :=
  .lineEnd true :: (stmts 2 iteration.after ++ (indent 1 ++ endWord :: .lineEnd true ::
    (stmts 1 iteration.last ++ [endWord, .lineEnd true])))

theorem program_definition (iteration : Iteration) (name : String) (check : PlainStmt) :
    Row.program [iteration.definition name check] =
      spelled .kwDef "def" :: .gap 0 :: spelled .name name ::
        (iteration.opening ++ (Row.stmt 2 check ++ iteration.closing)) := by
  simp [definition, opening, closing, Row.program, Row.stmt, inBlock, stmts, stmts_append, indent]

/-- Whether a template is the text of the method with places for its name and for the stop check. -/
def isSourceOf (iteration : Iteration) (template : String) : Bool :=
  let middle := chars iteration.opening ++ "    ".toList
  template == String.ofList ("\ndef ".toList ++ '\x7b' :: ("helper".toList ++ '\x7d' ::
    (middle ++ '\x7b' :: ("stop_check".toList ++ '\x7d' :: chars iteration.closing)))) &&
  Template.isPlain middle && Template.isPlain (chars iteration.closing) &&
  text iteration.opening == (chars iteration.opening).map CodePoint.ofChar &&
  text iteration.closing == (chars iteration.closing).map CodePoint.ofChar &&
  (tokens (iteration.opening ++ iteration.closing)).all fun token => token.kind != .float

end Iteration

namespace Helper

def named (name : String) : PlainExpr := .name default name

def number (value : Nat) : PlainExpr := .literal default (.int value)

def truth (value : Bool) : PlainExpr := .literal default (.bool value)

def element (value index : PlainExpr) : PlainExpr := .index default value [index]

def send (receiver : PlainExpr) (method : String) (args : List PlainExpr) : PlainExpr :=
  .call default (some receiver) method args none (!args.isEmpty)

def evaluate (value : PlainExpr) : PlainStmt := .expression default value

def assign (name : String) (value : PlainExpr) : PlainStmt :=
  evaluate (.assign default (named name) value)

/-- A statement with a modifier; `negated` tells whether it is `unless`. -/
def guarded (negated : Bool) (condition : PlainExpr) (statement : PlainStmt) : PlainStmt :=
  .conditional default condition [statement] [] negated true false

def increment : PlainStmt := evaluate (.opAssign default (named "i") .add (number 1))

def callClosure (args : List PlainExpr) : PlainStmt := assign "r" (send (named "fun") "call" args)

/-- The statement that ends a helper when the closure asks for it. -/
def stopTree (stop : String) : PlainStmt :=
  guarded false
    (.binary default .logicalAnd
      (.binary default .logicalAnd (send (named "r") "is_a?" [.constant default "Array"])
        (.binary default .equal (send (named "r") "size" []) (number 2)))
      (.binary default .equal (element (named "r") (number 0)) (.symbol default stop)))
    (.jump default .returnJump (some (element (named "r") (number 1))))

theorem indented_stopCheck (stop : String) : "    " ++ stopCheck stop =
      "    return r[1] if r.is_a?(Array) && r.size == 2 && r[0] == " ++ (":" ++ stop) := by
  have literal : "    " ++ "return r[1] if r.is_a?(Array) && r.size == 2 && r[0] == :" =
      "    return r[1] if r.is_a?(Array) && r.size == 2 && r[0] == " ++ ":" := by decide +kernel
  unfold stopCheck
  rw [← String.append_assoc, literal, String.append_assoc]

theorem text_stopTree (stop : String) : text (Row.stmt 2 (stopTree stop)) =
      ("    " ++ stopCheck stop).toList.map CodePoint.ofChar := by
  rw [indented_stopCheck, String.toList_append, map_append, ← Text.toList_ofString (":" ++ stop),
    ← append_nil (Text.ofString (":" ++ stop)).toList]
  rfl

section WellFormed

variable {floats : Float → Prop} {position : Position} {chain : Bool}

@[simp] theorem named_wellFormed (name : String) :
    (named name).WellFormed (.plain floats) position ↔ isName name = true := Iff.rfl

theorem number_wellFormed {value : Nat} (small : value < 10) :
    (number value).WellFormed (.plain floats) position :=
  ⟨value, rfl, small.trans_le (Nat.le_self_pow (by decide) 10)⟩

@[simp] theorem truth_wellFormed (value : Bool) :
    (truth value).WellFormed (.plain floats) position := trivial

@[simp] theorem element_wellFormed (value index : PlainExpr) :
    (element value index).WellFormed (.plain floats) position ↔
      value.WellFormed (.plain floats) .operand ∧
        index.WellFormed (.plain floats) .argument := by
  simp [element, Expr.WellFormed, exprsWellFormed]

@[simp] theorem send_wellFormed (receiver : PlainExpr) (method : String) (args : List PlainExpr) :
    (send receiver method args).WellFormed (.plain floats) position ↔
      receiver.WellFormed (.plain floats) .operand ∧ isName method = true ∧
        exprsWellFormed (.plain floats) .argument args := by
  simp [send, Expr.WellFormed]

@[simp] theorem evaluate_wellFormed (value : PlainExpr) :
    (evaluate value).WellFormed (.plain floats) chain ↔
      value.WellFormed (.plain floats) .head := Iff.rfl

@[simp] theorem assign_wellFormed (name : String) (value : PlainExpr) :
    (assign name value).WellFormed (.plain floats) chain ↔
      isName name = true ∧ value.WellFormed (.plain floats) .assigned := by
  constructor
  · rintro ⟨_, _, valid, value⟩
    exact ⟨valid, value⟩
  · rintro ⟨valid, value⟩
    exact ⟨rfl, rfl, valid, value⟩

@[simp] theorem guarded_wellFormed (negated : Bool) (condition : PlainExpr)
    (statement : PlainStmt) :
    (guarded negated condition statement).WellFormed (.plain floats) chain ↔
      condition.WellFormed (.plain floats) .operand ∧
        statement.WellFormed (.plain floats) false := by
  simp [guarded, Stmt.WellFormed, stmtsWellFormed]

@[simp] theorem increment_wellFormed : increment.WellFormed (.plain floats) chain := by
  refine ⟨rfl, rfl, rfl, ?_, number_wellFormed (by decide)⟩
  exact (named_wellFormed "i").2 (by decide)

theorem stopTree_wellFormed {stop : String} (valid : isName stop = true) :
    (stopTree stop).WellFormed (.plain floats) chain := by
  have symbol := isSymbol_of_isName valid
  simp +decide [stopTree, Expr.WellFormed, exprsWellFormed, Stmt.WellFormed, symbol,
    number_wellFormed]

end WellFormed

theorem tokens_stopTree (stop : String) :
    (tokens (Row.stmt 2 (stopTree stop))).all (fun token => token.kind != .float) = true := rfl


/-- Iteration over the items of a collection; `gathers` tells whether it makes a new array. -/
def overItems (gathers : Bool) (before after : List PlainStmt) (last : PlainExpr) : Iteration where
  params := ["collection", "fun"]
  front := assign "items" (send (named "collection") "to_a" []) ::
    (if gathers then [assign "result" (.array default [])] else []) ++ [assign "i" (number 0)]
  condition := .binary default .less (named "i") (send (named "items") "size" [])
  before
  after := after ++ [increment]
  last := [evaluate last]

def currentItem : PlainExpr := element (named "items") (named "i")

def push (name : String) : PlainStmt := evaluate (send (named "result") "push" [named name])

/-- The items for which the closure gives a true value, or the others. -/
def filtering (negated : Bool) : Iteration :=
  overItems true [assign "item" currentItem, callClosure [named "item"]]
    [guarded negated (named "r") (push "item")] (named "result")

/-- Whether the closure gives a certain kind of value for an item, which ends the search. -/
def searching (negated : Bool) : Iteration :=
  overItems false [callClosure [currentItem]]
    [guarded negated (named "r") (.jump default .returnJump (some (truth !negated)))]
    (truth negated)

def mapping : Iteration := overItems true [callClosure [currentItem]] [push "r"] (named "result")

def visiting : Iteration := overItems false [callClosure [currentItem]] [] (named "collection")

def counting : Iteration where
  params := ["count", "fun"]
  front := [assign "i" (number 0)]
  condition := .binary default .less (named "i") (named "count")
  before := [callClosure [named "i"]]
  after := [increment]
  last := [evaluate (named "count")]

def repeating : Iteration where
  params := ["fun"]
  front := []
  condition := truth true
  before := [callClosure []]
  after := []
  last := []

def iterations : List (Helper × Iteration) :=
  [(findAll, filtering false), (reject, filtering true), (map, mapping), (each, visiting),
    (any, searching false), (all, searching true), (times, counting), (loop, repeating)]

theorem all_isSourceOf :
    iterations.all (fun entry => entry.2.isSourceOf entry.1.template) = true := by
  decide +kernel

theorem isSourceOf_iterations {helper : Helper} {iteration : Iteration}
    (member : (helper, iteration) ∈ iterations) : iteration.isSourceOf helper.template = true := by
  have every := all_eq_true.1 all_isSourceOf
  exact every (helper, iteration) member

theorem mem_iterations {entry : String × Helper} (member : entry ∈ standardHelpers) :
    ∃ iteration, (entry.2, iteration) ∈ iterations := by
  have known : standardHelpers.all
      (fun entry => (iterations.map Prod.fst).contains entry.2) = true := by decide +kernel
  obtain ⟨⟨helper, iteration⟩, there, same⟩ :=
    mem_map.1 (contains_iff_mem.1 (all_eq_true.1 known entry member))
  exact ⟨iteration, same ▸ there⟩

theorem wellFormed_iterations {floats : Float → Prop} {entry : Helper × Iteration}
    (member : entry ∈ iterations) : entry.2.WellFormed floats := by
  revert entry
  simp only [iterations, forall_mem_cons]
  refine ⟨?_, ?_, ?_, ?_, ?_, ?_, ?_, ?_, by simp⟩
  all_goals constructor
  all_goals simp +decide [filtering, mapping, visiting, searching, counting, repeating, overItems,
    callClosure, currentItem, push, stmtsWellFormed, exprsWellFormed, Expr.WellFormed, 
    Stmt.WellFormed, number_wellFormed]

variable {helper : Helper} {iteration : Iteration}

theorem fill_template (member : (helper, iteration) ∈ iterations) (name stop : String) :
    ∃ filled, Template.fill [("helper", name), ("stop", stop), ("stop_check", stopCheck stop)]
        helper.template = .ok filled ∧
      Text.ofString filled = .ofList (text (.lineEnd false ::
        Row.program [iteration.definition name (stopTree stop)])) := by
  have source := isSourceOf_iterations member
  unfold Iteration.isSourceOf at source
  simp only [Bool.and_eq_true] at source
  obtain ⟨⟨⟨⟨⟨template, plainMiddle⟩, plainLast⟩, opening⟩, closing⟩, -⟩ := source
  have plainFirst : Template.isPlain "\ndef ".toList = true := by decide +kernel
  have placeName : Template.isPlaceName "helper".toList = true := by decide +kernel
  have checkName : Template.isPlaceName "stop_check".toList = true := by decide +kernel
  have filled := Template.fill_places plainFirst plainMiddle plainLast placeName checkName
    (show List.lookup (String.ofList "helper".toList)
      [("helper", name), ("stop", stop), ("stop_check", stopCheck stop)] = some name by simp)
    (show List.lookup (String.ofList "stop_check".toList) _ = some (stopCheck stop) by
      rw [String.ofList_toList]; rfl)
  refine ⟨_, by rw [eq_of_beq template]; exact filled, congrArg Text.ofList ?_⟩
  have front : "\ndef ".toList.map CodePoint.ofChar =
      text [.lineEnd false, spelled .kwDef "def", .gap 0] := rfl
  have spelledName : name.toList.map CodePoint.ofChar = (spelled .name name).codes :=
    (Text.toList_ofString name).symm
  rw [Iteration.program_definition, String.toList_ofList]
  simp only [map_append, front, spelledName, ← eq_of_beq opening, ← eq_of_beq closing,
    text_cons, text_append, text_stopTree, String.toList_append, append_assoc, text_nil,
    nil_append]

theorem tokens_definition (member : (helper, iteration) ∈ iterations) (name stop : String) :
    ∀ token ∈ tokens (Row.program [iteration.definition name (stopTree stop)]),
      token.kind ≠ .float := by
  have source := isSourceOf_iterations member
  unfold Iteration.isSourceOf at source
  have around := (Bool.and_eq_true_iff.1 source).2
  have inside := tokens_stopTree stop
  rw [tokens_append, all_append, Bool.and_eq_true] at around
  simp only [all_eq_true, bne_iff_ne] at around inside
  intro token there
  simp only [Iteration.program_definition, tokens_append, tokens_spelled, tokens_gap,
    mem_cons, mem_append] at there
  rcases there with rfl | rfl | there | there | there
  · exact nofun
  · exact nofun
  · exact around.1 token there
  · exact inside token there
  · exact around.2 token there

/-- Only a method is reformed to a method. -/
theorem eq_define_of_reform {program : PlainProgram} {change : Reform} {loc : Loc} {name : String}
    {params : List PlainParam} {body : List PlainStmt}
    (same : reformStmts change program = [.define loc () name params body]) :
    ∃ loc params body, program = [.define loc () name params body] := by
  rcases program with _ | ⟨first, _ | ⟨second, rest⟩⟩
  · cases same
  · rcases first with ⟨loc, scope, name, params, body⟩ | _ | _ | _ | ⟨_, _, _ | _⟩ | _
    · cases same
      exact ⟨loc, params, body, rfl⟩
    all_goals cases same
  · exact absurd (List.cons.inj same).2 nofun

/-- A helper of the table is read as its method, whatever the names are. -/
theorem instantiate_reparsed (member : (helper, iteration) ∈ iterations) {name stop : String}
    (named : isName name = true) (stopNamed : isName stop = true) (floats : Float → Prop) :
    ∃ definition, helper.instantiate name stop = .ok definition ∧
      Reparsed floats [iteration.definition name (stopTree stop)] [definition] := by
  have valid := (@wellFormed_iterations IsFloatWord _ member).definition named
    (stopTree_wellFormed stopNamed)
  obtain ⟨filled, fills, spelling⟩ := fill_template member name stop
  have joined : Joined LayoutState.initial
      (.lineEnd false :: Row.program [iteration.definition name (stopTree stop)]) := by
    refine ⟨rfl, rfl, ?_, joined_program valid⟩
    rw [Iteration.program_definition]
    rfl
  obtain ⟨program, parsed, reparsed⟩ := @parse_pieces floats _ _ joined valid
    (tokens_lineEnd_false _)
    fun token there isFloat => absurd isFloat (tokens_definition member name stop token there)
  obtain ⟨loc, params, body, rfl⟩ := eq_define_of_reform reparsed.unplaced
  refine ⟨_, ?_, reparsed⟩
  rw [instantiate, fills]
  simp only [spelling, parsed]

end Helper

end Hoist
