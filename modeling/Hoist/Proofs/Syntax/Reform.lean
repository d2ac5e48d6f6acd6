import Hoist.Proofs.Syntax.Node
import Hoist.Proofs.Syntax.Rows

/-!
Trees up to what text does not keep.  A reform of a tree drops all places and decides anew how
literals stand, which calls have a written argument list and which conditionals follow the statement
they govern.  Reading a printed tree gives one such reform of it, and two programs are the same to a
reader if another reform makes them equal.
-/

namespace Hoist

open List

open Lexeme

/-- What a reform decides of a tree. -/
structure Reform where
  literal : Literal → PlainExpr
  /-- The mark of a call, given the one it has and whether it has arguments. -/
  parens : Bool → Bool → Bool
  /-- The mark of a conditional, given the one it has and its branches. -/
  modifier : Bool → List PlainStmt → List PlainStmt → Bool

mutual

def Expr.reform (change : Reform) : PlainExpr → PlainExpr
  | .literal _ value => change.literal value
  | .symbol _ name => .symbol default name
  | .name _ occurrence => .name default occurrence
  | .global _ name => .global default name
  | .constant _ name => .constant default name
  | .array _ elements => .array default (reformExprs change elements)
  | .splat _ value => .splat default (value.reform change)
  | .range _ start stop exclusive =>
    .range default (start.reform change) (stop.reform change) exclusive
  | .binary _ op left right => .binary default op (left.reform change) (right.reform change)
  | .unary _ op operand => .unary default op (operand.reform change)
  | .ternary _ condition thenValue elseValue =>
    .ternary default (condition.reform change) (thenValue.reform change) (elseValue.reform change)
  | .lambda _ _ params body => .lambda default () (reformParams change params)
      (reformStmts change body)
  | .call _ receiver method args block parens =>
    .call default
      (match receiver with | none => none | some receiver => some (receiver.reform change))
      method (reformExprs change args)
      (match block with
        | none => none
        | some (.mk _ _ params body) =>
          some (.mk default () (reformParams change params) (reformStmts change body)))
      (change.parens parens (!args.isEmpty))
  | .index _ value args => .index default (value.reform change) (reformExprs change args)
  | .assign _ target value => .assign default (target.reform change) (value.reform change)
  | .opAssign _ target op value => .opAssign default (target.reform change) op (value.reform change)
  | .multiAssign _ targets values =>
    .multiAssign default (reformExprs change targets) (reformExprs change values)
  -- no text has these
  | .block _ | .param _ | .stmt _ => .literal default .nil

def reformExprs (change : Reform) : List PlainExpr → List PlainExpr
  | [] => []
  | first :: rest => first.reform change :: reformExprs change rest

def reformParams (change : Reform) : List PlainParam → List PlainParam
  | [] => []
  | .mk name _ none :: rest => .mk name default none :: reformParams change rest
  | .mk name _ (some value) :: rest =>
    .mk name default (some (value.reform change)) :: reformParams change rest

def Stmt.reform (change : Reform) : PlainStmt → PlainStmt
  | .define _ _ name params body =>
    .define default () name (reformParams change params) (reformStmts change body)
  | .expression _ value => .expression default (value.reform change)
  | .conditional _ condition thenBody elseBody negated modifier elsif =>
    .conditional default (condition.reform change) (reformStmts change thenBody)
      (reformStmts change elseBody) negated (change.modifier modifier thenBody elseBody) elsif
  | .whileLoop _ condition body =>
    .whileLoop default (condition.reform change) (reformStmts change body)
  | .jump _ kind none => .jump default kind none
  | .jump _ kind (some value) => .jump default kind (some (value.reform change))
  | .bare value => .bare (value.reform change)

def reformStmts (change : Reform) : List PlainStmt → List PlainStmt
  | [] => []
  | first :: rest => first.reform change :: reformStmts change rest

end

namespace Reform

/-- Only the places are dropped. -/
def unplaced : Reform where
  literal value := .literal default value
  parens written _ := written
  modifier marked _ _ := marked

/-- Reading the printed text: an infinite float is read as a name, all arguments stand in
parentheses, and a conditional follows its statement only if it is written so. -/
def reread : Reform where
  literal
    | .float value =>
      if Decimal.floatText Decimal.literalStyle value = "inf" then .name default "inf"
      else .literal default (.float value)
    | value => .literal default value
  parens written hasArgs := written || hasArgs
  modifier := writtenAfter

/-- What programs that differ in their writing alone have in common. -/
def canonical : Reform where
  literal value := .literal default value
  parens written hasArgs := written || hasArgs
  modifier _ _ _ := false

end Reform

def Block.reform (change : Reform) (block : PlainBlock) : PlainBlock :=
  .mk default () (reformParams change block.params) (reformStmts change block.body)

def Param.reform (change : Reform) (param : PlainParam) : PlainParam :=
  .mk param.name Inhabited.default (param.default.map (Expr.reform change))

def Node.reform (change : Reform) : Node String Unit → Node String Unit
  | .expr tree => .expr (tree.reform change)
  | .param tree => .param (tree.reform change)
  | .block tree => .block (tree.reform change)
  | .stmt tree => .stmt (tree.reform change)

theorem Expr.reform_call (change : Reform) (loc : Loc) (receiver : Option PlainExpr)
    (method : String) (args : List PlainExpr) (block : Option PlainBlock) (parens : Bool) :
    (Expr.call loc receiver method args block parens).reform change =
      .call default (receiver.map (Expr.reform change)) method (reformExprs change args)
        (block.map (Block.reform change)) (change.parens parens (!args.isEmpty)) := by
  rcases receiver with _ | receiver <;> rcases block with _ | ⟨blockLoc, scope, params, body⟩
  all_goals simp [Expr.reform, Block.reform, Block.params, Block.body]

theorem reformExprs_eq_map (change : Reform) (trees : List PlainExpr) :
    reformExprs change trees = trees.map (Expr.reform change) :=
  eq_map rfl (fun _ _ => rfl) trees

theorem reformExprs_isEmpty (change : Reform) (trees : List PlainExpr) :
    (reformExprs change trees).isEmpty = trees.isEmpty := by
  cases trees <;> rfl

theorem reformStmts_eq_map (change : Reform) (trees : List PlainStmt) :
    reformStmts change trees = trees.map (Stmt.reform change) :=
  eq_map rfl (fun _ _ => rfl) trees

theorem reformParams_eq_map (change : Reform) (params : List PlainParam) :
    reformParams change params = params.map (Param.reform change) := by
  induction params with
  | nil => rfl
  | cons first rest ih =>
    rcases first with ⟨name, loc, _ | value⟩ <;>
      simp [reformParams, Param.reform, Param.name, Param.default, ih]

/-- A reform after another one is a third one on the trees whose literals they treat alike. -/
structure Reform.Composes (floats : Float → Prop) (inner outer whole : Reform) : Prop where
  literal : ∀ value : Literal, value.WellFormed floats →
    (inner.literal value).reform outer = whole.literal value
  parens : ∀ written hasArgs, outer.parens (inner.parens written hasArgs) hasArgs =
    whole.parens written hasArgs
  modifier : ∀ marked thenBody elseBody,
    outer.modifier (inner.modifier marked thenBody elseBody) (reformStmts inner thenBody)
      (reformStmts inner elseBody) = whole.modifier marked thenBody elseBody

variable {floats : Float → Prop} {inner outer whole : Reform}

attribute [local simp] Node.children Node.exprs Node.stmts Node.opened Node.reform.eq_1
  Node.reform.eq_2 Node.reform.eq_3 Node.reform.eq_4 Expr.reform_call reformExprs_eq_map
  reformStmts_eq_map reformParams_eq_map or_imp forall_and Function.comp_def

theorem Node.reform_reform (composes : inner.Composes floats outer whole)
    {node : PlainNode} (valid : node.WellFormed (.plain floats)) :
    (node.reform inner).reform outer = node.reform whole := by
  induction node using induct with
  | step node ih =>
    have parts child member := ih child member (valid.children child member)
    clear ih
    rcases node with tree | ⟨_, _, _ | _⟩ | ⟨_, _, _, _⟩ | tree
    · cases tree with
      | literal =>
        obtain ⟨_, valid⟩ := valid
        exact congrArg _ (composes.literal _ valid)
      | call _ receiver _ _ block _ =>
        cases receiver <;> cases block <;> simp_all [composes.parens]
      | block | param | stmt => exact valid.elim fun _ => False.elim
      | _ => simp_all [Expr.reform]
    · rfl
    · simp_all [Param.reform, Param.name, Param.default]
    · simp_all [Block.reform, Block.params, Block.body]
    · cases tree with
      | conditional _ _ thenBody elseBody _ modifier _ =>
        have marked := composes.modifier modifier thenBody elseBody
        cases modifier <;> simp_all [Stmt.reform]
      | jump _ _ value => cases value <;> simp_all [Stmt.reform]
      | _ => simp_all [Stmt.reform]

theorem reformStmts_reformStmts (composes : inner.Composes floats outer whole)
    (trees : List PlainStmt) (chain : Bool) (valid : stmtsWellFormed (.plain floats) chain trees) :
    reformStmts outer (reformStmts inner trees) = reformStmts whole trees := by
  simp only [reformStmts_eq_map, map_map, map_inj_left]
  intro tree member
  exact Node.stmt.inj (Node.reform_reform composes (Node.wellFormed_stmts valid tree member))

theorem Reform.composes_unplaced_canonical : unplaced.Composes floats canonical canonical where
  literal _ _ := rfl
  parens _ _ := rfl
  modifier _ _ _ := rfl

theorem Reform.composes_reread_canonical
    (finite : ∀ x, floats x → Decimal.floatText Decimal.literalStyle x ≠ "inf") :
    reread.Composes floats canonical canonical where
  literal value valid := by
    cases value with
    | float value => simp [reread, finite value valid, canonical, Expr.reform]
    | _ => rfl
  parens written hasArgs := by simp [reread, canonical]
  modifier _ _ _ := rfl

/-- Reforms that do not change how a tree is written. -/
structure Reform.KeepsRows (change : Reform) : Prop where
  literal : ∀ value, change.literal value = .literal default value ∨
    ∃ x, value = .float x ∧ Decimal.floatText Decimal.literalStyle x = "inf" ∧
      change.literal value = .name default "inf"
  parens : ∀ written, change.parens written false = written
  modifier : ∀ marked thenBody elseBody,
    writtenAfter (change.modifier marked thenBody elseBody) thenBody elseBody =
      writtenAfter marked thenBody elseBody

theorem Reform.keepsRows_unplaced : unplaced.KeepsRows where
  literal _ := .inl rfl
  parens _ := rfl
  modifier _ _ _ := rfl

theorem writtenAfter_writtenAfter (marked : Bool) (thenBody elseBody : List PlainStmt) :
    writtenAfter (writtenAfter marked thenBody elseBody) thenBody elseBody =
      writtenAfter marked thenBody elseBody := by
  cases fits : writtenAfter marked thenBody elseBody with
  | false => simp [writtenAfter]
  | true =>
    unfold writtenAfter at fits ⊢
    simp only [Bool.and_eq_true] at fits ⊢
    exact ⟨⟨trivial, fits.1.2⟩, fits.2⟩

theorem Reform.keepsRows_reread : reread.KeepsRows where
  literal value := by
    cases value with
    | float x =>
      by_cases infinite : Decimal.floatText Decimal.literalStyle x = "inf"
      · exact .inr ⟨x, rfl, infinite, if_pos infinite⟩
      · exact .inl (if_neg infinite)
    | _ => exact .inl rfl
  parens written := Bool.or_false written
  modifier := writtenAfter_writtenAfter

variable {change : Reform}

theorem Expr.level_reform (keeps : change.KeepsRows) {tree : PlainExpr} {position : Position}
    (valid : tree.WellFormed (.plain floats) position) :
    (tree.reform change).level = tree.level := by
  cases tree with
  | literal loc value =>
    rcases keeps.literal value with same | ⟨x, -, -, named⟩
    · simp [Expr.reform, same, Expr.level]
    · simp [Expr.reform, named, Expr.level]
  | block | param | stmt => exact False.elim valid
  | call => simp [Expr.reform_call, Expr.level]
  | _ => simp [Expr.reform, Expr.level]

theorem assignedLevel_reform (keeps : change.KeepsRows) {tree : PlainExpr} {position : Position}
    (valid : tree.WellFormed (.plain floats) position) :
    Printer.assignedLevel (tree.reform change) = Printer.assignedLevel tree := by
  cases tree with
  | literal loc value =>
    rcases keeps.literal value with same | ⟨x, -, -, named⟩
    · simp [Expr.reform, same, Printer.assignedLevel]
    · simp [Expr.reform, named, Printer.assignedLevel]
  | block | param | stmt => exact False.elim valid
  | call => simp [Expr.reform_call, Printer.assignedLevel]
  | _ => simp [Expr.reform, Printer.assignedLevel]

theorem exprsOneLine_eq (trees : List PlainExpr) : exprsOneLine trees = trees.all Expr.oneLine := by
  induction trees with
  | nil => rfl
  | cons first rest ih => rw [exprsOneLine, ih, all_cons]

theorem paramsOneLine_eq (trees : List PlainParam) :
    paramsOneLine trees = trees.all fun tree => tree.default.all Expr.oneLine := by
  induction trees with
  | nil => rfl
  | cons first rest ih =>
    rcases first with ⟨_, _, _ | _⟩ <;> simp [paramsOneLine, Param.default, ih]

def Node.oneLine : Node String Unit → Bool
  | .expr tree => tree.oneLine
  | .param tree => tree.default.all Expr.oneLine
  | .block tree => paramsOneLine tree.params && bodyOneLine tree.body
  | .stmt tree => tree.oneLine

theorem all_congr {α : Type} {items : List α} {first second : α → Bool}
    (same : ∀ item ∈ items, first item = second item) : items.all first = items.all second := by
  induction items with
  | nil => rfl
  | cons item rest ih => simp_all

attribute [local congr] all_congr

attribute [local simp] Node.oneLine.eq_1 Node.oneLine.eq_2 Node.oneLine.eq_3 Node.oneLine.eq_4
  Expr.oneLine Stmt.oneLine exprsOneLine_eq paramsOneLine_eq

theorem Node.oneLine_reform (keeps : change.KeepsRows) (node : PlainNode) :
    (node.reform change).oneLine = node.oneLine := by
  induction node using induct with
  | step node ih =>
    rcases node with tree | ⟨_, _, _ | _⟩ | ⟨_, _, _, body⟩ | tree
    · cases tree with
      | literal _ value =>
        rcases keeps.literal value with same | ⟨_, -, -, named⟩ <;> simp_all [Expr.reform]
      | call _ receiver _ _ block _ =>
        cases receiver <;> rcases block with _ | ⟨_, _, _, _⟩ <;>
          simp_all [Block.reform, Block.params, Block.body]
      | lambda _ _ _ body => rcases body with _ | ⟨_, _ | _⟩ <;> simp_all [Expr.reform, bodyOneLine]
      | _ => simp_all [Expr.reform]
    · rfl
    · simp_all [Param.reform, Param.default]
    · rcases body with _ | ⟨_, _ | _⟩ <;>
        simp_all [Block.reform, Block.params, Block.body, bodyOneLine]
    · cases tree with
      | conditional _ _ thenBody elseBody _ modifier _ =>
        have fits := keeps.modifier modifier thenBody elseBody
        simp only [writtenAfter] at fits
        rcases thenBody with _ | ⟨only, _ | _⟩ <;> cases modifier <;> simp_all [Stmt.reform]
        grind
      | jump _ _ value => cases value <;> simp_all [Stmt.reform]
      | _ => simp_all [Stmt.reform]

theorem Stmt.oneLine_reform (keeps : change.KeepsRows) (tree : PlainStmt) :
    (tree.reform change).oneLine = tree.oneLine := (Node.stmt tree).oneLine_reform keeps

theorem writtenAfter_reform (keeps : change.KeepsRows) (modifier : Bool)
    (thenBody elseBody : List PlainStmt) :
    writtenAfter (change.modifier modifier thenBody elseBody) (reformStmts change thenBody)
      (reformStmts change elseBody) = writtenAfter modifier thenBody elseBody := by
  rw [← keeps.modifier modifier thenBody elseBody]
  rcases thenBody with _ | ⟨only, _ | ⟨second, rest⟩⟩
  · simp [writtenAfter, reformStmts]
  · simp [writtenAfter, reformStmts, Stmt.oneLine_reform keeps only]
  · simp [writtenAfter, reformStmts]

namespace Row

open Piece

theorem argList_reform (keeps : change.KeepsRows) (parens : Bool) (args : List PlainExpr)
    (rows : List Row) (sized : rows.length = args.length) :
    argList (change.parens parens (!args.isEmpty)) rows = argList parens rows := by
  rcases args with _ | ⟨first, rest⟩ <;> rcases rows with _ | ⟨row, others⟩
  · simp [keeps.parens]
  all_goals simp [argList] at sized ⊢

theorem exprsAt_length (depth level : Nat) (trees : List PlainExpr) :
    (exprsAt depth level trees).length = trees.length := by
  induction trees with
  | nil => rfl
  | cons first rest ih => simp [exprsAt, ih]

theorem exprsAt_eq (depth level : Nat) (trees : List PlainExpr) : exprsAt depth level trees =
    trees.map fun tree => atLevel level tree.level (expr depth tree) :=
  eq_map rfl (fun _ _ => rfl) trees

theorem params_eq (depth : Nat) (trees : List PlainParam) :
    params depth trees = trees.flatMap fun tree => params depth [tree] := by
  induction trees with
  | nil => rfl
  | cons first rest ih => rcases first with ⟨_, _, _ | _⟩ <;> simp [params, ih]

theorem stmts_eq (depth : Nat) (trees : List PlainStmt) :
    stmts depth trees = trees.flatMap fun tree => stmt depth tree ++ [.lineEnd true] := by
  induction trees with
  | nil => rfl
  | cons first rest ih => simp [stmts, ih]

/-- A change of a part of a tree that its row does not show. -/
def Unseen (change : Reform) : Node String Unit → Prop
  | .expr tree => (tree.reform change).level = tree.level ∧
    Printer.assignedLevel (tree.reform change) = Printer.assignedLevel tree ∧
    ∀ depth, expr depth (tree.reform change) = expr depth tree
  | .param tree => ∀ depth, params depth [tree.reform change] = params depth [tree]
  | .block tree => ∀ depth, params depth (tree.reform change).params = params depth tree.params ∧
    ∀ rows, braces depth rows (tree.reform change).body = braces depth rows tree.body
  | .stmt tree => ∀ depth, stmt depth (tree.reform change) = stmt depth tree ∧
    ∀ chain, elseLines depth chain [tree.reform change] = elseLines depth chain [tree]

theorem params_reform {trees : List PlainParam}
    (unseen : ∀ tree ∈ trees, Unseen change (.param tree))
    (depth : Nat) : params depth (trees.map (Param.reform change)) = params depth trees := by
  rw [params_eq, flatMap_map, params_eq depth trees]
  exact flatMap_congr fun tree member => unseen tree member depth

section Stmts

variable (keeps : change.KeepsRows) {trees : List PlainStmt}
  (unseen : ∀ tree ∈ trees, Unseen change (.stmt tree)) (depth : Nat)
include unseen

theorem stmts_reform : stmts depth (trees.map (Stmt.reform change)) = stmts depth trees := by
  rw [stmts_eq, flatMap_map, stmts_eq depth trees]
  exact flatMap_congr fun tree member => by rw [(unseen tree member depth).1]

include keeps in
theorem braces_reform (rows : List Row) :
    braces depth rows (trees.map (Stmt.reform change)) = braces depth rows trees := by
  rcases trees with _ | ⟨first, _ | ⟨second, rest⟩⟩
  · rfl
  · have only := unseen first mem_cons_self
    simp [braces, Stmt.oneLine_reform keeps, (only _).1]
  · have tail := stmts_reform (forall_mem_cons.1 unseen).2 (depth + 1)
    have head := unseen first mem_cons_self (depth + 1)
    simp_all [braces]

theorem elseLines_reform (chain : Bool) :
    elseLines depth chain (trees.map (Stmt.reform change)) = elseLines depth chain trees := by
  rcases trees with _ | ⟨first, _ | ⟨second, rest⟩⟩
  · rfl
  · exact (unseen first mem_cons_self depth).2 chain
  · have tail := stmts_reform (forall_mem_cons.1 unseen).2 (depth + 1)
    have head := unseen first mem_cons_self (depth + 1)
    rw [map_cons, map_cons, elseLines_of_plain (.inl (cons_ne_nil _ _)),
      elseLines_of_plain (.inl (cons_ne_nil _ _)), ← map_cons, tail, head.1]

end Stmts

attribute [local simp] Unseen.eq_1 Unseen.eq_3 Unseen.eq_4 exprsAt_eq

attribute [local congr] map_congr_left

theorem unseen_plain {tree : PlainStmt} (plain : tree.isConditional = false)
    (same : ∀ depth, stmt depth (tree.reform change) = stmt depth tree) :
    Unseen change (.stmt tree) := by
  have changed : (tree.reform change).isConditional = false := by
    rcases tree with _ | _ | _ | _ | ⟨_, _, _ | _⟩ | _ <;> first | rfl | cases plain
  intro depth
  refine ⟨same depth, fun chain => ?_⟩
  rw [elseLines_of_plain (.inr changed), elseLines_of_plain (.inr plain), same]

theorem unseen_conditional (keeps : change.KeepsRows) {loc : Loc} {condition : PlainExpr}
    {thenBody elseBody : List PlainStmt} {negated modifier elsif : Bool}
    (first : Unseen change (.expr condition))
    (second : ∀ tree ∈ thenBody, Unseen change (.stmt tree))
    (third : ∀ tree ∈ elseBody, Unseen change (.stmt tree)) :
    Unseen change (.stmt
      (.conditional loc condition thenBody elseBody negated modifier elsif)) := by
  obtain ⟨level, -, row⟩ := first
  have fits := writtenAfter_reform keeps modifier thenBody elseBody
  have lines := stmts_reform second
  have below := elseLines_reform third
  have whole depth : stmt depth (Stmt.reform change
      (.conditional loc condition thenBody elseBody negated modifier elsif)) =
      stmt depth (.conditional loc condition thenBody elseBody negated modifier elsif) := by
    have alone tree member := (second tree member depth).1
    rcases thenBody with _ | ⟨only, _ | ⟨_, _⟩⟩ <;> simp at fits lines alone <;>
      simp [Stmt.reform, stmt, fits, lines, below, level, row, alone]
  refine fun depth => ⟨whole depth, fun chain => ?_⟩
  have inner := whole (depth + 1)
  simp only [Stmt.reform, reformStmts_eq_map] at inner
  simp [Stmt.reform, elseLines, inner, level, row, lines, below]

theorem unseen_reform (keeps : change.KeepsRows) {node : PlainNode}
    (valid : node.WellFormed (.plain floats)) : Unseen change node := by
  induction node using Node.induct with
  | step node ih =>
    have parts child member := ih child member (valid.children child member)
    clear ih
    rcases node with tree | ⟨_, _, _ | _⟩ | ⟨_, _, _, _⟩ | tree
    · obtain ⟨position, valid⟩ := valid
      refine ⟨Expr.level_reform keeps valid, assignedLevel_reform keeps valid, fun depth => ?_⟩
      cases tree with
      | literal _ value =>
        rcases keeps.literal value with same | ⟨x, rfl, infinite, named⟩
        · simp [Expr.reform, same, expr]
        · simp [Expr.reform, named, expr, literal_float, floatKind, infinite]
      | call _ receiver _ args block parens =>
        have list rows := argList_reform keeps parens args rows
        cases receiver <;> rcases block with _ | ⟨_, _, _, _⟩ <;>
          simp_all [expr, Block.reform, Block.params, Block.body]
      | lambda _ _ params body => simp_all [Expr.reform, expr, params_reform, braces_reform keeps]
      | block | param | stmt => exact False.elim valid
      | _ => simp_all [Expr.reform, expr]
    · exact fun _ => rfl
    · simp_all [Unseen, params, Param.reform, Param.name, Param.default]
    · simp_all [Block.reform, Block.params, Block.body, params_reform, braces_reform]
    · cases tree with
      | jump _ _ value =>
        refine unseen_plain rfl fun depth => ?_
        cases value <;> simp_all [Stmt.reform, stmt]
      | conditional _ _ _ _ _ modifier _ =>
        refine unseen_conditional keeps (parts (.part, _) ?_) (fun _ _ => parts (.part, _) ?_)
          fun _ _ => parts (.part, _) ?_
        all_goals cases modifier <;> simp_all
      | bare => exact valid.elim fun _ => False.elim
      | define _ _ _ params body =>
        have front := @params_reform change params fun _ _ =>
          parts (.defaults .function (), _) (by simp_all)
        have lines := @stmts_reform change body fun _ _ =>
          parts (.body .function (), _) (by simp_all)
        refine unseen_plain rfl fun depth => ?_
        simp [Stmt.reform, stmt, front, lines]
      | whileLoop _ _ body =>
        have lines := @stmts_reform change body fun _ _ => parts (.loop, _) (by simp_all)
        refine unseen_plain rfl fun depth => ?_
        simp_all [Stmt.reform, stmt]
      | expression =>
        refine unseen_plain rfl fun depth => ?_
        simp_all [Stmt.reform, stmt]

theorem isDefinition_reform (tree : PlainStmt) :
    Printer.isDefinition (tree.reform change) = Printer.isDefinition tree := by
  cases tree with
  | jump loc kind value => cases value <;> rfl
  | _ => rfl

theorem program_reform (keeps : change.KeepsRows) {trees : PlainProgram}
    (valid : stmtsWellFormed (.plain floats) false trees) :
    program (reformStmts change trees) = program trees := by
  induction trees with
  | nil => rfl
  | cons first rest ih =>
    have head := (@unseen_reform _ _ keeps (.stmt first) ⟨_, valid.1⟩ 0).1
    have tail := ih valid.2
    cases rest with
    | nil => simp only [reformStmts, program, head]
    | cons second rest =>
      rw [reformStmts] at tail
      simp only [reformStmts, program, head, isDefinition_reform, tail]

end Row

end Hoist
