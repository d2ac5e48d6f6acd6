import Hoist.Scope.Resolve
import Hoist.Proofs.Syntax.Node

/-!
Walks over trees.  A walk meets a tree before its parts, and relabelling a tree relabels what a walk
over it meets.
-/

namespace Hoist

open List

variable {ν σ ν' σ' : Type}

/-- A block and all that it contains. -/
def Block.walk (block : Block ν σ) : List (Node ν σ) :=
  .block block :: (walkParams block.params ++ walkStmts block.body)

theorem Block.contents_eq (block : Block ν σ) : walkParams block.params ++ walkStmts block.body =
    (Node.block block).children.flatMap (·.2.walk) := by
  have unfolded := (Node.block block).walk_eq
  cases block
  exact (List.cons.inj unfolded).2

/-- The innermost scope after a step. -/
def Step.scope (scope : σ) : Step σ → σ
  | .defaults _ inner | .body _ inner => inner
  | _ => scope

/-- Whether a step leads to what is assigned to. -/
def Step.isTarget : Step σ → Bool
  | .target => true
  | _ => false

theorem Node.WellFormed.isTarget_child {wording : Wording ν} {node : Node ν σ}
    (valid : node.WellFormed wording) {child : Step σ × Node ν σ} (member : child ∈ node.children)
    (isTarget : child.1.isTarget = true) : child.2.isTarget = true := by
  obtain ⟨_ | _ | _ | _ | _, tree⟩ := child
  case target => exact valid.target member
  all_goals cases isTarget

mutual

/-- The parts of an expression in the order of a walk, each with the innermost scope around it. -/
def Expr.walkIn (scope : σ) : Expr ν σ → List (σ × Node ν σ)
  | tree@(.literal ..) | tree@(.symbol ..) | tree@(.name ..) | tree@(.global ..)
  | tree@(.constant ..) => [(scope, .expr tree)]
  | tree@(.array _ elements) => (scope, .expr tree) :: walkExprsIn scope elements
  | tree@(.splat _ value) => (scope, .expr tree) :: value.walkIn scope
  | tree@(.range _ start stop _) => (scope, .expr tree) :: (start.walkIn scope ++ stop.walkIn scope)
  | tree@(.binary _ _ left right) =>
    (scope, .expr tree) :: (left.walkIn scope ++ right.walkIn scope)
  | tree@(.unary _ _ operand) => (scope, .expr tree) :: operand.walkIn scope
  | tree@(.ternary _ condition thenValue elseValue) =>
    (scope, .expr tree) ::
      (condition.walkIn scope ++ thenValue.walkIn scope ++ elseValue.walkIn scope)
  | tree@(.lambda _ inner params body) =>
    (scope, .expr tree) :: (walkParamsIn inner params ++ walkStmtsIn inner body)
  | tree@(.call _ receiver _ args block _) =>
    (scope, .expr tree) ::
      (walkOptionIn scope receiver ++ walkExprsIn scope args ++ walkBlockIn scope block)
  | tree@(.index _ value args) =>
    (scope, .expr tree) :: (value.walkIn scope ++ walkExprsIn scope args)
  | tree@(.assign _ target value) =>
    (scope, .expr tree) :: (target.walkIn scope ++ value.walkIn scope)
  | tree@(.opAssign _ target _ value) =>
    (scope, .expr tree) :: (target.walkIn scope ++ value.walkIn scope)
  | tree@(.multiAssign _ targets values) =>
    (scope, .expr tree) :: (walkExprsIn scope targets ++ walkExprsIn scope values)
  | .block tree@(.mk _ inner params body) =>
    (scope, .block tree) :: (walkParamsIn inner params ++ walkStmtsIn inner body)
  | .param tree@(.mk _ _ value) => (scope, .param tree) :: walkOptionIn scope value
  | .stmt tree => tree.walkIn scope

def walkOptionIn (scope : σ) : Option (Expr ν σ) → List (σ × Node ν σ)
  | none => []
  | some tree => tree.walkIn scope

def walkExprsIn (scope : σ) : List (Expr ν σ) → List (σ × Node ν σ)
  | [] => []
  | first :: rest => first.walkIn scope ++ walkExprsIn scope rest

def walkParamsIn (scope : σ) : List (Param ν σ) → List (σ × Node ν σ)
  | [] => []
  | tree@(.mk _ _ value) :: rest =>
    (scope, .param tree) :: (walkOptionIn scope value ++ walkParamsIn scope rest)

def walkBlockIn (scope : σ) : Option (Block ν σ) → List (σ × Node ν σ)
  | none => []
  | some tree@(.mk _ inner params body) =>
    (scope, .block tree) :: (walkParamsIn inner params ++ walkStmtsIn inner body)

def Stmt.walkIn (scope : σ) : Stmt ν σ → List (σ × Node ν σ)
  | tree@(.define _ inner _ params body) =>
    (scope, .stmt tree) :: (walkParamsIn inner params ++ walkStmtsIn inner body)
  | tree@(.expression _ value) => (scope, .stmt tree) :: value.walkIn scope
  | tree@(.conditional _ condition thenBody elseBody _ modifier _) =>
    (scope, .stmt tree) ::
      ((if modifier then walkStmtsIn scope thenBody ++ condition.walkIn scope
        else condition.walkIn scope ++ walkStmtsIn scope thenBody) ++ walkStmtsIn scope elseBody)
  | tree@(.whileLoop _ condition body) =>
    (scope, .stmt tree) :: (condition.walkIn scope ++ walkStmtsIn scope body)
  | tree@(.jump _ _ value) => (scope, .stmt tree) :: walkOptionIn scope value
  | .bare tree => tree.walkIn scope

def walkStmtsIn (scope : σ) : List (Stmt ν σ) → List (σ × Node ν σ)
  | [] => []
  | first :: rest => first.walkIn scope ++ walkStmtsIn scope rest

end

namespace Node

def walkIn (scope : σ) : Node ν σ → List (σ × Node ν σ)
  | .expr tree => tree.walkIn scope
  | .param tree => walkParamsIn scope [tree]
  | .block tree => (Expr.block tree).walkIn scope
  | .stmt tree => tree.walkIn scope

theorem walkExprsIn_eq (scope : σ) (trees : List (Expr ν σ)) :
    walkExprsIn scope trees = trees.flatMap (Expr.walkIn scope) :=
  eq_flatMap rfl (fun _ _ => rfl) trees

theorem walkStmtsIn_eq (scope : σ) (trees : List (Stmt ν σ)) :
    walkStmtsIn scope trees = trees.flatMap (Stmt.walkIn scope) :=
  eq_flatMap rfl (fun _ _ => rfl) trees

theorem walkParamsIn_eq (scope : σ) (trees : List (Param ν σ)) :
    walkParamsIn scope trees = trees.flatMap fun tree => walkParamsIn scope [tree] := by
  induction trees with
  | nil => rfl
  | cons first rest ih =>
    rw [flatMap_cons, ← ih]
    cases first
    simp [walkParamsIn]

theorem walkStmtsIn_children (scope : σ) (trees : List (Stmt ν σ)) :
    (stmts .part trees).flatMap (fun child => child.2.walkIn (child.1.scope scope)) =
      walkStmtsIn scope trees := by
  rw [walkStmtsIn_eq, stmts, flatMap_map]
  rfl

attribute [local simp] here children exprs stmts opened walkIn Expr.walkIn Stmt.walkIn
  walkExprsIn_eq walkStmtsIn_eq walkOptionIn walkBlockIn Step.scope flatMap_map

theorem gathers_walkIn : Gathers Step.scope (fun scope node => [(scope, node)])
    (fun _ _ => True) (walkIn (ν := ν) (σ := σ)) := by
  refine fun scope node _ => ⟨fun _ _ => trivial, ?_⟩
  match node with
  | .expr tree =>
    cases tree with
    | call _ receiver _ _ block _ =>
      rcases receiver with _ | receiver <;> rcases block with _ | ⟨_, _, _, _⟩ <;> simp
    | param param => rcases param with ⟨_, _, _ | _⟩ <;> simp [walkParamsIn]
    | lambda _ _ params _ => simp [walkParamsIn_eq _ params]
    | block block => cases block; simp
    | _ => simp
  | .param (.mk _ _ default) => cases default <;> simp [walkParamsIn]
  | .block (.mk _ _ params _) => simp [walkParamsIn_eq _ params]
  | .stmt tree =>
    cases tree with
    | define _ _ _ params _ => simp [walkParamsIn_eq _ params]
    | conditional _ _ _ _ _ modifier _ => cases modifier <;> simp
    | jump _ _ value => cases value <;> simp
    | _ => simp

theorem walkIn_eq (scope : σ) (node : Node ν σ) : node.walkIn scope = node.here.map (scope, ·) ++
    node.children.flatMap fun child => child.2.walkIn (child.1.scope scope) := by
  rw [map_eq_flatMap]
  exact (gathers_walkIn scope node trivial).2

theorem walkIn_map_snd (scope : σ) (node : Node ν σ) :
    (node.walkIn scope).map Prod.snd = node.walk :=
  gathers_walkIn.map gathers_walk Prod.snd (fun _ => ()) (fun _ _ => rfl) (fun _ _ => rfl)
    trivial trivial

end Node

theorem walkParamsIn_map_snd (scope : σ) (trees : List (Param ν σ)) :
    (walkParamsIn scope trees).map Prod.snd = walkParams trees := by
  rw [Node.walkParamsIn_eq, map_flatMap, Node.walkParams_eq]
  exact flatMap_congr fun tree _ => (Node.param tree).walkIn_map_snd scope

theorem walkStmtsIn_map_snd (scope : σ) (trees : List (Stmt ν σ)) :
    (walkStmtsIn scope trees).map Prod.snd = walkStmts trees := by
  rw [Node.walkStmtsIn_eq, map_flatMap, Node.walkStmts_eq]
  exact flatMap_congr fun tree _ => (Node.stmt tree).walkIn_map_snd scope

/-- The parts inside a block, each with its scope. -/
def Block.contentsIn (block : Block ν σ) : List (σ × Node ν σ) :=
  walkParamsIn block.scope block.params ++ walkStmtsIn block.scope block.body

/-- With a block, some parts have all that the block contains. -/
def HoldBlocks (parts : List (σ × Node ν σ)) : Prop :=
  ∀ scope block, (scope, .block block) ∈ parts → block.contentsIn ⊆ parts

theorem walkStmtsIn_holdBlocks (scope : σ) (trees : List (Stmt ν σ)) :
    HoldBlocks (walkStmtsIn scope trees) := by
  intro inner block member
  rw [Node.walkStmtsIn_eq, mem_flatMap] at member
  obtain ⟨tree, isTree, member⟩ := member
  obtain ⟨path, last, reaches, -, found⟩ :=
    (Node.gathers_walkIn.mem_iff (.stmt tree) trivial).1 member
  obtain ⟨rfl, rfl⟩ := Prod.mk.inj (mem_singleton.1 found)
  intro part inside
  rw [Node.walkStmtsIn_eq, mem_flatMap]
  refine ⟨tree, isTree, Node.gathers_walkIn.reached reaches trivial ?_⟩
  cases block
  exact mem_cons_of_mem _ inside

/-- The method that a statement defines. -/
def Stmt.defined? : Stmt ν σ → Option String
  | .define _ _ name _ _ => some name
  | _ => none

/-- Whether a part of a tree defines a method. -/
def Node.defines (name : String) : Node ν σ → Bool
  | .stmt tree => tree.defined? == some name
  | _ => false

theorem Expr.walk_call (loc : Loc) (receiver : Option (Expr ν σ)) (method : String)
    (args : List (Expr ν σ)) (block : Option (Block ν σ)) (parens : Bool) :
    (Expr.call loc receiver method args block parens).walk =
      .expr (.call loc receiver method args block parens) ::
        (receiver.elim [] Expr.walk ++ walkExprs args ++ block.elim [] Block.walk) := by
  rcases receiver with _ | receiver <;> rcases block with _ | ⟨blockLoc, scope, params, body⟩
  all_goals rfl

theorem walkParams_cons (name : String) (loc : Loc) (default : Option (Expr ν σ))
    (rest : List (Param ν σ)) :
    walkParams (.mk name loc default :: rest) =
      .param (.mk name loc default) :: (default.elim [] Expr.walk ++ walkParams rest) := by
  cases default <;> rfl

theorem Stmt.walk_jump (loc : Loc) (kind : JumpKind) (value : Option (Expr ν σ)) :
    (Stmt.jump loc kind value).walk = .stmt (.jump loc kind value) :: value.elim [] Expr.walk := by
  cases value <;> rfl

theorem walkExprs_append (left right : List (Expr ν σ)) :
    walkExprs (left ++ right) = walkExprs left ++ walkExprs right := by
  induction left with
  | nil => rfl
  | cons first rest ih => simp [walkExprs, ih]

theorem walkStmts_append (left right : List (Stmt ν σ)) :
    walkStmts (left ++ right) = walkStmts left ++ walkStmts right := by
  induction left with
  | nil => rfl
  | cons first rest ih => simp [walkStmts, ih]

def Block.relabel (change : Relabel ν σ ν' σ') (block : Block ν σ) : Block ν' σ' :=
  .mk block.loc (change.scope block.scope) (relabelParams change block.params)
    (relabelStmts change block.body)

theorem Expr.relabel_call (change : Relabel ν σ ν' σ') (loc : Loc) (receiver : Option (Expr ν σ))
    (method : String) (args : List (Expr ν σ)) (block : Option (Block ν σ)) (parens : Bool) :
    (Expr.call loc receiver method args block parens).relabel change =
      .call loc (receiver.map (Expr.relabel change)) method (relabelExprs change args)
        (block.map (Block.relabel change)) parens := by
  rcases receiver with _ | receiver <;> rcases block with _ | ⟨blockLoc, scope, params, body⟩
  all_goals rfl

theorem Stmt.relabel_jump (change : Relabel ν σ ν' σ') (loc : Loc) (kind : JumpKind)
    (value : Option (Expr ν σ)) :
    (Stmt.jump loc kind value).relabel change =
      .jump loc kind (value.map (Expr.relabel change)) := by
  cases value <;> rfl

def Param.relabel (change : Relabel ν σ ν' σ') (param : Param ν σ) : Param ν' σ' :=
  .mk param.name param.loc (param.default.map (Expr.relabel change))

def Step.map (change : σ → σ') : Step σ → Step σ'
  | .part => .part
  | .target => .target
  | .loop => .loop
  | .defaults kind scope => .defaults kind (change scope)
  | .body kind scope => .body kind (change scope)

def Node.relabel (change : Relabel ν σ ν' σ') : Node ν σ → Node ν' σ'
  | .expr tree => .expr (tree.relabel change)
  | .param tree => .param (tree.relabel change)
  | .block tree => .block (tree.relabel change)
  | .stmt tree => .stmt (tree.relabel change)

theorem relabelExprs_eq_map (change : Relabel ν σ ν' σ') (trees : List (Expr ν σ)) :
    relabelExprs change trees = trees.map (Expr.relabel change) :=
  eq_map rfl (fun _ _ => rfl) trees

theorem relabelStmts_eq_map (change : Relabel ν σ ν' σ') (trees : List (Stmt ν σ)) :
    relabelStmts change trees = trees.map (Stmt.relabel change) :=
  eq_map rfl (fun _ _ => rfl) trees

theorem relabelParams_eq_map (change : Relabel ν σ ν' σ') (params : List (Param ν σ)) :
    relabelParams change params = params.map (Param.relabel change) := by
  induction params with
  | nil => rfl
  | cons first rest ih =>
    rcases first with ⟨name, loc, _ | value⟩ <;>
      simp [relabelParams, Param.relabel, Param.name, Param.loc, Param.default, ih]

section Relabel

variable {change : Relabel ν σ ν' σ'}

namespace Node

attribute [local simp] here children exprs stmts opened Prod.map Step.map Node.relabel
  Expr.relabel_call Block.relabel Param.relabel relabelExprs_eq_map relabelStmts_eq_map
  relabelParams_eq_map Param.default Param.name Param.loc Block.loc Block.scope Block.params
  Block.body Function.comp_def

theorem children_relabel (node : Node ν σ) : (node.relabel change).children =
      node.children.map (Prod.map (Step.map change.scope) (Node.relabel change)) := by
  match node with
  | .expr tree =>
    cases tree with
    | call _ receiver _ _ block _ => cases receiver <;> cases block <;> simp
    | param param => rcases param with ⟨_, _, _ | _⟩ <;> simp [Expr.relabel]
    | block block =>
      cases block
      simp [Expr.relabel]
    | _ => simp [Expr.relabel]
  | .param (.mk _ _ default) => cases default <;> simp
  | .block (.mk _ _ _ _) => simp
  | .stmt tree =>
    cases tree with
    | conditional _ _ _ _ _ modifier _ => cases modifier <;> simp [Stmt.relabel]
    | jump _ _ value => cases value <;> simp [Stmt.relabel]
    | _ => simp [Stmt.relabel]

theorem here_relabel (node : Node ν σ) :
    (node.relabel change).here = node.here.map (Node.relabel change) := by
  rcases node with tree | _ | _ | tree
  · cases tree with
    | call => simp
    | block tree =>
      cases tree
      rfl
    | param tree => rcases tree with ⟨_, _, _ | _⟩ <;> rfl
    | _ => rfl
  · rfl
  · rfl
  · cases tree with
    | jump _ _ value => cases value <;> rfl
    | _ => rfl

theorem walk_relabel (node : Node ν σ) :
    (node.relabel change).walk = node.walk.map (Node.relabel change) := by
  induction node using induct with
  | step node ih =>
    rw [walk_eq, node.walk_eq, here_relabel, children_relabel, map_append,
      flatMap_map, map_flatMap]
    exact congrArg _ (flatMap_congr ih)

end Node

theorem walkStmts_relabel (trees : List (Stmt ν σ)) :
    walkStmts (relabelStmts change trees) = (walkStmts trees).map (Node.relabel change) := by
  rw [Node.walkStmts_eq, Node.walkStmts_eq, relabelStmts_eq_map, flatMap_map, map_flatMap]
  exact flatMap_congr fun tree _ => (Node.stmt tree).walk_relabel

end Relabel

theorem find?_eq_some_of_nodup {key : ν → σ} [BEq σ] [LawfulBEq σ] {entries : List ν}
    (distinct : (entries.map key).Nodup) {entry : ν} (member : entry ∈ entries) :
    entries.find? (key · == key entry) = some entry := by
  cases found : entries.find? (key · == key entry) with
  | none => simpa using find?_eq_none.1 found entry member
  | some other =>
    have same : key other = key entry := by simpa using find?_some found
    exact congrArg some (inj_on_of_nodup_map distinct (mem_of_find?_eq_some found) member
      same)

end Hoist
