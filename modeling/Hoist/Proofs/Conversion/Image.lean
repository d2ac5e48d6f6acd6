import Hoist.Conversion
import Hoist.Proofs.Syntax.Walk

/-!
What a tree is converted to.  The names of generated code depend on the order in which they are
needed; all else depends on the tree alone.  Given the names, the converted tree is a plain function
of the resolved one, its image, and so is the method that a hoisted block becomes.
-/

namespace Hoist

open List

/-- The names of generated code. -/
structure Naming where
  stop : String
  /-- The name of a helper, by its base. -/
  helper : String → String
  /-- The name of the method that a block becomes, by the block's scope. -/
  closure : ScopeId → String
  /-- The name of the one argument that stands for several parameters, or for none. -/
  argument : ScopeId → String

namespace Site

def inside (site : Site) (construct : Construct) : Site := { site with construct }

def defaultsIn (site : Site) (scope : ScopeId) : Site := { site with defaultsOf := some scope }

end Site

/-- Where the body of a block stands. -/
def ConversionInput.blockSite (input : ConversionInput) (site : Site) (scope : ScopeId) : Site :=
  match input.plan.helper? scope with
  | none => site.inside .block
  | some _ => { site with construct := .hoisted, frame := some (input.analysis.capturesOf scope) }

/-- Where the body of a scope stands. -/
def ConversionInput.scopeSite (input : ConversionInput) (site : Site) : ScopeKind → ScopeId → Site
  | .block, scope => input.blockSite site scope
  | .lambda, _ => site.inside .lambda
  | .function, _ => site.inside .method
  | .top, _ => site

namespace Image

variable (input : ConversionInput) (naming : Naming)

def jump (site : Site) (loc : Loc) (kind : JumpKind) (value : Option PlainExpr) : PlainStmt :=
  if site.construct ≠ .hoisted then .jump loc kind value
  else match kind with
    | .returnJump | .nextJump => .jump loc .returnJump value
    | .breakJump =>
      .jump loc .returnJump
        (some (.array loc [.symbol loc naming.stop, value.getD (.literal loc .nil)]))

/-- The call that makes the closure of a block. -/
def closureCall (site : Site) (loc : Loc) (scope : ScopeId) : PlainExpr :=
  .call loc none (naming.closure scope)
    ((input.analysis.capturesOf scope).map
      (HoistedClosure.argument loc (Conversion.isCellAt input site))) none true

/-- The call that takes the place of a call with a hoisted block. -/
def hoistedCall (site : Site) (loc : Loc) (receiver : Option PlainExpr) (helper : Helper)
    (blockLoc : Loc) (scope : ScopeId) : PlainExpr :=
  .call loc none (naming.helper helper.base)
    ((if helper.hasReceiver then receiver.toList else []) ++
      [closureCall input naming site blockLoc scope]) none true

mutual

def expr (site : Site) : ResolvedExpr → PlainExpr
  | .literal loc value => .literal loc value
  | .symbol loc symbol => .symbol loc symbol
  | .name loc occurrence => Conversion.name input site loc occurrence
  | .global loc global => .global loc global
  | .constant loc constant => .constant loc constant
  | .array loc elements => .array loc (exprs site elements)
  | .splat loc value => .splat loc (expr site value)
  | .range loc start stop exclusive => .range loc (expr site start) (expr site stop) exclusive
  | .binary loc op left right => .binary loc op (expr site left) (expr site right)
  | .unary loc op operand => .unary loc op (expr site operand)
  | .ternary loc condition thenValue elseValue =>
    .ternary loc (expr site condition) (expr site thenValue) (expr site elseValue)
  | .lambda loc scope parameters body =>
    .lambda loc () (params ((site.inside .lambda).defaultsIn scope) parameters)
      (Conversion.cellPrelude input scope ++ stmts (site.inside .lambda) body)
  | .call loc receiver method args none parens =>
    .call loc (option site receiver) method (exprs site args) none parens
  | .call loc receiver method args (some tree) parens =>
    match input.plan.helper? tree.scope with
    | none =>
      .call loc (option site receiver) method (exprs site args) (some (block site tree)) parens
    | some helper =>
      hoistedCall input naming site loc (option site receiver) helper tree.loc tree.scope
  | .index loc value args => .index loc (expr site value) (exprs site args)
  | .assign loc target value => .assign loc (expr site target) (expr site value)
  | .opAssign loc target op value => .opAssign loc (expr site target) op (expr site value)
  | .multiAssign loc targets values => .multiAssign loc (exprs site targets) (exprs site values)
  -- no resolved program has these
  | .block _ | .param _ | .stmt _ => default

def option (site : Site) : Option ResolvedExpr → Option PlainExpr
  | none => none
  | some tree => some (expr site tree)

def exprs (site : Site) : List ResolvedExpr → List PlainExpr
  | [] => []
  | first :: rest => expr site first :: exprs site rest

def params (site : Site) : List ResolvedParam → List PlainParam
  | [] => []
  | .mk name loc value :: rest => .mk name loc (option site value) :: params site rest

/-- A block with its parameters and its body converted, whether it is hoisted or not. -/
def block (site : Site) : ResolvedBlock → PlainBlock
  | .mk loc scope parameters body =>
    .mk loc () (params ((input.blockSite site scope).defaultsIn scope) parameters)
      (Conversion.cellPrelude input scope ++ stmts (input.blockSite site scope) body)

def stmt (site : Site) : ResolvedStmt → PlainStmt
  | .define loc scope name parameters body =>
    .define loc () name (params ((site.inside .method).defaultsIn scope) parameters)
      (Conversion.cellPrelude input scope ++ stmts (site.inside .method) body)
  | .expression loc value => .expression loc (expr site value)
  | .conditional loc condition thenBody elseBody negated modifier elsif =>
    .conditional loc (expr site condition) (stmts site thenBody) (stmts site elseBody) negated
      modifier elsif
  | .whileLoop loc condition body =>
    .whileLoop loc (expr site condition) (stmts (site.inside .whileLoop) body)
  | .jump loc kind value => jump naming site loc kind (option site value)
  -- no resolved program has these
  | .bare _ => default

def stmts (site : Site) : List ResolvedStmt → List PlainStmt
  | [] => []
  | first :: rest => stmt site first :: stmts site rest

end

section

variable {input naming}

theorem exprs_eq_map (site : Site) (trees : List ResolvedExpr) :
    exprs input naming site trees = trees.map (expr input naming site) :=
  eq_map rfl (fun _ _ => rfl) trees

theorem stmts_eq_map (site : Site) (trees : List ResolvedStmt) :
    stmts input naming site trees = trees.map (stmt input naming site) :=
  eq_map rfl (fun _ _ => rfl) trees

theorem params_eq_map (site : Site) (trees : List ResolvedParam) :
    params input naming site trees = trees.map fun tree =>
      .mk tree.name tree.loc (option input naming site tree.default) := by
  induction trees with
  | nil => rfl
  | cons first rest ih =>
    cases first
    rw [params, ih, map_cons]
    rfl

end

/-- The parameters of the lambda in the method that a block becomes, and the statements in front of
its body. -/
def lambdaParams (argument : String) (params : List PlainParam) (arity : Nat) (loc : Loc) :
    List PlainParam × List PlainStmt :=
  if arity = 0 then
    ([], params.map fun param =>
      .expression loc (.assign loc (.name loc param.name) (.literal loc .nil)))
  else match params with
    | [_] => (params, [])
    | [] => ([.mk argument loc none], [])
    | _ => ([.mk argument loc none],
        [.expression loc (.multiAssign loc (params.map fun param => .name param.loc param.name)
          [.name loc argument])])

/-- The method that a converted block becomes. -/
def closure (name argument : String) (captures : CaptureSet) (arity : Nat) (block : PlainBlock) :
    HoistedClosure :=
  let (inner, front) := lambdaParams argument block.params arity block.loc
  ⟨name, captures,
    .define block.loc () name (captures.map fun capture => .mk capture.name block.loc none)
      [.expression block.loc (.lambda block.loc () inner (front ++ block.body))]⟩

end Image

/-- What a part of a tree becomes. -/
def Node.image (input : ConversionInput) (naming : Naming) (site : Site) :
    Node Occurrence ScopeId → Node String Unit
  | .expr tree => .expr (Image.expr input naming site tree)
  | .param tree => .param (.mk tree.name tree.loc (Image.option input naming site tree.default))
  | .block tree => .block (Image.block input naming site tree)
  | .stmt tree => .stmt (Image.stmt input naming site tree)

/-- A part of a resolved tree and where it stands. -/
structure Part where
  site : Site
  node : Node Occurrence ScopeId

/-- A block that is hoisted. -/
structure HoistedBlock where
  site : Site
  helper : Helper
  block : ResolvedBlock

namespace HoistedBlock

variable (input : ConversionInput) (naming : Naming) (hoisted : HoistedBlock)

def scope : ScopeId := hoisted.block.scope

/-- The block with its parameters and its body converted. -/
def image : PlainBlock := Image.block input naming hoisted.site hoisted.block

def closure : HoistedClosure :=
  Image.closure (naming.closure hoisted.scope) (naming.argument hoisted.scope)
    (input.analysis.capturesOf hoisted.scope) hoisted.helper.arity (hoisted.image input naming)

end HoistedBlock

section Parts

variable (input : ConversionInput)

mutual

/-- The parts of an expression, each with the place where it stands, in the order of a walk. -/
def Expr.parts (site : Site) : ResolvedExpr → List Part
  | tree@(.literal ..) | tree@(.symbol ..) | tree@(.name ..) | tree@(.global ..)
  | tree@(.constant ..) => [⟨site, .expr tree⟩]
  | tree@(.array _ elements) => ⟨site, .expr tree⟩ :: exprsParts site elements
  | tree@(.splat _ value) => ⟨site, .expr tree⟩ :: value.parts site
  | tree@(.range _ start stop _) => ⟨site, .expr tree⟩ :: (start.parts site ++ stop.parts site)
  | tree@(.binary _ _ left right) => ⟨site, .expr tree⟩ :: (left.parts site ++ right.parts site)
  | tree@(.unary _ _ operand) => ⟨site, .expr tree⟩ :: operand.parts site
  | tree@(.ternary _ condition thenValue elseValue) =>
    ⟨site, .expr tree⟩ ::
      (condition.parts site ++ thenValue.parts site ++ elseValue.parts site)
  | tree@(.lambda _ scope params body) =>
    ⟨site, .expr tree⟩ ::
      (paramsParts ((site.inside .lambda).defaultsIn scope) params ++
        stmtsParts (site.inside .lambda) body)
  | tree@(.call _ receiver _ args block _) =>
    ⟨site, .expr tree⟩ ::
      (optionParts site receiver ++ exprsParts site args ++ blockParts site block)
  | tree@(.index _ value args) => ⟨site, .expr tree⟩ :: (value.parts site ++ exprsParts site args)
  | tree@(.assign _ target value) => ⟨site, .expr tree⟩ :: (target.parts site ++ value.parts site)
  | tree@(.opAssign _ target _ value) =>
    ⟨site, .expr tree⟩ :: (target.parts site ++ value.parts site)
  | tree@(.multiAssign _ targets values) =>
    ⟨site, .expr tree⟩ :: (exprsParts site targets ++ exprsParts site values)
  | .block _ | .param _ | .stmt _ => []

def optionParts (site : Site) : Option ResolvedExpr → List Part
  | none => []
  | some tree => tree.parts site

def exprsParts (site : Site) : List ResolvedExpr → List Part
  | [] => []
  | first :: rest => first.parts site ++ exprsParts site rest

def paramsParts (site : Site) : List ResolvedParam → List Part
  | [] => []
  | .mk name loc value :: rest =>
    ⟨site, .param (.mk name loc value)⟩ :: (optionParts site value ++ paramsParts site rest)

def blockParts (site : Site) : Option ResolvedBlock → List Part
  | none => []
  | some tree@(.mk _ scope params body) =>
    ⟨site, .block tree⟩ ::
      (paramsParts ((input.blockSite site scope).defaultsIn scope) params ++
        stmtsParts (input.blockSite site scope) body)

def Stmt.parts (site : Site) : ResolvedStmt → List Part
  | tree@(.define _ scope _ params body) =>
    ⟨site, .stmt tree⟩ ::
      (paramsParts ((site.inside .method).defaultsIn scope) params ++
        stmtsParts (site.inside .method) body)
  | tree@(.expression _ value) => ⟨site, .stmt tree⟩ :: value.parts site
  | tree@(.conditional _ condition thenBody elseBody _ modifier _) =>
    ⟨site, .stmt tree⟩ ::
      ((if modifier then stmtsParts site thenBody ++ condition.parts site
        else condition.parts site ++ stmtsParts site thenBody) ++ stmtsParts site elseBody)
  | tree@(.whileLoop _ condition body) =>
    ⟨site, .stmt tree⟩ :: (condition.parts site ++ stmtsParts (site.inside .whileLoop) body)
  | tree@(.jump _ _ value) => ⟨site, .stmt tree⟩ :: optionParts site value
  | .bare _ => []

def stmtsParts (site : Site) : List ResolvedStmt → List Part
  | [] => []
  | first :: rest => first.parts site ++ stmtsParts site rest

end

/-- Where a child stands, from where its node stands. -/
def Step.site (site : Site) : Step ScopeId → Site
  | .part | .target => site
  | .loop => site.inside .whileLoop
  | .defaults kind scope => (input.scopeSite site kind scope).defaultsIn scope
  | .body kind scope => input.scopeSite site kind scope

namespace Node

/-- The parts of a node, each with the place where it stands. -/
def partsAt (site : Site) : Node Occurrence ScopeId → List Part
  | .expr tree => tree.parts input site
  | .param tree => paramsParts input site [tree]
  | .block tree => blockParts input site (some tree)
  | .stmt tree => tree.parts input site

@[simp] theorem partsAt_expr (site : Site) (tree : ResolvedExpr) :
    partsAt input site (.expr tree) = tree.parts input site := rfl

@[simp] theorem partsAt_param (site : Site) (tree : ResolvedParam) :
    partsAt input site (.param tree) = paramsParts input site [tree] := rfl

@[simp] theorem partsAt_block (site : Site) (tree : ResolvedBlock) :
    partsAt input site (.block tree) = blockParts input site (some tree) := rfl

@[simp] theorem partsAt_stmt (site : Site) (tree : ResolvedStmt) :
    partsAt input site (.stmt tree) = tree.parts input site := rfl

theorem exprsParts_eq (site : Site) (trees : List ResolvedExpr) :
    exprsParts input site trees = trees.flatMap (Expr.parts input site) :=
  eq_flatMap rfl (fun _ _ => rfl) trees

theorem stmtsParts_eq (site : Site) (trees : List ResolvedStmt) :
    stmtsParts input site trees = trees.flatMap (Stmt.parts input site) :=
  eq_flatMap rfl (fun _ _ => rfl) trees

theorem paramsParts_eq (site : Site) (trees : List ResolvedParam) :
    paramsParts input site trees = trees.flatMap fun tree => paramsParts input site [tree] := by
  induction trees with
  | nil => rfl
  | cons first rest ih =>
    rw [flatMap_cons, ← ih]
    cases first
    simp [paramsParts]

end Node

end Parts

variable {wording : Wording Occurrence}

namespace Node

attribute [local simp] here children exprs stmts opened Expr.parts Stmt.parts exprsParts_eq
  stmtsParts_eq optionParts Step.site ConversionInput.scopeSite flatMap_map

theorem gathers_parts (input : ConversionInput) : Gathers (Step.site input)
    (fun site node => [⟨site, node⟩]) (fun _ node => node.WellFormed wording) (partsAt input) := by
  refine fun site node valid => ⟨valid.children, ?_⟩
  rcases node with tree | ⟨_, _, value⟩ | ⟨_, _, params, _⟩ | tree
  · obtain ⟨position, valid⟩ := valid
    cases tree with
    | call _ receiver _ _ block _ =>
      cases receiver <;> rcases block with _ | ⟨_, _, _, _⟩ <;> simp [blockParts]
    | lambda _ _ params _ => simp [paramsParts_eq _ _ params]
    | block | param | stmt => exact False.elim valid
    | _ => simp
  · cases value <;> simp [paramsParts]
  · simp [blockParts, paramsParts_eq _ _ params]
  · obtain ⟨chain, valid⟩ := valid
    cases tree with
    | define _ _ _ params _ => simp [paramsParts_eq _ _ params]
    | conditional _ _ _ _ _ modifier _ => cases modifier <;> simp
    | jump _ _ value => cases value <;> simp
    | bare => exact False.elim valid
    | _ => simp

end Node

theorem Node.partsAt_map_node (input : ConversionInput) (site : Site)
    {node : ResolvedNode} (valid : node.WellFormed wording) :
    (node.partsAt input site).map Part.node = node.walk :=
  (gathers_parts input).map gathers_walk Part.node (fun _ => ()) (fun _ _ => rfl) (fun _ _ => rfl)
    valid trivial

theorem stmtsParts_map_node {input : ConversionInput} (site : Site)
    (trees : List ResolvedStmt) (chain : Bool) (valid : stmtsWellFormed wording chain trees) :
    (stmtsParts input site trees).map Part.node = walkStmts trees := by
  rw [Node.stmtsParts_eq, Node.walkStmts_eq, map_flatMap]
  exact flatMap_congr fun tree member =>
    Node.partsAt_map_node input site (Node.wellFormed_stmts valid tree member)

def Part.hoisted? (input : ConversionInput) : Part → Option HoistedBlock
  | ⟨site, .block tree⟩ => (input.plan.helper? tree.scope).map (⟨site, ·, tree⟩)
  | _ => none

/-- The blocks that are hoisted among some parts of a tree. -/
def hoistedBlocks (input : ConversionInput) (parts : List Part) : List HoistedBlock :=
  parts.filterMap (Part.hoisted? input)

theorem mem_hoistedBlocks {input : ConversionInput} {parts : List Part} {hoisted : HoistedBlock} :
    hoisted ∈ hoistedBlocks input parts ↔
      ⟨hoisted.site, .block hoisted.block⟩ ∈ parts ∧
        input.plan.helper? hoisted.scope = some hoisted.helper := by
  constructor
  · intro member
    obtain ⟨⟨site, node⟩, there, found⟩ := mem_filterMap.1 member
    cases node with
    | block tree =>
      obtain ⟨helper, planned, rfl⟩ := Option.map_eq_some_iff.1 found
      exact ⟨there, planned⟩
    | expr | param | stmt => cases found
  · rintro ⟨there, planned⟩
    exact mem_filterMap.2 ⟨_, there, Option.map_eq_some_iff.2 ⟨_, planned, rfl⟩⟩

end Hoist
