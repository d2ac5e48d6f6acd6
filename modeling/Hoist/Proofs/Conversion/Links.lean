import Hoist.Proofs.Conversion.Image
import Hoist.Proofs.Planned

/-!
What ties a converted program together: its definitions, its calls without a receiver and its calls
with a block.  Each part of the resolved program contributes some of them, at the place of the part
or in the method that a hoisted block becomes; nothing else contributes any, and what is contributed
is lost only with the parameter defaults of hoisted blocks.
-/

namespace Hoist

open List

variable {ν σ : Type}

/-- Whether a part of a tree is a definition, a call without a receiver or a call with a block. -/
def Node.isLink : Node ν σ → Bool
  | .expr (.call _ none ..) | .expr (.call _ _ _ _ (some _) _) | .stmt (.define ..) => true
  | _ => false

def links (nodes : List (Node ν σ)) : List (Node ν σ) := nodes.filter Node.isLink

@[simp] theorem links_nil : links ([] : List (Node ν σ)) = [] := rfl

@[simp] theorem links_append (left right : List (Node ν σ)) :
    links (left ++ right) = links left ++ links right := filter_append left right

theorem links_cons (first : Node ν σ) (rest : List (Node ν σ)) :
    links (first :: rest) = (if first.isLink then [first] else []) ++ links rest := by
  rw [links, filter_cons]
  split <;> rfl

theorem filter_links {test : Node ν σ → Bool}
    (linked : ∀ node, test node = true → node.isLink = true) (nodes : List (Node ν σ)) :
    (links nodes).filter test = nodes.filter test := by
  rw [links, filter_filter]
  refine filter_congr fun node _ => ?_
  cases tested : test node with
  | false => rfl
  | true => rw [linked node tested]; rfl

theorem links_walkExprs {trees : List (Expr ν σ)} (none : ∀ tree ∈ trees, links tree.walk = []) :
    links (walkExprs trees) = [] := by
  induction trees with
  | nil => rfl
  | cons first rest ih =>
    rw [forall_mem_cons] at none
    rw [walkExprs, links_append, none.1, ih none.2, append_nil]

theorem links_walkStmts {trees : List (Stmt ν σ)} (none : ∀ tree ∈ trees, links tree.walk = []) :
    links (walkStmts trees) = [] := by
  induction trees with
  | nil => rfl
  | cons first rest ih =>
    rw [forall_mem_cons] at none
    rw [walkStmts, links_append, none.1, ih none.2, append_nil]

theorem links_walkParams_names {names : List (Param ν σ)}
    (plain : ∀ param ∈ names, param.default = none) : links (walkParams names) = [] := by
  induction names with
  | nil => rfl
  | cons first rest ih =>
    rw [forall_mem_cons] at plain
    obtain ⟨name, loc, default⟩ := first
    obtain rfl : default = none := plain.1
    rw [walkParams_cons]
    exact ih plain.2

namespace Conversion

variable (input : ConversionInput)

theorem links_name (site : Site) (loc : Loc) (occurrence : Occurrence) :
    links (name input site loc occurrence).walk = [] := by
  unfold name
  split
  · split <;> rfl
  · rfl

theorem links_cellPrelude (scope : ScopeId) : links (walkStmts (cellPrelude input scope)) = [] := by
  refine links_walkStmts fun tree member => ?_
  obtain ⟨binding, -, made⟩ := mem_filterMap.1 member
  split at made
  · cases made
    cases binding.kind <;> rfl
  · cases made

end Conversion

theorem HoistedClosure.links_argument (loc : Loc) (isCell : ScopeId → String → Bool)
    (capture : Capture) : links (argument loc isCell capture).walk = [] := by
  unfold argument
  split <;> rfl

namespace Image

/-- The parameters of a hoisted block whose defaults are not kept. -/
def dropped (arity : Nat) (params : List PlainParam) : List PlainParam :=
  if arity = 0 then params
  else match params with
    | [_] => []
    | _ => params

variable (argument : String) (params : List PlainParam) (arity : Nat) (loc : Loc)

theorem links_lambdaParams_front :
    links (walkStmts (lambdaParams argument params arity loc).2) = [] := by
  unfold lambdaParams
  split
  · exact links_walkStmts (forall_mem_map.2 fun _ _ => rfl)
  · split
    · rfl
    · rfl
    · have targets : links (walkExprs (params.map fun param =>
          (.name param.loc param.name : PlainExpr))) = [] :=
        links_walkExprs (forall_mem_map.2 fun _ _ => rfl)
      simp only [walkStmts, Stmt.walk, Expr.walk, links_append, links_cons, targets]
      rfl

theorem links_lambdaParams_inner : links (walkParams (lambdaParams argument params arity loc).1) ++
      links (walkParams (dropped arity params)) = links (walkParams params) := by
  unfold lambdaParams dropped
  split
  · rfl
  · split
    · exact append_nil _
    · rfl
    · next several _ =>
      split
      · exact (several _ rfl).elim
      · rfl

end Image

variable (input : ConversionInput) (naming : Naming)

/-- What a part of a resolved tree contributes. -/
def Part.links (part : Part) : List (Node String Unit) :=
  match part.node with
  | .expr (.call loc receiver method args (some tree) parens) =>
    .expr (Image.expr input naming part.site (.call loc receiver method args (some tree) parens)) ::
      if (input.plan.helper? tree.scope).isSome then
        [.expr (Image.closureCall input naming part.site tree.loc tree.scope)]
      else []
  | .expr (.call loc none method args none parens) =>
    [.expr (Image.expr input naming part.site (.call loc none method args none parens))]
  | .stmt (.define loc scope name params body) =>
    [.stmt (Image.stmt input naming part.site (.define loc scope name params body))]
  | .block tree =>
    match input.plan.helper? tree.scope with
    | none => []
    | some helper =>
      [.stmt ((⟨part.site, helper, tree⟩ : HoistedBlock).closure input naming).definition]
  | _ => []

/-- A hoisted block belongs to a call without arguments that has a receiver if the helper has. -/
def Part.Fits (part : Part) : Prop :=
  ∀ call helper, part.node.blockCall? = some call →
    input.plan.helper? call.block.scope = some helper →
      call.args = [] ∧ helper.hasReceiver = call.receiver.isSome

namespace HoistedBlock

/-- The links in the method that a block becomes. -/
def moved (hoisted : HoistedBlock) : List (Node String Unit) :=
  Hoist.links (hoisted.closure input naming).definition.walk

/-- The links in the defaults that are not kept. -/
def lost (hoisted : HoistedBlock) : List (Node String Unit) :=
  Hoist.links (walkParams (Image.dropped hoisted.helper.arity (hoisted.image input naming).params))

end HoistedBlock

/-- The links of converted code, of the methods that its blocks become and of the defaults that are
not kept are what the parts of the resolved code contribute. -/
def Balanced (nodes : List (Node String Unit)) (parts : List Part) : Prop :=
  (∀ part ∈ parts, part.Fits input) →
    (links nodes ++ (hoistedBlocks input parts).flatMap fun hoisted =>
      hoisted.moved input naming ++ hoisted.lost input naming).Perm
        (parts.flatMap (Part.links input naming))

section Balanced

variable {input naming} {nodes others : List PlainNode} {parts rest : List Part}
  {part : Part}

theorem balanced_nil : Balanced input naming [] [] := fun _ => .nil

theorem Balanced.append (balanced : Balanced input naming nodes parts)
    (balancedRest : Balanced input naming others rest) :
    Balanced input naming (nodes ++ others) (parts ++ rest) := by
  intro fits
  rw [forall_mem_append] at fits
  have perm := (balanced fits.1).append (balancedRest fits.2)
  rw [links_append, hoistedBlocks, filterMap_append, flatMap_append, flatMap_append]
  refine List.Perm.trans ?_ perm
  simp only [append_assoc]
  exact (perm_append_comm_assoc _ _ _).append_left _

/-- Code without links may stand in front. -/
theorem Balanced.skip (nodes : List PlainNode) (none : links nodes = [])
    (balanced : Balanced input naming others parts) :
    Balanced input naming (nodes ++ others) parts := by
  unfold Balanced
  rw [links_append, none]
  exact balanced

theorem balanced_part (staying : part.hoisted? input = none)
    (contributes : part.Fits input → links nodes = part.links input naming) :
    Balanced input naming nodes [part] := by
  intro fits
  rw [hoistedBlocks, filterMap_cons_none staying, contributes (fits part mem_cons_self)]
  exact .of_eq (by simp)

theorem Balanced.node {node : PlainNode} (staying : part.hoisted? input = none)
    (contributes : links [node] = part.links input naming)
    (balanced : Balanced input naming nodes parts) :
    Balanced input naming (node :: nodes) (part :: parts) :=
  (balanced_part staying fun _ => contributes).append balanced

theorem Balanced.cons {node : PlainNode} (noLink : node.isLink = false)
    (nothing : part.links input naming = []) (staying : part.hoisted? input = none)
    (balanced : Balanced input naming nodes parts) :
    Balanced input naming (node :: nodes) (part :: parts) :=
  .node staying (by rw [links_cons, noLink, nothing]; rfl) balanced

end Balanced

section Image

variable {input naming}

theorem HoistedBlock.moved_append_lost (hoisted : HoistedBlock) :
    (hoisted.moved input naming ++ hoisted.lost input naming).Perm
      (.stmt (hoisted.closure input naming).definition ::
        (links (walkParams (hoisted.image input naming).params) ++
          links (walkStmts (hoisted.image input naming).body))) := by
  have captures : links (walkParams ((input.analysis.capturesOf hoisted.scope).map fun capture =>
      (.mk capture.name (hoisted.image input naming).loc none : PlainParam))) = [] :=
    links_walkParams_names (forall_mem_map.2 fun _ _ => rfl)
  have front := Image.links_lambdaParams_front (naming.argument hoisted.scope)
    (hoisted.image input naming).params hoisted.helper.arity (hoisted.image input naming).loc
  rw [moved, lost, ← Image.links_lambdaParams_inner (naming.argument hoisted.scope)
    (hoisted.image input naming).params hoisted.helper.arity (hoisted.image input naming).loc]
  simp only [closure, Image.closure, Stmt.walk, Expr.walk, walkStmts, links_cons, links_append,
    captures, walkStmts_append, front, Node.isLink, if_true, Bool.false_eq_true, if_false,
    nil_append, append_nil, cons_append, append_assoc]
  exact (perm_append_comm.append_left _).cons _

/-- A hoisted block leaves nothing at its place. -/
theorem balanced_hoisted (hoisted : HoistedBlock) {parts : List Part}
    (planned : input.plan.helper? hoisted.scope = some hoisted.helper)
    (balanced : Balanced input naming (walkParams (hoisted.image input naming).params ++
      walkStmts (hoisted.image input naming).body) parts) :
    Balanced input naming [] (⟨hoisted.site, .block hoisted.block⟩ :: parts) := by
  intro fits
  rw [forall_mem_cons] at fits
  have isHoisted : Part.hoisted? input ⟨hoisted.site, .block hoisted.block⟩ = some hoisted := by
    simp only [Part.hoisted?]
    rw [show input.plan.helper? hoisted.block.scope = some hoisted.helper from planned,
      Option.map_some]
  have contributes : Part.links input naming ⟨hoisted.site, .block hoisted.block⟩ =
      [.stmt (hoisted.closure input naming).definition] := by
    simp only [Part.links]
    rw [show input.plan.helper? hoisted.block.scope = some hoisted.helper from planned]
  have perm := balanced fits.2
  rw [links_append] at perm
  rw [hoistedBlocks, filterMap_cons_some isHoisted, flatMap_cons, flatMap_cons,
    contributes]
  refine ((hoisted.moved_append_lost).append_right _).trans ?_
  exact perm.cons _

theorem links_hoistedCall (site : Site) (loc : Loc) (receiver : Option PlainExpr) (helper : Helper)
    (blockLoc : Loc) (scope : ScopeId) (hasReceiver : helper.hasReceiver = receiver.isSome) :
    links (Image.hoistedCall input naming site loc receiver helper blockLoc scope).walk =
      .expr (Image.hoistedCall input naming site loc receiver helper blockLoc scope) ::
        (links (receiver.elim [] Expr.walk) ++
          [.expr (Image.closureCall input naming site blockLoc scope)]) := by
  have captures : links (walkExprs ((input.analysis.capturesOf scope).map
      (HoistedClosure.argument blockLoc (Conversion.isCellAt input site)))) = [] :=
    links_walkExprs (forall_mem_map.2 fun _ _ => HoistedClosure.links_argument _ _ _)
  have closure : links (Image.closureCall input naming site blockLoc scope).walk =
      [.expr (Image.closureCall input naming site blockLoc scope)] := by
    rw [Image.closureCall, Expr.walk_call, links_cons, links_append, links_append, captures]
    rfl
  have args : walkExprs ((if helper.hasReceiver then receiver.toList else []) ++
      [Image.closureCall input naming site blockLoc scope]) =
      receiver.elim [] Expr.walk ++ (Image.closureCall input naming site blockLoc scope).walk := by
    rw [hasReceiver, walkExprs_append]
    cases receiver <;> simp [walkExprs]
  conv_lhs => rw [Image.hoistedCall, Expr.walk_call, links_cons, links_append, links_append, args,
    links_append, closure]
  simp [Node.isLink, Image.hoistedCall]

section Parts

variable {site : Site} {loc : Loc} {parens : Bool} {method : String}
  {receiver : Option ResolvedExpr} {args : List ResolvedExpr} {block : Option ResolvedBlock}

theorem balanced_call (balancedReceiver : Balanced input naming
      ((Image.option input naming site receiver).elim [] Expr.walk)
      (optionParts input site receiver))
    (balancedArgs : Balanced input naming (walkExprs (Image.exprs input naming site args))
      (exprsParts input site args)) (balancedBlock : ∀ tree ∈ block,
      Balanced input naming (walkParams (Image.block input naming site tree).params ++
        walkStmts (Image.block input naming site tree).body) (blockParts input site block).tail) :
    Balanced input naming
      (Image.expr input naming site (.call loc receiver method args block parens)).walk
      (Expr.parts input site (.call loc receiver method args block parens)) := by
  have front := balancedReceiver.append balancedArgs
  cases block with
  | none =>
    rw [Image.expr, Expr.walk_call, Expr.parts]
    refine .node rfl ?_ (front.append balanced_nil)
    cases receiver <;> rfl
  | some tree =>
    have parts : blockParts input site (some tree) =
        ⟨site, .block tree⟩ :: (blockParts input site (some tree)).tail := by
      cases tree
      rfl
    have inner := balancedBlock tree rfl
    rw [Expr.parts, parts]
    cases planned : input.plan.helper? tree.scope with
    | none =>
      have staying : Part.hoisted? input ⟨site, .block tree⟩ = none := by
        rw [Part.hoisted?, planned, Option.map_none]
      have nothing : Part.links input naming ⟨site, .block tree⟩ = [] := by
        simp only [Part.links, planned]
      rw [Image.expr, planned, Expr.walk_call]
      refine .node rfl ?_ (front.append (.cons rfl nothing staying inner))
      simp only [Part.links, Image.expr, planned]
      cases receiver <;> rfl
    | some helper =>
      intro fits
      obtain ⟨rfl, hasReceiver⟩ := fits _ mem_cons_self _ helper rfl planned
      have balanced := balancedReceiver.append (balanced_hoisted ⟨site, helper, tree⟩
        planned inner) fun part member =>
          fits part (mem_cons_of_mem _ (by simpa [exprsParts] using member))
      have made : Image.expr input naming site (.call loc receiver method [] (some tree) parens) =
          Image.hoistedCall input naming site loc (Image.option input naming site receiver) helper
            tree.loc tree.scope := by
        rw [Image.expr, planned]
      have contributes : Part.links input naming
          ⟨site, .expr (.call loc receiver method [] (some tree) parens)⟩ =
          [.expr (Image.hoistedCall input naming site loc (Image.option input naming site receiver)
            helper tree.loc tree.scope),
          .expr (Image.closureCall input naming site tree.loc tree.scope)] := by
        simp [Part.links, made, planned]
      have sameReceiver : helper.hasReceiver =
          (Image.option input naming site receiver).isSome := by
        rw [hasReceiver]
        cases receiver <;> rfl
      have staying : Part.hoisted? input
          ⟨site, .expr (.call loc receiver method [] (some tree) parens)⟩ = none := rfl
      rw [made, links_hoistedCall site loc _ helper _ _ sameReceiver, flatMap_cons, contributes,
        hoistedBlocks, filterMap_cons_none staying, exprsParts, append_nil]
      rw [append_nil] at balanced
      simp only [cons_append, append_assoc, nil_append]
      refine .cons _ (perm_middle.trans (.cons _ ?_))
      exact balanced

theorem balanced_jump {kind : JumpKind} {value : Option ResolvedExpr}
    (balanced : Balanced input naming ((Image.option input naming site value).elim [] Expr.walk)
      (optionParts input site value)) :
    Balanced input naming (Image.stmt input naming site (.jump loc kind value)).walk
      (Stmt.parts input site (.jump loc kind value)) := by
  simp only [Image.stmt, Image.jump, Stmt.parts]
  split
  · rw [Stmt.walk_jump]
    exact .cons rfl rfl rfl balanced
  · split
    · rw [Stmt.walk_jump]
      exact .cons rfl rfl rfl balanced
    · rw [Stmt.walk_jump]
      exact .cons rfl rfl rfl balanced
    · cases value with
      | none => exact .cons rfl rfl rfl (.skip [_, _, _] rfl balanced)
      | some value =>
        refine .cons rfl rfl rfl ?_
        simp only [Image.option, Option.getD_some, Option.elim_some, Expr.walk, walkExprs,
          append_nil] at balanced ⊢
        exact .skip [_, _] rfl balanced

end Parts

mutual

theorem Expr.image_balanced (site : Site) : (tree : ResolvedExpr) →
    Balanced input naming (Image.expr input naming site tree).walk (tree.parts input site)
  | .literal .. | .symbol .. | .global .. | .constant .. => .cons rfl rfl rfl balanced_nil
  | .name loc occurrence =>
    balanced_part rfl fun _ => Conversion.links_name input site loc occurrence
  | .array _ elements => .cons rfl rfl rfl (exprs_image_balanced site elements)
  | .splat _ value => .cons rfl rfl rfl (value.image_balanced site)
  | .range _ start stop _ =>
    .cons rfl rfl rfl (.append (start.image_balanced site) (stop.image_balanced site))
  | .binary _ _ left right =>
    .cons rfl rfl rfl (.append (left.image_balanced site) (right.image_balanced site))
  | .unary _ _ operand => .cons rfl rfl rfl (operand.image_balanced site)
  | .ternary _ condition thenValue elseValue =>
    .cons rfl rfl rfl (.append (.append (condition.image_balanced site)
      (thenValue.image_balanced site)) (elseValue.image_balanced site))
  | .lambda _ scope params body => by
    simp only [Image.expr, Expr.walk, Expr.parts, walkStmts_append]
    refine .cons rfl rfl rfl (.append (params_image_balanced _ params) ?_)
    exact .skip _ (Conversion.links_cellPrelude input scope) (stmts_image_balanced _ body)
  | .call _ receiver _ args block _ =>
    balanced_call (option_image_balanced site receiver) (exprs_image_balanced site args)
      (block_image_balanced site block)
  | .index _ value args =>
    .cons rfl rfl rfl (.append (value.image_balanced site) (exprs_image_balanced site args))
  | .assign _ target value =>
    .cons rfl rfl rfl (.append (target.image_balanced site) (value.image_balanced site))
  | .opAssign _ target _ value =>
    .cons rfl rfl rfl (.append (target.image_balanced site) (value.image_balanced site))
  | .multiAssign _ targets values =>
    .cons rfl rfl rfl (.append (exprs_image_balanced site targets)
      (exprs_image_balanced site values))
  | .block _ | .param _ | .stmt _ => .skip (default : PlainExpr).walk rfl balanced_nil

theorem option_image_balanced (site : Site) : (tree : Option ResolvedExpr) →
    Balanced input naming ((Image.option input naming site tree).elim [] Expr.walk)
      (optionParts input site tree)
  | none => balanced_nil
  | some tree => tree.image_balanced site

theorem exprs_image_balanced (site : Site) : (trees : List ResolvedExpr) →
    Balanced input naming (walkExprs (Image.exprs input naming site trees))
      (exprsParts input site trees)
  | [] => balanced_nil
  | first :: rest => .append (first.image_balanced site) (exprs_image_balanced site rest)

theorem params_image_balanced (site : Site) : (trees : List ResolvedParam) →
    Balanced input naming (walkParams (Image.params input naming site trees))
      (paramsParts input site trees)
  | [] => balanced_nil
  | .mk name loc value :: rest => by
    rw [Image.params, walkParams_cons, paramsParts]
    exact .cons rfl rfl rfl (.append (option_image_balanced site value)
      (params_image_balanced site rest))

theorem block_image_balanced (site : Site) : (tree : Option ResolvedBlock) → ∀ block ∈ tree,
    Balanced input naming (walkParams (Image.block input naming site block).params ++
      walkStmts (Image.block input naming site block).body) (blockParts input site tree).tail
  | none => nofun
  | some (.mk loc scope params body) => by
    rintro block ⟨⟩
    simp only [Image.block, Block.params, Block.body, walkStmts_append]
    refine .append (params_image_balanced _ params) ?_
    exact .skip _ (Conversion.links_cellPrelude input scope) (stmts_image_balanced _ body)

theorem Stmt.image_balanced (site : Site) : (tree : ResolvedStmt) →
    Balanced input naming (Image.stmt input naming site tree).walk (tree.parts input site)
  | .define loc scope name params body => by
    simp only [Image.stmt, Stmt.walk, Stmt.parts, walkStmts_append]
    refine .node rfl rfl (.append (params_image_balanced _ params) ?_)
    exact .skip _ (Conversion.links_cellPrelude input scope) (stmts_image_balanced _ body)
  | .expression _ value => .cons rfl rfl rfl (value.image_balanced site)
  | .conditional _ condition thenBody elseBody _ true _ =>
    .cons rfl rfl rfl (.append (.append (stmts_image_balanced site thenBody)
      (condition.image_balanced site)) (stmts_image_balanced site elseBody))
  | .conditional _ condition thenBody elseBody _ false _ =>
    .cons rfl rfl rfl (.append (.append (condition.image_balanced site)
      (stmts_image_balanced site thenBody)) (stmts_image_balanced site elseBody))
  | .whileLoop _ condition body =>
    .cons rfl rfl rfl (.append (condition.image_balanced site) (stmts_image_balanced _ body))
  | .jump _ _ value => balanced_jump (option_image_balanced site value)
  | .bare _ => .skip (default : PlainStmt).walk rfl balanced_nil

theorem stmts_image_balanced (site : Site) : (trees : List ResolvedStmt) →
    Balanced input naming (walkStmts (Image.stmts input naming site trees))
      (stmtsParts input site trees)
  | [] => balanced_nil
  | first :: rest => .append (first.image_balanced site) (stmts_image_balanced site rest)

end

end Image

namespace Node

variable {input naming}

/-- What stands in a scope stands in what the scope becomes. -/
theorem opened_image {site : Site} {kind : ScopeKind} {scope : ScopeId}
    {params : List ResolvedParam} {body : List ResolvedStmt}
    {child : Step ScopeId × ResolvedNode} (member : child ∈ opened kind scope params body)
    (front : List PlainStmt) :
    (child.1.map fun _ => (), child.2.image input naming (child.1.site input site)) ∈
      opened kind () (Image.params input naming ((input.scopeSite site kind scope).defaultsIn scope)
        params) (front ++ Image.stmts input naming (input.scopeSite site kind scope) body) := by
  rw [opened, stmts, mem_append, mem_map, mem_map] at member ⊢
  rw [Image.params_eq_map, Image.stmts_eq_map]
  obtain ⟨param, isParam, rfl⟩ | ⟨tree, isTree, rfl⟩ := member
  · exact .inl ⟨_, mem_map_of_mem isParam, rfl⟩
  · exact .inr ⟨_, mem_append_right _ (mem_map_of_mem isTree), rfl⟩

theorem image_child {site : Site} {node child : ResolvedNode} {step : Step ScopeId}
    {wording : Wording Occurrence} (valid : node.WellFormed wording)
    (fits : Part.Fits input ⟨site, node⟩) (member : (step, child) ∈ node.children)
    (staying : Part.hoisted? input ⟨site, node⟩ = none)
    (childStays : Part.hoisted? input ⟨step.site input site, child⟩ = none) :
    ∃ more, (∀ step ∈ more, step = .part) ∧
      (node.image input naming site).Reaches ((step.map fun _ => ()) :: more)
        (child.image input naming (step.site input site)) := by
  have direct (there : (step.map (fun _ => ()), child.image input naming (step.site input site)) ∈
      (node.image input naming site).children) : ∃ more, (∀ step ∈ more, step = .part) ∧
        (node.image input naming site).Reaches ((step.map fun _ => ()) :: more)
          (child.image input naming (step.site input site)) :=
    ⟨[], nofun, .step there (.here _)⟩
  rcases node with tree | ⟨_, _, _ | _⟩ | ⟨_, _, _, _⟩ | tree
  · obtain ⟨position, valid⟩ := valid
    cases tree with
    | call loc receiver method args block parens =>
      rcases block with _ | tree
      · apply direct
        simp only [children, exprs, image, Image.expr, Image.exprs_eq_map] at member ⊢
        grind [image, Image.option, Step.map, Step.site]
      · cases planned : input.plan.helper? tree.scope with
        | none =>
          apply direct
          simp only [children, exprs, image, Image.expr, Image.exprs_eq_map, planned] at member ⊢
          grind [image, Image.option, Step.map, Step.site]
        | some helper =>
          obtain ⟨rfl, hasReceiver⟩ := fits _ _ rfl planned
          apply direct
          simp only [children, exprs, image, Image.expr, planned, Image.hoistedCall] at member ⊢
          grind [image, Image.option, Step.map, Step.site, Part.hoisted?]
    | lambda _ scope params body => exact direct (opened_image member _)
    | block | param | stmt => exact False.elim valid
    | _ =>
      apply direct
      simp only [children, exprs, image, Image.expr, Image.exprs_eq_map] at member ⊢
      grind [image, Step.map, Step.site]
  · cases member
  · cases mem_singleton.1 member
    exact direct (mem_singleton_self _)
  · exact direct (opened_image member _)
  · obtain ⟨chain, valid⟩ := valid
    cases tree with
    | define => exact direct (opened_image member _)
    | jump loc kind value =>
      obtain _ | value := value
      · cases member
      cases mem_singleton.1 member
      simp only [image, Image.stmt, Image.jump, Image.option]
      split
      · exact ⟨[], nofun, .step (mem_singleton_self _) (.here _)⟩
      · cases kind with
        | returnJump | nextJump => exact ⟨[], nofun, .step (mem_singleton_self _) (.here _)⟩
        -- the value stands behind the marker
        | breakJump =>
          exact ⟨[.part], fun _ => mem_singleton.1, .step (mem_singleton_self _)
            (.step (mem_cons_of_mem _ (mem_singleton_self _)) (.here _))⟩
    | bare => exact False.elim valid
    | conditional _ _ _ _ _ modifier _ =>
      apply direct
      cases modifier <;> simp only [children, exprs, stmts, image, Image.stmt,
        Image.stmts_eq_map] at member ⊢
      all_goals grind [image, Step.map, Step.site]
    | _ =>
      apply direct
      simp only [children, exprs, stmts, image, Image.stmt, Image.stmts_eq_map] at member ⊢
      grind [image, Step.map, Step.site]

end Node

end Hoist
