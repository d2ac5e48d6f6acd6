import Hoist.Proofs.Conversion.Rereads
import Hoist.Proofs.Scope.Placeless

/-!
Hygiene of converted code: whatever a part of the program is converted to is resolved to a copy of
it, in which all names mean what they meant.
-/

namespace Hoist

open Resolve (Resolving)

variable {α β : Type}

variable {helper : Helper}

namespace Resolve

theorem expr_getD (path : List ScopeId) (tree : Option PlainExpr) (loc : Loc) :
    expr path (tree.getD (.literal loc .nil)) =
      (do return (← option path tree).getD (.literal loc .nil)) := by
  cases tree <;> simp [option, expr]

theorem exprs_toList (path : List ScopeId) (front : Option PlainExpr) (tree : PlainExpr) :
    exprs path (front.toList ++ [tree]) = (do
      let front ← option path front
      let tree ← expr path tree
      return front.toList ++ [tree]) := by
  cases front <;> simp [option, exprs]

end Resolve

section Calls

variable {input : ConversionInput} (naming : Naming) (site : Site) (loc : Loc)
  (receiver : Option ResolvedExpr) (method : String) (args : List ResolvedExpr) (parens : Bool)
  {tree : ResolvedBlock}

theorem Image.expr_call_left (planned : input.plan.helper? tree.scope = none) :
    Image.expr input naming site (.call loc receiver method args (some tree) parens) =
      .call loc (Image.option input naming site receiver) method
        (Image.exprs input naming site args)
        (some (Image.block input naming site tree)) parens := by
  rw [Image.expr, planned]

theorem Image.expr_call_hoisted (planned : input.plan.helper? tree.scope = some helper) :
    Image.expr input naming site (.call loc receiver method args (some tree) parens) =
      Image.hoistedCall input naming site loc (Image.option input naming site receiver) helper
        tree.loc tree.scope := by
  rw [Image.expr, planned]

end Calls

section Calls

variable {input : ConversionInput} {carrying : Carrying} {loc blockLoc : Loc}
  {receiver first : Option ResolvedExpr} {method : String} {args second : List ResolvedExpr}
  {scope : ScopeId} {params : List ResolvedParam} {body : List ResolvedStmt} {parens : Bool}

theorem Expr.copied_call_left (planned : input.plan.helper? scope = none)
    (copiedReceiver : optionCopied input receiver carrying first)
    (copiedArgs : exprsCopied input args carrying second) {block : Option ResolvedBlock}
    (copiedBlock : ∃ id inner cells statements,
      block = some (.mk blockLoc id inner (cells ++ statements)) ∧
      paramsCopied input params (carrying.enter scope id) inner ∧
      (∀ cell ∈ cells, cell.Allocates id) ∧
      stmtsCopied input body (carrying.enter scope id) statements) :
    Expr.Copied input (.call loc receiver method args
      (some (.mk blockLoc scope params body)) parens)
      carrying (.call loc first method second block parens) := by
  obtain ⟨id, inner, cells, statements, rfl, copiedParams, allocates, copiedBody⟩ := copiedBlock
  have notHoisted : ¬ (input.plan.helper? scope).isSome = true := by
    rw [planned]
    exact Bool.false_ne_true
  rw [Expr.Copied, if_neg notHoisted]
  exact ⟨first, second, id, inner, cells, statements, rfl, copiedReceiver, copiedArgs, copiedParams,
    allocates, copiedBody⟩

theorem Expr.copied_call_hoisted (planned : input.plan.helper? scope = some helper)
    (copiedReceiver : optionCopied input receiver carrying first) {closure : String}
    {passed : List ResolvedExpr}
    (passes : List.Forall₂ (carrying.Passes blockLoc) (input.analysis.capturesOf scope) passed)
    (name : String) :
    Expr.Copied input (.call loc receiver method args
      (some (.mk blockLoc scope params body)) parens)
      carrying (.call loc none name (first.toList ++
        [.call blockLoc none closure passed none true]) none true) := by
  rw [Expr.Copied, if_pos (Option.isSome_of_eq_some planned)]
  exact ⟨first, name, closure, passed, rfl, copiedReceiver, passes⟩

end Calls

namespace Region

/-- What may stand in a scope of a region. -/
def Allows (region : Region) : ScopeId × Node Occurrence ScopeId → Prop
  | (scope, .expr (.name _ occurrence)) => region.AllowsName scope occurrence
  | (_, .expr (.call _ receiver _ args (some tree) _)) =>
    ∀ helper, region.input.plan.helper? tree.scope = some helper →
      args = [] ∧ helper.hasReceiver = receiver.isSome
  | (_, .block tree) => (region.input.plan.helper? tree.scope).isSome = true →
    ∀ place, tree.ScopedAt (Callable region.defined) region.input.table place →
      ∀ capture ∈ region.input.analysis.capturesOf tree.scope,
        place.find? capture.name = some capture.scope ∧ region.own capture.name ∧
          (capture.scope ∈ region.rest.path → region.carries capture.name)
  | (_, .param tree) => region.own tree.name
  | _ => True

/-- All parts of some code may stand in a region. -/
abbrev AllowsAll (region : Region) (parts : List (ScopeId × Node Occurrence ScopeId)) : Prop :=
  ∀ part ∈ parts, region.Allows part

namespace AllowsAll

variable {region : Region} {first : ScopeId × ResolvedNode}
  {rest before after : List (ScopeId × ResolvedNode)}

theorem head (allowed : region.AllowsAll (first :: rest)) : region.Allows first :=
  allowed first List.mem_cons_self

theorem tail (allowed : region.AllowsAll (first :: rest)) : region.AllowsAll rest :=
  fun part member => allowed part (List.mem_cons_of_mem _ member)

theorem left (allowed : region.AllowsAll (before ++ after)) : region.AllowsAll before :=
  fun part member => allowed part (List.mem_append_left _ member)

theorem right (allowed : region.AllowsAll (before ++ after)) : region.AllowsAll after :=
  fun part member => allowed part (List.mem_append_right _ member)

end AllowsAll

section Sites

variable {region : Region} {spot : Spot} {before after : Layer}

/-- A spot inside a scope, whose copy is `id`. -/
def Spot.enter (spot : Spot) (site : Site) (inner id : ScopeId) (before copy : Layer)
    (ready : Bool) : Spot :=
  ⟨site, inner, id :: spot.path, spot.carrying.enter inner id, spot.pairs before copy, ready⟩

theorem SiteFits.past (fits : region.SiteFits spot before) (extended : before.Extends after) :
    region.SiteFits spot after :=
  { fits with here := extended.scope.trans fits.here }

/-- The place of parameter defaults. -/
theorem SiteFits.defaultsIn (fits : region.SiteFits spot before) (construct : Construct)
    (inner id : ScopeId) (kind : ScopeKind) (copy : Layer) :
    region.SiteFits (spot.enter ((spot.site.inside construct).defaultsIn inner) inner id before copy
      false) ⟨inner, kind, []⟩ where
  here := rfl
  ready := ⟨fun notReady => absurd notReady Bool.false_ne_true, fun other => absurd rfl other⟩
  defaults id isDefault := by
    cases isDefault
    exact List.mem_cons_self
  frame := fits.frame

/-- The place of a body. -/
theorem SiteFits.inside (fits : region.SiteFits spot before) {first : Layer} {inner : ScopeId}
    (same : first.scope = inner) {kind : ScopeKind}
    (enters : region.input.table.Enters (before :: region.sources spot.others) inner kind)
    (construct : Construct) (id : ScopeId) (copy : Layer) :
    region.SiteFits (spot.enter (spot.site.inside construct) inner id before copy true) first where
  here := same
  ready := by
    refine ⟨fun _ isDefault => ?_, fun _ => rfl⟩
    have around := fits.defaults inner isDefault
    rw [← fits.here] at around
    exact Nat.lt_irrefl _ (enters.2 inner around)
  defaults id isDefault := by
    have around := fits.defaults id isDefault
    rw [← fits.here] at around
    exact List.mem_cons_of_mem _ around
  frame := fits.frame

theorem Stands.enter {copy : Layer} {table : ScopeTable} {inner : ScopeId} {kind : ScopeKind}
    (standing : region.Stands spot before copy table)
    (enters : region.input.table.Enters (before :: region.sources spot.others) inner kind)
    (site : Site) :
    region.Stands (spot.enter site inner table.nextId before copy false) ⟨inner, kind, []⟩
      ⟨table.nextId, kind, []⟩ (table.openScope kind spot.path) where
  aligned := by
    refine ⟨⟨rfl, fun name _ => ?_⟩, nofun, enters, standing.aligned⟩
    simp [Layer.has, Spot.enter]
  path := congrArg (table.nextId :: ·) standing.path
  carrying := congrArg (Carrying.enter · inner table.nextId) standing.carrying
  shown := by
    rw [← standing.path]
    exact standing.shown.openScope kind
  knows := standing.knows.of_methods rfl

end Sites

section Parts

variable {region : Region} {spot : Spot} {before after : Layer}

theorem follows_passed (sound : region.Sound) (loc : Loc) (isCell : ScopeId → String → Bool)
    {captures : CaptureSet} (seen : ∀ capture ∈ captures,
      Layers.find? capture.name (before :: region.sources spot.others) = some capture.scope ∧
      region.own capture.name ∧
      (capture.scope ∈ region.rest.path → region.carries capture.name)) :
    region.Follows spot before before
      (List.Forall₂ (spot.carrying.Passes loc) captures)
      (Resolve.exprs spot.path (captures.map (HoistedClosure.argument loc isCell))) := by
  induction captures with
  | nil => exact follows_pure .nil
  | cons first rest ih =>
    rw [List.forall_mem_cons] at seen
    obtain ⟨⟨found, own, carried⟩, seenRest⟩ := seen
    have reads : region.Follows spot before before
        (spot.carrying.Keeps ⟨first.name, some (.variable first.scope)⟩)
        (Resolve.reference spot.path first.name loc) := follows_variable sound loc own found carried
    have argument : region.Follows spot before before
        (spot.carrying.Passes loc first)
        (Resolve.expr spot.path (HoistedClosure.argument loc isCell first)) := by
      unfold HoistedClosure.argument
      split
      · exact follows_expr_content reads
      · exact follows_expr_name reads
    refine argument.bind fun copy passes => ?_
    exact (ih seenRest).bind fun copies passRest =>
      follows_pure (.cons passes passRest)

/-- The call that makes the closure of a hoisted block. -/
theorem follows_closureCall (sound : region.Sound) (loc : Loc) {scope : ScopeId}
    (seen : ∀ capture ∈ region.input.analysis.capturesOf scope,
      Layers.find? capture.name (before :: region.sources spot.others) = some capture.scope ∧
      region.own capture.name ∧
      (capture.scope ∈ region.rest.path → region.carries capture.name)) :
    region.Follows spot before before
      (fun copy => ∃ closure passed, copy = .call loc none closure passed none true ∧
        List.Forall₂ (spot.carrying.Passes loc) (region.input.analysis.capturesOf scope) passed)
      (Resolve.expr spot.path
        (Image.closureCall region.input region.naming spot.site loc scope)) := by
  rw [Image.closureCall, Resolve.expr_call]
  refine follows_pure_bind ((follows_passed sound loc _ seen).bind fun passed passes => ?_)
  exact follows_pure_bind (follows_pure ⟨_, passed, rfl, passes⟩)

theorem follows_declareParameter (notReady : spot.ready = false) {name : String} (loc : Loc)
    (own : region.own name) (new : ¬ before.has name) :
    region.Follows spot before (before.declare name .parameter)
      (fun _ => True) (Resolve.declareParameter spot.path name loc) := by
  intro copy table standing
  obtain ⟨agree, -, enters, aligned⟩ := standing.aligned
  have newCopy : ¬ copy.has name := by
    intro has
    rcases (agree.names name own).1 has with has | ⟨isReady, -⟩
    · exact new has
    · cases notReady.symm.trans isReady
  have innermost : Resolve.innermost spot.path = copy.scope := by
    rw [← standing.path]
    rfl
  have undeclared : ¬ (table.binding? (Resolve.innermost spot.path) name).isSome = true := by
    rw [innermost, standing.shown.1.binding? name]
    exact newCopy
  refine ⟨(), _, copy.declare name .parameter, Resolve.declareParameter_new undeclared, ?_, trivial⟩
  rw [innermost]
  refine ⟨⟨agree.declare _ _ _, ?_, enters, aligned⟩, standing.path, standing.carrying,
    standing.shown.addBinding _, standing.knows.of_methods rfl⟩
  exact fun isReady => absurd (notReady.symm.trans isReady) Bool.false_ne_true

/-- A jump, in the body of a hoisted block or elsewhere. -/
theorem follows_jump {image : Option PlainExpr} {value : Option ResolvedExpr} {loc : Loc}
    {kind : JumpKind} (follows : region.Follows spot before after
      (optionCopied region.input value spot.carrying) (Resolve.option spot.path image)) :
    region.Follows spot before after
      ((Stmt.jump loc kind value).Copied region.input spot.carrying)
      (Resolve.stmt spot.path (Image.jump region.naming spot.site loc kind image)) := by
  have plain : ∀ left, region.Follows spot before after
      ((Stmt.jump loc kind value).Copied region.input spot.carrying)
      (Resolve.stmt spot.path (.jump loc left image)) := by
    intro left
    rw [Resolve.stmt_jump]
    exact follows.bind fun inner copied => follows_pure ⟨inner, copied, .inl ⟨left, rfl⟩⟩
  unfold Image.jump
  split
  · exact plain kind
  · split
    · exact plain .returnJump
    · exact plain .returnJump
    · -- what stops the iteration returns a marker with the value
      simp only [Resolve.stmt_jump, Resolve.option, Resolve.expr, Resolve.exprs, Resolve.expr_getD,
        bind_assoc, pure_bind]
      exact follows.bind fun inner copied => follows_pure ⟨inner, copied, .inr ⟨_, rfl⟩⟩

end Parts

section Rereads

variable {region : Region} {spot : Spot} {children others : List (Step ScopeId × ResolvedNode)}
  {post : α → Prop} {goal : β → Prop} {run : Resolving α} {next : α → Resolving β}

/-- The copy of some parts of a program can be read at a spot of a sound region where the parts keep
the rules of scoping. -/
def Rereads (region : Region) (spot : Spot) (children : List (Step ScopeId × ResolvedNode))
    (post : α → Prop) (run : Resolving α) : Prop :=
  ∀ ⦃before after⦄, region.Sound → region.SiteFits spot before →
    eventsScoped (Callable region.defined) region.input.table (children.flatMap fun child =>
      child.2.events (child.1.scope spot.scope) child.1.isTarget)
      (before :: region.sources spot.others) (after :: region.sources spot.others) →
    region.AllowsAll (children.flatMap fun child => child.2.walkIn (child.1.scope spot.scope)) →
    region.Follows spot before after post run

theorem rereads_pure {value : α} (holds : post value) :
    region.Rereads spot [] post (pure value) := by
  intro before after _ _ rules _
  cases rules
  exact follows_pure holds

theorem Rereads.bind (first : region.Rereads spot children post run)
    (second : ∀ value, region.Rereads spot others (fun result => post value → goal result)
      (next value)) : region.Rereads spot (children ++ others) goal (run >>= next) := by
  intro before after sound fits rules allowed
  rw [List.flatMap_append] at rules allowed
  obtain ⟨_, rules, rulesOthers⟩ := eventsScoped_append.1 rules
  obtain ⟨middle, rfl, extended, -⟩ := (Node.children_balanced _ children).keeps rules
  refine (first sound fits rules allowed.left).bind fun value holds copy table standing => ?_
  obtain ⟨result, last, copyAfter, ran, standing, held⟩ :=
    second value sound (fits.past extended) rulesOthers allowed.right standing
  exact ⟨result, last, copyAfter, ran, standing, held holds⟩

theorem Rereads.map (first : region.Rereads spot children post run) {change : α → β}
    (holds : ∀ value, post value → goal (change value)) :
    region.Rereads spot children goal (run >>= fun value => pure (change value)) :=
  fun _ _ sound fits rules allowed => (first sound fits rules allowed).bind fun value held =>
    follows_pure (holds value held)

theorem Rereads.assoc {rest : List (Step ScopeId × ResolvedNode)}
    (rereads : region.Rereads spot (children ++ (others ++ rest)) post run) :
    region.Rereads spot (children ++ others ++ rest) post run := by
  rwa [List.append_assoc]

variable {step : Step ScopeId} {node : ResolvedNode}

/-- A part with no events of its own is read as its children are. -/
theorem Rereads.whole (plain : step.scope spot.scope = spot.scope ∧
      node.opening spot.scope step.isTarget = [] ∧ node.closing spot.scope = [])
    (rereads : region.Rereads spot node.children post run) :
    region.Rereads spot [(step, node)] post run := by
  intro before after sound fits rules allowed
  obtain ⟨same, opening, closing⟩ := plain
  simp only [List.flatMap_singleton, same] at rules allowed
  have stands : node.stands step.isTarget :=
    Node.ScopedAt.stands ⟨_, _, _, _, rfl, rules⟩
  rw [Node.events_eq _ stands, opening, closing, List.nil_append, List.append_nil] at rules
  rw [Node.walkIn_eq] at allowed
  exact rereads sound fits rules allowed.right

theorem rereads_fault (misplaced : node.stands step.isTarget = false) :
    region.Rereads spot [(step, node)] post run := by
  intro before after _ _ rules _
  rw [List.flatMap_singleton] at rules
  cases (Node.ScopedAt.stands ⟨_, _, _, _, rfl, rules⟩).symm.trans misplaced

/-- The body of a loop. -/
theorem rereads_loop {trees : List ResolvedStmt}
    (rereads : region.Rereads { spot with site := spot.site.inside .whileLoop }
      (Node.stmts .part trees) post run) :
    region.Rereads spot (Node.stmts .loop trees) post run := by
  intro before after sound fits rules allowed
  rw [Node.stmts, List.flatMap_map] at rules allowed
  refine rereads sound ⟨fits.here, fits.ready, fits.defaults, fits.frame⟩ ?_ ?_
  · rw [Node.stmts, List.flatMap_map]
    exact rules
  · rw [Node.stmts, List.flatMap_map]
    exact allowed

variable {value : Option ResolvedExpr}

theorem rereads_param (notReady : spot.ready = false) (name : String) (loc : Loc)
    (first : region.Rereads spot (Node.exprs .part value.toList) post run)
    (second : ∀ value, region.Rereads spot others (fun result => post value → goal result)
      (next value)) :
    region.Rereads spot ((.part, .param (.mk name loc value)) :: others) goal (do
      let value ← run
      Resolve.declareParameter spot.path name loc
      next value) := by
  intro before after sound fits rules allowed
  rw [List.flatMap_cons] at rules allowed
  rw [Node.events_eq _ rfl] at rules
  rw [Node.walkIn_eq] at allowed
  obtain ⟨_, here, rulesOthers⟩ := eventsScoped_append.1 rules
  obtain ⟨_, ⟨_, rfl, rules⟩, declared⟩ := eventsScoped_append.1 here
  obtain ⟨middle, rfl, extended, -⟩ := (Node.children_balanced _ _).keeps rules
  obtain ⟨_, ⟨rfl, new⟩, rfl⟩ := declared
  have fitsOthers : region.SiteFits spot (middle.declare name .parameter) :=
    { fits.past extended with here := (fits.past extended).here }
  refine (first sound fits rules allowed.left.right).bind fun value holds => ?_
  refine (follows_declareParameter notReady loc allowed.head new).bind fun _ _ => ?_
  intro copy table standing
  obtain ⟨result, last, copyAfter, ran, standing, held⟩ :=
    second value sound fitsOthers rulesOthers allowed.right standing
  exact ⟨result, last, copyAfter, ran, standing, held holds⟩

end Rereads

section Trees

variable {region : Region}

/-- The copies of the parameters and of the body of a scope can be read, wherever it stands. -/
def RereadsScope (region : Region) (params : List ResolvedParam) (body : List ResolvedStmt) :
    Prop :=
  (∀ spot : Spot, spot.ready = false → region.Rereads spot (params.map (.part, .param ·))
    (paramsCopied region.input params spot.carrying)
    (Resolve.params spot.path (Image.params region.input region.naming spot.site params))) ∧
  ∀ spot : Spot, region.Rereads spot (Node.stmts .part body)
    (stmtsCopied region.input body spot.carrying)
    (Resolve.stmts spot.path (Image.stmts region.input region.naming spot.site body))

variable {spot : Spot} {inner : ScopeId} {params : List ResolvedParam} {body : List ResolvedStmt}

/-- A scope is opened and left again; inside, its parameters are read, then its cells, then its
body. -/
theorem rereads_scope (build : ScopeId → List ResolvedParam → List ResolvedStmt → α)
    {node : ResolvedNode} {part : ScopeId × ResolvedNode} {kind : ScopeKind} {construct : Construct}
    (events : node.events spot.scope false =
      .enter kind inner :: (paramsEvents inner params ++ stmtsEvents inner body ++ [.leave]))
    (walk : node.walkIn spot.scope = part :: (walkParamsIn inner params ++ walkStmtsIn inner body))
    (rereads : region.RereadsScope params body) :
    region.Rereads spot [(.part, node)] (fun copy => ∃ id copies cells statements,
        copy = build id copies (cells ++ statements) ∧
        paramsCopied region.input params (spot.carrying.enter inner id) copies ∧
        (∀ cell ∈ cells, cell.Allocates id) ∧
        stmtsCopied region.input body (spot.carrying.enter inner id) statements) (do
      let id ← Resolve.openScope kind spot.path
      let copies ← Resolve.params (id :: spot.path) (Image.params region.input region.naming
        ((spot.site.inside construct).defaultsIn inner) params)
      let statements ← Resolve.stmts (id :: spot.path) (Conversion.cellPrelude region.input inner ++
        Image.stmts region.input region.naming (spot.site.inside construct) body)
      return build id copies statements) := by
  intro before after sound fits rules allowed
  rw [List.flatMap_singleton] at rules allowed
  obtain ⟨⟨⟩, first, last, opens⟩ := opens_of_scoped (events ▸ rules)
  have allowedInside := (walk ▸ allowed : region.AllowsAll _).tail
  intro copy table standing
  have followsParams := rereads.1
    (spot.enter ((spot.site.inside construct).defaultsIn inner) inner table.nextId
      before copy false)
    rfl sound (fits.defaultsIn construct inner table.nextId kind copy)
    (by
      rw [List.flatMap_map]
      exact Node.paramsEvents_eq inner params ▸ opens.params)
    (by
      rw [List.flatMap_map]
      exact Node.walkParamsIn_eq inner params ▸ allowedInside.left)
  have followsBody := rereads.2
    (spot.enter (spot.site.inside construct) inner table.nextId before copy true)
    sound (fits.inside opens.extended.scope opens.enters construct table.nextId copy)
    (Node.stmtsEvents_children inner body ▸ opens.body)
    (Node.walkStmtsIn_children inner body ▸ allowedInside.right)
  obtain ⟨copies, middle, copyFirst, ranParams, standingFirst, copiedParams⟩ :=
    followsParams (standing.enter opens.enters _)
  have grown : first.Grown (region.sources (spot.pairs before copy)) last := opens.grown
  obtain ⟨cells, between, copyReady, ranCells, standingReady, allocates⟩ :=
    prelude_runs sound grown opens.holds standingFirst
  obtain ⟨statements, next, copyLast, ranBody, standingLast, copiedBody⟩ :=
    followsBody standingReady
  have sameCopy : copyFirst.scope = table.nextId := (List.cons.inj standingFirst.path).1
  rw [opens.extended.scope] at ranCells
  rw [sameCopy] at allocates
  have opened : Resolve.openScope kind spot.path table =
    .ok (table.nextId, table.openScope kind spot.path) := rfl
  refine ⟨_, next, copy, (Resolve.run_bind opened).trans ((Resolve.run_bind ranParams).trans
    (Resolve.run_bind (Resolve.stmts_append ranCells ranBody))), ?_,
    table.nextId, copies, cells, statements, rfl, copiedParams, allocates, copiedBody⟩
  exact { standing with shown := standingLast.shown.2, knows := standingLast.knows }

theorem rereads_block (loc : Loc) (planned : region.input.plan.helper? inner = none)
    (rereads : region.RereadsScope params body) :
    region.Rereads spot [(.part, .block (.mk loc inner params body))]
      (fun copy => ∃ id copies cells statements,
        copy = some (.mk loc id copies (cells ++ statements)) ∧
        paramsCopied region.input params (spot.carrying.enter inner id) copies ∧
        (∀ cell ∈ cells, cell.Allocates id) ∧
        stmtsCopied region.input body (spot.carrying.enter inner id) statements)
      (Resolve.block spot.path (some
        (Image.block region.input region.naming spot.site (.mk loc inner params body)))) := by
  have inside : region.input.blockSite spot.site inner = spot.site.inside .block := by
    rw [ConversionInput.blockSite, planned]
  rw [Image.block, inside]
  exact rereads_scope (fun id copies statements => some (Block.mk loc id copies statements)) rfl rfl
    rereads

theorem rereads_hoistedCall {loc blockLoc : Loc} {receiver : Option ResolvedExpr} {method : String}
    {parens : Bool} (planned : region.input.plan.helper? inner = some helper)
    (hasReceiver : helper.hasReceiver = receiver.isSome)
    (readReceiver : region.Rereads spot (Node.exprs .part receiver.toList)
      (optionCopied region.input receiver spot.carrying)
      (Resolve.option spot.path (Image.option region.input region.naming spot.site receiver))) :
    region.Rereads spot
      [(.part, .expr (.call loc receiver method [] (some (.mk blockLoc inner params body)) parens))]
      (Expr.Copied region.input
        (.call loc receiver method [] (some (.mk blockLoc inner params body)) parens) spot.carrying)
      (Resolve.expr spot.path (Image.hoistedCall region.input region.naming spot.site loc
        (Image.option region.input region.naming spot.site receiver) helper blockLoc inner)) := by
  have closure : region.Rereads spot [(.part, .block (.mk blockLoc inner params body))]
      (fun copy => ∃ closure passed, copy = .call blockLoc none closure passed none true ∧
        List.Forall₂ (spot.carrying.Passes blockLoc)
          (region.input.analysis.capturesOf inner) passed)
      (Resolve.expr spot.path
        (Image.closureCall region.input region.naming spot.site blockLoc inner)) := by
    intro before after sound fits rules allowed
    rw [List.flatMap_singleton] at rules
    have seen := allowed.head (Option.isSome_of_eq_some planned) _ ⟨_, _, _, _, rfl, rules⟩
    obtain ⟨⟨⟩, -⟩ := opens_of_scoped rules
    exact follows_closureCall sound blockLoc seen
  have sameArgs : (if helper.hasReceiver then
      (Image.option region.input region.naming spot.site receiver).toList else []) =
      (Image.option region.input region.naming spot.site receiver).toList := by
    rw [hasReceiver]
    cases receiver <;> rfl
  rw [Image.hoistedCall, sameArgs, Resolve.expr_call, Resolve.exprs_toList]
  simp only [Resolve.option, Resolve.block, bind_assoc, pure_bind]
  refine .whole ⟨rfl, rfl, rfl⟩ (.assoc (readReceiver.bind fun front => closure.map ?_))
  rintro _ ⟨closure, passed, rfl, passes⟩ copied
  exact Expr.copied_call_hoisted planned copied passes _

mutual

/-- A converted expression is resolved to a copy of it. -/
theorem rereads_expr (spot : Spot) : (tree : ResolvedExpr) → region.Rereads spot
    [(.part, .expr tree)] (tree.Copied region.input spot.carrying)
    (Resolve.expr spot.path (Image.expr region.input region.naming spot.site tree))
  | .literal .. | .symbol .. | .constant .. => .whole ⟨rfl, rfl, rfl⟩ (rereads_pure rfl)
  | .name loc occurrence => by
    rintro before after sound fits ⟨_, ⟨rfl, reads⟩, ⟨⟩⟩ allowed
    exact follows_name sound loc (fits.allows allowed.head) reads
  | .global loc name => by
    rintro before after sound fits ⟨_, rfl, ⟨⟩⟩ allowed
    exact (follows_global _ _ _).bind fun _ _ => follows_pure rfl
  | .array _ elements => .whole ⟨rfl, rfl, rfl⟩ <|
    (rereads_exprs spot elements).map fun copies copied => ⟨copies, rfl, copied⟩
  | .splat _ value => .whole ⟨rfl, rfl, rfl⟩ <|
    (rereads_expr spot value).map fun copy copied => ⟨copy, rfl, copied⟩
  | .range _ start stop _ => .whole ⟨rfl, rfl, rfl⟩ <|
    (rereads_expr spot start).bind fun one => (rereads_expr spot stop).map
      fun two copiedTwo copiedOne => ⟨one, two, rfl, copiedOne, copiedTwo⟩
  | .binary _ _ left right => .whole ⟨rfl, rfl, rfl⟩ <|
    (rereads_expr spot left).bind fun one => (rereads_expr spot right).map
      fun two copiedTwo copiedOne => ⟨one, two, rfl, copiedOne, copiedTwo⟩
  | .unary _ _ operand => .whole ⟨rfl, rfl, rfl⟩ <|
    (rereads_expr spot operand).map fun copy copied => ⟨copy, rfl, copied⟩
  | .ternary _ condition thenValue elseValue => .whole ⟨rfl, rfl, rfl⟩ <|
    (rereads_expr spot condition).bind fun one => (rereads_expr spot thenValue).bind fun two =>
      (rereads_expr spot elseValue).map fun three copiedThree copiedTwo copiedOne =>
        ⟨one, two, three, rfl, copiedOne, copiedTwo, copiedThree⟩
  | .lambda loc _ params body => rereads_scope (Expr.lambda loc) rfl rfl
    ⟨fun spot notReady => rereads_params spot notReady params, fun spot => rereads_stmts spot body⟩
  | .call loc receiver method args none parens => by
    rw [Image.expr, Resolve.expr_call]
    exact .whole ⟨rfl, rfl, rfl⟩ <| .assoc <|
      (rereads_option spot receiver).bind fun one => (rereads_exprs spot args).bind fun two =>
        (rereads_pure rfl).map fun three isNone copiedTwo copiedOne => by
          cases isNone
          exact ⟨one, two, rfl, copiedOne, copiedTwo⟩
  | .call loc receiver method args (some (.mk blockLoc inner params body)) parens => by
    cases planned : region.input.plan.helper? inner with
    | none =>
      rw [Image.expr_call_left _ _ _ _ _ _ _ planned, Resolve.expr_call]
      exact .whole ⟨rfl, rfl, rfl⟩ <| .assoc <|
        (rereads_option spot receiver).bind fun one => (rereads_exprs spot args).bind fun two =>
          (rereads_block blockLoc planned ⟨fun spot notReady => rereads_params spot notReady params,
            fun spot => rereads_stmts spot body⟩).map fun three copiedThree copiedTwo copiedOne =>
              Expr.copied_call_left planned copiedOne copiedTwo copiedThree
    | some helper =>
      rw [Image.expr_call_hoisted _ _ _ _ _ _ _ planned]
      intro before after sound fits rules allowed
      obtain ⟨rfl, hasReceiver⟩ := allowed.head helper planned
      exact rereads_hoistedCall planned hasReceiver (rereads_option spot receiver) sound fits rules
        allowed
  | .index _ value args => .whole ⟨rfl, rfl, rfl⟩ <|
    (rereads_expr spot value).bind fun one => (rereads_exprs spot args).map
      fun two copiedTwo copiedOne => ⟨one, two, rfl, copiedOne, copiedTwo⟩
  | .assign _ target value => .whole ⟨rfl, rfl, rfl⟩ <|
    (rereads_target spot target).bind fun one => (rereads_expr spot value).map
      fun two copiedTwo copiedOne => ⟨one, two, rfl, copiedOne, copiedTwo⟩
  | .opAssign _ target _ value => .whole ⟨rfl, rfl, rfl⟩ <|
    (rereads_target spot target).bind fun one => (rereads_expr spot value).map
      fun two copiedTwo copiedOne => ⟨one, two, rfl, copiedOne, copiedTwo⟩
  | .multiAssign _ targets values => .whole ⟨rfl, rfl, rfl⟩ <|
    (rereads_targets spot targets).bind fun one => (rereads_exprs spot values).map
      fun two copiedTwo copiedOne => ⟨one, two, rfl, copiedOne, copiedTwo⟩
  | .block (.mk ..) => by
    intro before after sound fits rules allowed
    rw [List.flatMap_singleton] at rules
    obtain ⟨⟨⟩, -⟩ := opens_of_scoped rules
    exact follows_pure rfl
  | .param _ | .stmt _ => rereads_fault rfl

theorem rereads_option (spot : Spot) : (tree : Option ResolvedExpr) → region.Rereads spot
    (Node.exprs .part tree.toList) (optionCopied region.input tree spot.carrying)
    (Resolve.option spot.path (Image.option region.input region.naming spot.site tree))
  | none => rereads_pure rfl
  | some tree => (rereads_expr spot tree).map fun copy copied => ⟨copy, rfl, copied⟩

theorem rereads_exprs (spot : Spot) : (trees : List ResolvedExpr) → region.Rereads spot
    (Node.exprs .part trees) (exprsCopied region.input trees spot.carrying)
    (Resolve.exprs spot.path (Image.exprs region.input region.naming spot.site trees))
  | [] => rereads_pure rfl
  | first :: rest => (rereads_expr spot first).bind fun copy => (rereads_exprs spot rest).map
    fun copies copiedRest copied => ⟨copy, copies, rfl, copied, copiedRest⟩

theorem rereads_target (spot : Spot) : (tree : ResolvedExpr) → region.Rereads spot
    [(.target, .expr tree)] (tree.Copied region.input spot.carrying)
    (Resolve.target spot.path (Image.expr region.input region.naming spot.site tree))
  | .name .. => by
    rintro before after sound fits ⟨_, ⟨_, rfl, writes⟩, ⟨⟩⟩ allowed
    exact follows_target_name sound fits (fits.allows allowed.head) writes
  | .global .. => by
    rintro before after sound fits ⟨_, rfl, ⟨⟩⟩ allowed
    exact (follows_global _ _ _).bind fun _ _ => follows_pure rfl
  | .index _ value args => .whole ⟨rfl, rfl, rfl⟩ <|
    (rereads_expr spot value).bind fun one => (rereads_exprs spot args).map
      fun two copiedTwo copiedOne => ⟨one, two, rfl, copiedOne, copiedTwo⟩
  | .literal .. | .symbol .. | .constant .. | .array .. | .splat .. | .range .. | .binary ..
  | .unary .. | .ternary .. | .lambda .. | .call .. | .assign .. | .opAssign .. | .multiAssign ..
  | .block _ | .param _ | .stmt _ => rereads_fault rfl

theorem rereads_targets (spot : Spot) : (trees : List ResolvedExpr) → region.Rereads spot
    (Node.exprs .target trees) (exprsCopied region.input trees spot.carrying)
    (Resolve.targets spot.path (Image.exprs region.input region.naming spot.site trees))
  | [] => rereads_pure rfl
  | first :: rest => (rereads_target spot first).bind fun copy => (rereads_targets spot rest).map
    fun copies copiedRest copied => ⟨copy, copies, rfl, copied, copiedRest⟩

theorem rereads_params (spot : Spot) (notReady : spot.ready = false) :
    (trees : List ResolvedParam) → region.Rereads spot (trees.map (.part, .param ·))
      (paramsCopied region.input trees spot.carrying)
      (Resolve.params spot.path (Image.params region.input region.naming spot.site trees))
  | [] => rereads_pure rfl
  | .mk name loc value :: rest => by
    rw [Image.params, Resolve.params_cons]
    exact rereads_param notReady name loc (rereads_option spot value) fun copy =>
      (rereads_params spot notReady rest).map fun copies copiedRest copied =>
        ⟨copy, copies, rfl, copied, copiedRest⟩

theorem rereads_stmt (spot : Spot) : (tree : ResolvedStmt) → region.Rereads spot
    [(.part, .stmt tree)] (tree.Copied region.input spot.carrying)
    (Resolve.stmt spot.path (Image.stmt region.input region.naming spot.site tree))
  | .define loc _ name params body => rereads_scope (Stmt.define loc · name) rfl rfl
    ⟨fun spot notReady => rereads_params spot notReady params, fun spot => rereads_stmts spot body⟩
  | .expression _ value => .whole ⟨rfl, rfl, rfl⟩ <|
    (rereads_expr spot value).map fun copy copied => ⟨copy, rfl, copied⟩
  | .conditional _ condition thenBody elseBody _ true _ => .whole ⟨rfl, rfl, rfl⟩ <| .assoc <|
    (rereads_stmts spot thenBody).bind fun two => (rereads_expr spot condition).bind fun one =>
      (rereads_stmts spot elseBody).map fun three copiedThree copiedOne copiedTwo =>
        ⟨one, two, three, rfl, copiedOne, copiedTwo, copiedThree⟩
  | .conditional _ condition thenBody elseBody _ false _ => .whole ⟨rfl, rfl, rfl⟩ <| .assoc <|
    (rereads_expr spot condition).bind fun one => (rereads_stmts spot thenBody).bind fun two =>
      (rereads_stmts spot elseBody).map fun three copiedThree copiedTwo copiedOne =>
        ⟨one, two, three, rfl, copiedOne, copiedTwo, copiedThree⟩
  | .whileLoop _ condition body => .whole ⟨rfl, rfl, rfl⟩ <|
    (rereads_expr spot condition).bind fun one => (rereads_loop (rereads_stmts _ body)).map
      fun two copiedTwo copiedOne => ⟨one, two, rfl, copiedOne, copiedTwo⟩
  | .jump _ _ value => .whole ⟨rfl, rfl, rfl⟩ fun _ _ sound fits rules allowed =>
    follows_jump (rereads_option spot value sound fits rules allowed)
  | .bare _ => rereads_fault rfl

theorem rereads_stmts (spot : Spot) : (trees : List ResolvedStmt) → region.Rereads spot
    (Node.stmts .part trees) (stmtsCopied region.input trees spot.carrying)
    (Resolve.stmts spot.path (Image.stmts region.input region.naming spot.site trees))
  | [] => rereads_pure rfl
  | first :: rest => (rereads_stmt spot first).bind fun copy => (rereads_stmts spot rest).map
    fun copies copiedRest copied => ⟨copy, copies, rfl, copied, copiedRest⟩

end

end Trees

end Region

end Hoist
