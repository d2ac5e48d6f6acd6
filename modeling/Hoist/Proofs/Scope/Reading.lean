import Hoist.Proofs.Steps
import Hoist.Proofs.Syntax.Walk

/-!
Reading a program from end to end.  What matters to scope resolution of a tree is a list of events:
names and globals that are read or written, parameters, and scopes that are entered and left.
Resolution reads the events of the plain tree one after the other, and what it makes of them are the
events of the resolved tree, so facts about resolution are proved by induction on a list.
-/

namespace Hoist

open List

variable {α β ν σ : Type}

/-- What scope resolution meets in a tree, with the innermost scope around it. -/
inductive Event (ν σ : Type) where
  | name (written : Bool) (scope : σ) (loc : Loc) (occurrence : ν)
  | global (written : Bool) (loc : Loc) (name : String)
  /-- A parameter, before its default. -/
  | meet (scope : σ) (name : String) (loc : Loc)
  /-- The same parameter after its default: from here on it is a variable. -/
  | declare (scope : σ) (name : String) (loc : Loc)
  | enter (kind : ScopeKind) (scope : σ)
  | leave
  /-- A part that stands where it must not. -/
  | fault (error : ScopeError)
deriving DecidableEq

/-- Whether an event leaves code in its scope; parameters are declared only `inside` one. -/
def Event.stays (inside : Bool) : Event ν σ → Bool
  | .enter .. | .leave => false
  | .declare .. => inside
  | _ => true

mutual

/-- The events of an expression, in reading order. -/
def Expr.events (scope : σ) : Expr ν σ → List (Event ν σ)
  | .literal .. | .symbol .. | .constant .. => []
  | .name loc occurrence => [.name false scope loc occurrence]
  | .global loc name => [.global false loc name]
  | .array _ elements => exprsEvents scope elements
  | .splat _ value => value.events scope
  | .range _ start stop _ => start.events scope ++ stop.events scope
  | .binary _ _ left right => left.events scope ++ right.events scope
  | .unary _ _ operand => operand.events scope
  | .ternary _ condition thenValue elseValue =>
    condition.events scope ++ (thenValue.events scope ++ elseValue.events scope)
  | .lambda _ inner params body =>
    .enter .lambda inner :: (paramsEvents inner params ++ stmtsEvents inner body ++ [.leave])
  | .call _ receiver _ args block _ =>
    optionEvents scope receiver ++ (exprsEvents scope args ++ blockEvents block)
  | .index _ value args => value.events scope ++ exprsEvents scope args
  | .assign _ target value => target.targetEvents scope ++ value.events scope
  | .opAssign _ target _ value => target.targetEvents scope ++ value.events scope
  | .multiAssign _ targets values => targetsEvents scope targets ++ exprsEvents scope values
  | .block (.mk _ inner params body) =>
    .enter .block inner :: (paramsEvents inner params ++ stmtsEvents inner body ++ [.leave])
  | .param _ => [.fault (.expressionKind "Param")]
  | .stmt tree => [.fault (.expressionKind tree.label)]

def optionEvents (scope : σ) : Option (Expr ν σ) → List (Event ν σ)
  | none => []
  | some tree => tree.events scope

def exprsEvents (scope : σ) : List (Expr ν σ) → List (Event ν σ)
  | [] => []
  | first :: rest => first.events scope ++ exprsEvents scope rest

def blockEvents : Option (Block ν σ) → List (Event ν σ)
  | none => []
  | some (.mk _ inner params body) =>
    .enter .block inner :: (paramsEvents inner params ++ stmtsEvents inner body ++ [.leave])

def Expr.targetEvents (scope : σ) : Expr ν σ → List (Event ν σ)
  | .name loc occurrence => [.name true scope loc occurrence]
  | .global loc name => [.global true loc name]
  | .index _ value args => value.events scope ++ exprsEvents scope args
  | place => [.fault (.assignmentTarget place.loc)]

def targetsEvents (scope : σ) : List (Expr ν σ) → List (Event ν σ)
  | [] => []
  | first :: rest => first.targetEvents scope ++ targetsEvents scope rest

def paramsEvents (scope : σ) : List (Param ν σ) → List (Event ν σ)
  | [] => []
  | .mk name loc value :: rest =>
    .meet scope name loc :: (optionEvents scope value ++
      .declare scope name loc :: paramsEvents scope rest)

def Stmt.events (scope : σ) : Stmt ν σ → List (Event ν σ)
  | .define _ inner _ params body =>
    .enter .function inner :: (paramsEvents inner params ++ stmtsEvents inner body ++ [.leave])
  | .expression _ value => value.events scope
  | .conditional _ condition thenBody elseBody _ modifier _ =>
    if modifier then
      stmtsEvents scope thenBody ++ (condition.events scope ++ stmtsEvents scope elseBody)
    else condition.events scope ++ (stmtsEvents scope thenBody ++ stmtsEvents scope elseBody)
  | .whileLoop _ condition body => condition.events scope ++ stmtsEvents scope body
  | .jump _ _ value => optionEvents scope value
  | .bare tree => [.fault (.statementKind tree.label)]

def stmtsEvents (scope : σ) : List (Stmt ν σ) → List (Event ν σ)
  | [] => []
  | first :: rest => first.events scope ++ stmtsEvents scope rest

end

section Nodes

namespace Node

/-- The events of a part of a tree, given the scope around it and whether it is assigned to. -/
def events (scope : σ) (written : Bool) : Node ν σ → List (Event ν σ)
  | .expr tree => if written then tree.targetEvents scope else tree.events scope
  | .param tree => paramsEvents scope [tree]
  | .block tree => blockEvents (some tree)
  | .stmt tree => tree.events scope

/-- The events of a part before those of its children. -/
def opening (scope : σ) (written : Bool) : Node ν σ → List (Event ν σ)
  | .expr (.name loc occurrence) => [.name written scope loc occurrence]
  | .expr (.global loc name) => [.global written loc name]
  | .expr (.lambda _ inner _ _) => [.enter .lambda inner]
  | .block (.mk _ inner _ _) => [.enter .block inner]
  | .stmt (.define _ inner _ _ _) => [.enter .function inner]
  | .param (.mk name loc _) => [.meet scope name loc]
  | _ => []

/-- The events of a part after those of its children. -/
def closing (scope : σ) : Node ν σ → List (Event ν σ)
  | .expr (.lambda ..) | .block (.mk ..) | .stmt (.define ..) => [.leave]
  | .param (.mk name loc _) => [.declare scope name loc]
  | _ => []

/-- The scope that a part opens for its children. -/
def opens? : Node ν σ → Option (ScopeKind × σ)
  | .expr (.lambda _ inner _ _) => some (.lambda, inner)
  | .block (.mk _ inner _ _) => some (.block, inner)
  | .stmt (.define _ inner _ _ _) => some (.function, inner)
  | _ => none

def isParam : Node ν σ → Bool
  | .param _ => true
  | _ => false

/-- Whether a part may stand where expressions and statements do and, if so, be assigned to. -/
def stands (written : Bool) : Node ν σ → Bool
  | .expr (.param _) | .expr (.stmt _) | .stmt (.bare _) => false
  | .expr tree => !written || tree.isTarget
  | _ => true

/-- A part of a tree in which nothing stands where it must not. -/
def Faultless (scope : σ) (written : Bool) (node : Node ν σ) : Prop :=
  ∀ error, .fault error ∉ node.events scope written

theorem exprsEvents_eq (scope : σ) (trees : List (Expr ν σ)) :
    exprsEvents scope trees = trees.flatMap (Expr.events scope) :=
  eq_flatMap rfl (fun _ _ => rfl) trees

theorem targetsEvents_eq (scope : σ) (trees : List (Expr ν σ)) :
    targetsEvents scope trees = trees.flatMap (Expr.targetEvents scope) :=
  eq_flatMap rfl (fun _ _ => rfl) trees

theorem stmtsEvents_eq (scope : σ) (trees : List (Stmt ν σ)) :
    stmtsEvents scope trees = trees.flatMap (Stmt.events scope) :=
  eq_flatMap rfl (fun _ _ => rfl) trees

theorem paramsEvents_eq (scope : σ) (trees : List (Param ν σ)) :
    paramsEvents scope trees = trees.flatMap fun tree => paramsEvents scope [tree] := by
  induction trees with
  | nil => rfl
  | cons first rest ih =>
    cases first
    rw [flatMap_cons, ← ih]
    simp [paramsEvents]

attribute [local simp] children exprs stmts opened events.eq_1 events.eq_2 events.eq_3 events.eq_4
  opening closing Faultless Expr.events Expr.targetEvents Stmt.events exprsEvents_eq
    targetsEvents_eq
  stmtsEvents_eq optionEvents blockEvents.eq_1 blockEvents.eq_2 Step.scope Step.isTarget
  flatMap_map

variable {written : Bool}

theorem events_eq (scope : σ) {node : Node ν σ} (stands : node.stands written) :
    node.events scope written = node.opening scope written ++
      node.children.flatMap (fun child => child.2.events (child.1.scope scope) child.1.isTarget) ++
        node.closing scope := by
  rcases node with tree | ⟨name, loc, value⟩ | ⟨_, _, params, _⟩ | tree
  · cases written with
    | true => cases tree <;> simp_all [Node.stands, Expr.isTarget]
    | false =>
      cases tree with
      | call _ receiver _ _ block _ =>
        cases receiver <;> rcases block with _ | ⟨_, _, _, _⟩ <;> simp
      | lambda _ _ params _ => simp [paramsEvents_eq _ params]
      | block tree => cases tree; simp
      | _ => simp_all [Node.stands]
  · cases value <;> simp [paramsEvents]
  · simp [paramsEvents_eq _ params]
  · cases tree with
    | define _ _ _ params _ => simp [paramsEvents_eq _ params]
    | conditional _ _ _ _ _ modifier _ => cases modifier <;> simp
    | jump _ _ value => cases value <;> simp
    | _ => simp_all [Node.stands]

theorem fault_of_not_stands (scope : σ) {node : Node ν σ} (misplaced : ¬ node.stands written) :
    ∃ error, node.events scope written = [.fault error] ∧
      ∀ word loc, error ≠ .undefinedName word loc := by
  rcases node with tree | _ | _ | tree
  · cases written <;> cases tree <;> simp_all [Node.stands, Expr.isTarget]
  · exact absurd rfl misplaced
  · exact absurd rfl misplaced
  · cases tree <;> simp_all [Node.stands]

theorem Faultless.stands {scope : σ} {node : Node ν σ}
    (faultless : node.Faultless scope written) : node.stands written := by
  by_contra misplaced
  obtain ⟨error, fault, -⟩ := fault_of_not_stands scope misplaced
  exact faultless error (fault ▸ mem_cons_self)

theorem WellFormed.stands {wording : Wording ν} {node : Node ν σ} (valid : node.WellFormed wording)
    (target : written = true → node.isTarget = true) : node.stands written := by
  rcases node with tree | _ | _ | tree
  · obtain ⟨_, valid⟩ := valid
    cases tree with
    | param | stmt => exact False.elim valid
    | _ => cases written <;> simp_all [Node.stands, Node.isTarget, Expr.isTarget]
  · rfl
  · rfl
  · obtain ⟨_, valid⟩ := valid
    cases tree with
    | bare => exact False.elim valid
    | _ => rfl

theorem events_child_subset {scope : σ} {node : Node ν σ}
    {child : Step σ × Node ν σ} (stands : node.stands written) (member : child ∈ node.children) :
    child.2.events (child.1.scope scope) child.1.isTarget ⊆ node.events scope written := by
  intro event there
  rw [events_eq scope stands, mem_append, mem_append]
  exact .inl (.inr (mem_flatMap.2 ⟨child, member, there⟩))

theorem Faultless.children {scope : σ} {node : Node ν σ}
    (faultless : node.Faultless scope written) :
    ∀ child ∈ node.children, child.2.Faultless (child.1.scope scope) child.1.isTarget := by
  intro child member error there
  exact faultless error (events_child_subset faultless.stands member there)

/-- The events of a part are among those of the tree. -/
theorem Faultless.reached {scope : σ} {node last : Node ν σ} {path : List (Step σ)}
    (faultless : node.Faultless scope written) (reaches : node.Reaches path last) :
    last.events (path.foldl Step.scope scope) (path.foldl (fun _ step => step.isTarget) written) ⊆
      node.events scope written := by
  induction reaches generalizing scope written with
  | here => exact Subset.refl _
  | step member _ ih =>
    exact List.Subset.trans (ih (faultless.children _ member))
      (events_child_subset faultless.stands member)

theorem Faultless.name_mem {scope : σ} {node : Node ν σ} {path : List (Step σ)} {loc : Loc}
    {occurrence : ν} (faultless : node.Faultless scope written)
    (reaches : node.Reaches path (.expr (.name loc occurrence))) :
    .name (path.foldl (fun _ step => step.isTarget) written) (path.foldl Step.scope scope) loc
      occurrence ∈ node.events scope written := by
  refine faultless.reached reaches ?_
  cases path.foldl (fun _ step => step.isTarget) written <;> exact mem_singleton_self _

/-- Events in which every scope that is entered is left again; parameters are declared only
`inside` a scope. -/
inductive Balanced : Bool → List (Event ν σ) → Prop
  | nil (inside : Bool) : Balanced inside []
  | append {inside : Bool} {left right : List (Event ν σ)} :
      Balanced inside left → Balanced inside right → Balanced inside (left ++ right)
  | one {inside : Bool} {event : Event ν σ} : event.stays inside = true → Balanced inside [event]
  | scope {inside : Bool} {events : List (Event ν σ)} (kind : ScopeKind) (scope : σ) :
      Balanced true events → Balanced inside (.enter kind scope :: (events ++ [.leave]))

theorem Balanced.flatMap {ι : Type} {inside : Bool} {items : List ι}
    {each : ι → List (Event ν σ)} (balanced : ∀ item ∈ items, Balanced inside (each item)) :
    Balanced inside (items.flatMap each) := by
  induction items with
  | nil => exact .nil inside
  | cons first rest ih =>
    rw [forall_mem_cons] at balanced
    rw [flatMap_cons]
    exact .append balanced.1 (ih balanced.2)

theorem isParam_of_child {node : Node ν σ} {child : Step σ × Node ν σ}
    (stands : node.stands written)
    (closed : node.opens? = none) (member : child ∈ node.children) : child.2.isParam = false := by
  obtain ⟨step, child⟩ := child
  rcases node with tree | ⟨_, _, _⟩ | ⟨_, _, _, _⟩ | tree
  case expr | stmt => cases tree <;> simp_all [Node.stands, opens?] <;> grind [isParam]
  all_goals simp_all [opens?] <;> grind [isParam]

theorem frame_of_opens {node : Node ν σ} {kind : ScopeKind} {inner : σ}
    (opened : node.opens? = some (kind, inner)) (scope : σ) :
    node.opening scope written = [.enter kind inner] ∧ node.closing scope = [.leave] := by
  unfold opens? at opened
  split at opened <;> cases opened <;> exact ⟨rfl, rfl⟩

theorem opening_balanced {node : Node ν σ} (closed : node.opens? = none) (scope : σ)
    (inside : Bool) : Balanced inside (node.opening scope written) := by
  unfold opening
  split <;> first | exact .one rfl | exact .nil _ | cases closed

theorem balanced (node : Node ν σ) (scope : σ) (written : Bool) {inside : Bool}
    (placed : node.isParam = true → inside = true) :
    Balanced inside (node.events scope written) := by
  induction node using Node.induct generalizing scope written inside with
  | step node ih =>
    by_cases stands : node.stands written
    · rw [events_eq scope stands]
      cases opened : node.opens? with
      | some opens =>
        obtain ⟨opening, closing⟩ := frame_of_opens opened scope
        rw [opening, closing]
        exact .scope _ _ (.flatMap fun child member => ih child member _ _ fun _ => rfl)
      | none =>
        refine .append (.append (opening_balanced opened scope inside)
          (.flatMap fun child member => ih child member _ _ fun isParam => ?_)) ?_
        · cases (isParam_of_child stands opened member).symm.trans isParam
        · unfold closing
          split
          · cases opened
          · cases opened
          · cases opened
          · exact .one (placed rfl)
          · exact .nil _
    · obtain ⟨error, fault, -⟩ := fault_of_not_stands scope stands
      rw [fault]
      exact .one rfl

theorem stmtsEvents_children (scope : σ) (trees : List (Stmt ν σ)) :
    (stmts .part trees).flatMap (fun child =>
      child.2.events (child.1.scope scope) child.1.isTarget) = stmtsEvents scope trees := by
  rw [stmtsEvents_eq, stmts, flatMap_map]
  rfl

theorem children_balanced (scope : σ) (children : List (Step σ × Node ν σ)) :
    Balanced true (children.flatMap fun child =>
      child.2.events (child.1.scope scope) child.1.isTarget) :=
  .flatMap fun child _ => child.2.balanced _ _ fun _ => rfl

theorem params_balanced {scope : σ} (trees : List (Param ν σ)) :
    Balanced true (paramsEvents scope trees) := by
  rw [paramsEvents_eq]
  exact .flatMap fun tree _ => (Node.param tree).balanced scope false fun _ => rfl

theorem stmts_balanced {scope : σ} (trees : List (Stmt ν σ)) :
    Balanced false (stmtsEvents scope trees) := by
  rw [stmtsEvents_eq]
  exact .flatMap fun tree _ => (Node.stmt tree).balanced scope false nofun

section Told

variable {ι : Type} {tell : Event ν σ → Option ι} {item : σ × Node ν σ → Option ι}
  (silent : ∀ scope (node : Node ν σ), (node.closing scope).filterMap tell = [])
  (told : ∀ scope written (node : Node ν σ), (node.opening scope written).filterMap tell =
    (node.here.map (scope, ·)).filterMap item)

include silent told

/-- What some events of a tree tell is met by a walk over it. -/
theorem filterMap_events (node : Node ν σ) {scope : σ} (faultless : node.Faultless scope written) :
    (node.events scope written).filterMap tell = (node.walkIn scope).filterMap item := by
  induction node using Node.induct generalizing scope written with
  | step node ih =>
    rw [events_eq scope faultless.stands, walkIn_eq, filterMap_append, filterMap_append,
      silent, append_nil, filterMap_flatMap, filterMap_append,
      filterMap_flatMap, told]
    congr 1
    exact flatMap_congr fun child member => ih child member (faultless.children child member)

theorem filterMap_stmtsEvents {scope : σ} {trees : List (Stmt ν σ)}
    (faultless : ∀ error, .fault error ∉ stmtsEvents scope trees) :
    (stmtsEvents scope trees).filterMap tell = (walkStmtsIn scope trees).filterMap item := by
  rw [stmtsEvents_eq] at faultless ⊢
  rw [walkStmtsIn_eq, filterMap_flatMap, filterMap_flatMap]
  refine flatMap_congr fun tree member => ?_
  have here : (Node.stmt tree).Faultless scope false := fun error there =>
    faultless error (mem_flatMap.2 ⟨tree, member, there⟩)
  exact filterMap_events silent told (.stmt tree) here

end Told

end Node

end Nodes

namespace Resolve

/-- How far reading has got: the scopes around, the innermost first, and the table so far. -/
structure Reading where
  path : List ScopeId
  table : ScopeTable

end Resolve

open Resolve

def Event.read (event : Event String Unit) (state : Reading) :
    Except ScopeError (Event Occurrence ScopeId × Reading) :=
  let ⟨path, table⟩ := state
  match event with
  | .name written _ loc word => do
    let read ← (if written then assignment path word loc else reference path word loc) table
    return (.name written (innermost path) loc read.1, ⟨path, read.2⟩)
  | .global written loc word => do
    let read ← Resolve.global word loc written table
    return (.global written loc word, ⟨path, read.2⟩)
  | .meet _ word loc => return (.meet (innermost path) word loc, ⟨path, table⟩)
  | .declare _ word loc => do
    let read ← declareParameter path word loc table
    return (.declare (innermost path) word loc, ⟨path, read.2⟩)
  | .enter kind _ =>
    return (.enter kind table.nextId, ⟨table.nextId :: path, table.openScope kind path⟩)
  | .leave => return (.leave, ⟨path.tail, table⟩)
  | .fault error => throw error

def readAll : List (Event String Unit) → Reading →
    Except ScopeError (List (Event Occurrence ScopeId) × Reading)
  | [], state => .ok ([], state)
  | event :: rest, state => do
    let first ← event.read state
    let others ← readAll rest first.2
    return (first.1 :: others.1, others.2)

theorem readAll_append (left right : List (Event String Unit)) (state : Reading) :
    readAll (left ++ right) state = (do
      let first ← readAll left state
      let second ← readAll right first.2
      return (first.1 ++ second.1, second.2)) := by
  induction left generalizing state with
  | nil => exact (bind_pure _).symm
  | cons event rest ih => simp only [cons_append, readAll, bind_assoc, pure_bind, ih]

theorem run_get {next : ScopeTable → Resolving β} {table : ScopeTable} :
    (get >>= next) table = next table table := rfl

section Steps

variable (path : List ScopeId) (name : String) (loc : Loc) (table : ScopeTable)

theorem declareParameter_eq : declareParameter path name loc table =
    if (table.binding? (innermost path) name).isSome then .error (.duplicateParameter name loc)
    else .ok ((),
      table.addBinding (innermost path) { name, kind := .parameter, loc := some loc }) := by
  unfold declareParameter
  rw [run_get]
  split <;> rfl

theorem reference_eq : reference path name loc table =
    match table.lookup? name path with
    | some scope => .ok (⟨name, some (.variable scope)⟩, table)
    | none =>
      if (table.methods.find? name).isSome then .ok (⟨name, some .method⟩, table)
      else if kernelMethods.contains name then .ok (⟨name, some .method⟩, { table with
        methods := table.methods ++ [{ name, kind := .function, loc := none : Binding }] })
      else .error (.undefinedName name loc) := by
  unfold reference
  rw [run_get]
  cases table.lookup? name path with
  | some scope => rfl
  | none =>
    cases defined : (table.methods.find? name).isSome with
    | true => rfl
    | false => cases kernelMethods.contains name <;> rfl

theorem assignment_eq : assignment path name loc table =
    match table.lookup? name path with
    | some scope => .ok (⟨name, some (.variable scope)⟩,
      table.updateBinding scope name (·.written (table.throughClosure path scope)))
    | none => .ok (⟨name, some (.variable (innermost path))⟩, table.addBinding (innermost path)
      ({ name, kind := .localVariable, loc := some loc : Binding }.written false)) := by
  unfold assignment
  rw [run_get]
  cases table.lookup? name path <;> rfl

end Steps

def globalsAfter (written : Bool) (name : String) (loc : Loc) (globals : Bindings) : Bindings :=
  let known : Bindings := if (globals.find? name).isSome then globals
    else globals ++ [{ name, kind := .global, loc := some loc }]
  if written then known.update name (·.written false) else known

/-- The steps of reading at a path, with the table so far: what is made of an event, and how far
reading has got then. -/
inductive Event.Takes (path : List ScopeId) (table : ScopeTable) :
    Event String Unit → Event Occurrence ScopeId → Reading → Prop
  | found {loc : Loc} {word : String} {scope : ScopeId} :
      table.lookup? word path = some scope → Takes path table (.name false () loc word)
        (.name false (innermost path) loc ⟨word, some (.variable scope)⟩) ⟨path, table⟩
  | method {loc : Loc} {word : String} : table.lookup? word path = none →
      (table.methods.find? word).isSome = true → Takes path table (.name false () loc word)
        (.name false (innermost path) loc ⟨word, some .method⟩) ⟨path, table⟩
  | kernel {loc : Loc} {word : String} : table.lookup? word path = none →
      ¬ (table.methods.find? word).isSome = true → kernelMethods.contains word = true →
      Takes path table (.name false () loc word)
        (.name false (innermost path) loc ⟨word, some .method⟩) ⟨path, { table with
          methods := table.methods ++
          [{ name := word, kind := .function, loc := none : Binding }] }⟩
  | write {loc : Loc} {word : String} {scope : ScopeId} :
      table.lookup? word path = some scope → Takes path table (.name true () loc word)
        (.name true (innermost path) loc ⟨word, some (.variable scope)⟩)
        ⟨path, table.updateBinding scope word (·.written (table.throughClosure path scope))⟩
  | create {loc : Loc} {word : String} : table.lookup? word path = none →
      Takes path table (.name true () loc word)
        (.name true (innermost path) loc ⟨word, some (.variable (innermost path))⟩)
        ⟨path, table.addBinding (innermost path)
          ({ name := word, kind := .localVariable, loc := some loc : Binding }.written false)⟩
  | global (written : Bool) (loc : Loc) (word : String) :
      Takes path table (.global written loc word) (.global written loc word)
        ⟨path, { table with globals := globalsAfter written word loc table.globals }⟩
  | meet (loc : Loc) (word : String) :
      Takes path table (.meet () word loc) (.meet (innermost path) word loc) ⟨path, table⟩
  | declare {loc : Loc} {word : String} : ¬ (table.binding? (innermost path) word).isSome = true →
      Takes path table (.declare () word loc) (.declare (innermost path) word loc)
        ⟨path, table.addBinding (innermost path)
          { name := word, kind := .parameter, loc := some loc }⟩
  | enter (kind : ScopeKind) : Takes path table (.enter kind ()) (.enter kind table.nextId)
        ⟨table.nextId :: path, table.openScope kind path⟩
  | leave : Takes path table .leave .leave ⟨path.tail, table⟩

theorem Event.takes_of_read {event : Event String Unit} {state : Reading}
    {result : Event Occurrence ScopeId × Reading} (ran : event.read state = .ok result) :
    event.Takes state.path state.table result.1 result.2 := by
  obtain ⟨path, table⟩ := state
  cases event with
  | name written scope loc word =>
    obtain ⟨read, stepped, ⟨⟩⟩ := bind_eq_ok.1 ran
    cases written with
    | true =>
      rw [if_pos rfl, assignment_eq] at stepped
      split at stepped <;> cases stepped
      · exact .write ‹_›
      · exact .create ‹_›
    | false =>
      rw [if_neg Bool.false_ne_true, reference_eq] at stepped
      split at stepped
      · cases stepped
        exact .found ‹_›
      · split at stepped
        · cases stepped
          exact .method ‹_› ‹_›
        · split at stepped <;> cases stepped
          exact .kernel ‹_› ‹_› ‹_›
  | global written loc word =>
    obtain ⟨read, ⟨⟩, ⟨⟩⟩ := bind_eq_ok.1 ran
    exact .global ..
  | meet scope word loc =>
    cases ran
    exact .meet ..
  | declare scope word loc =>
    obtain ⟨read, stepped, ⟨⟩⟩ := bind_eq_ok.1 ran
    rw [declareParameter_eq] at stepped
    split at stepped <;> cases stepped
    exact .declare ‹_›
  | enter kind scope =>
    cases ran
    exact .enter kind
  | leave =>
    cases ran
    exact .leave
  | fault error => cases ran

theorem readAll_keeps {allowed : Event String Unit → Prop} {good : Reading → Prop}
    {made : Event Occurrence ScopeId → Prop}
    (step : ∀ {path table event result next}, allowed event → good ⟨path, table⟩ →
      event.Takes path table result next → made result ∧ good next)
        {events : List (Event String Unit)}
    (all : ∀ event ∈ events, allowed event) {state : Reading}
    {result : List (Event Occurrence ScopeId) × Reading} (start : good state)
    (ran : readAll events state = .ok result) :
    (∀ event ∈ result.1, made event) ∧ good result.2 := by
  induction events generalizing state result with
  | nil =>
    cases ran
    exact ⟨nofun, start⟩
  | cons event rest ih =>
    obtain ⟨first, read, ran⟩ := bind_eq_ok.1 ran
    obtain ⟨others, readOthers, ⟨⟩⟩ := bind_eq_ok.1 ran
    obtain ⟨allowedHere, allowedRest⟩ := forall_mem_cons.1 all
    obtain ⟨madeHere, goodNext⟩ := step allowedHere start (Event.takes_of_read read)
    obtain ⟨madeRest, goodLast⟩ := ih allowedRest goodNext readOthers
    exact ⟨forall_mem_cons.2 ⟨madeHere, madeRest⟩, goodLast⟩

namespace Resolve

def option (path : List ScopeId) : Option PlainExpr → Resolving (Option ResolvedExpr)
  | none => pure none
  | some tree => do return some (← expr path tree)

def block (path : List ScopeId) : Option PlainBlock → Resolving (Option ResolvedBlock)
  | none => pure none
  | some (.mk loc _ parameters body) => do
    let scope ← openScope .block path
    let parameters ← params (scope :: path) parameters
    return some (.mk loc scope parameters (← stmts (scope :: path) body))

theorem expr_call (path : List ScopeId) (loc : Loc) (receiver : Option PlainExpr) (method : String)
    (args : List PlainExpr) (tree : Option PlainBlock) (parens : Bool) :
    expr path (.call loc receiver method args tree parens) = (do
      let receiver ← option path receiver
      let args ← exprs path args
      let tree ← block path tree
      return .call loc receiver method args tree parens) := by
  rcases receiver with _ | receiver <;> rcases tree with _ | ⟨blockLoc, scope, params, body⟩
  all_goals simp only [expr, option, block, bind_assoc, pure_bind]

theorem stmt_jump (path : List ScopeId) (loc : Loc) (kind : JumpKind) (value : Option PlainExpr) :
    stmt path (.jump loc kind value) = (do return .jump loc kind (← option path value)) := by
  rcases value with _ | value
  all_goals simp only [stmt, option, bind_assoc, pure_bind]

theorem params_cons (path : List ScopeId) (name : String) (loc : Loc) (value : Option PlainExpr)
    (rest : List PlainParam) :
    params path (.mk name loc value :: rest) = (do
      let value ← option path value
      declareParameter path name loc
      return .mk name loc value :: (← params path rest)) := by
  rcases value with _ | value
  all_goals simp only [params, option, bind_assoc, pure_bind]

/-- A step that reads some events, with the same success and the same table; `shows` relates what it
makes of them to its result. -/
def Traces (path : List ScopeId) (events : List (Event String Unit))
    (shows : α → List (Event Occurrence ScopeId) → Prop) (run : Resolving α) : Prop :=
  ∀ table, (∃ value table' resolved, run table = .ok (value, table') ∧
      readAll events ⟨path, table⟩ = .ok (resolved, ⟨path, table'⟩) ∧ shows value resolved) ∨
    ∃ error, run table = .error error ∧ readAll events ⟨path, table⟩ = .error error

section Traces

variable {path : List ScopeId} {events more : List (Event String Unit)} {run : Resolving α}
  {next : α → Resolving β} {shows : α → List (Event Occurrence ScopeId) → Prop}
  {after : β → List (Event Occurrence ScopeId) → Prop}

theorem traces_pure {value : α} (holds : shows value []) : Traces path [] shows (pure value) :=
  fun table => .inl ⟨value, table, [], rfl, rfl, holds⟩

theorem traces_fault (error : ScopeError) :
    Traces path [.fault error] shows (throw error : Resolving α) :=
  fun _ => .inr ⟨error, rfl, rfl⟩

theorem run_bind_ok {table middle : ScopeTable} {value : α}
    (ran : run table = .ok (value, middle)) :
    (run >>= next) table = next value middle := by
  change Except.bind (run table) _ = _
  rw [ran]
  rfl

theorem run_bind_error {table : ScopeTable} {error : ScopeError} (ran : run table = .error error) :
    (run >>= next) table = .error error := by
  change Except.bind (run table) _ = _
  rw [ran]
  rfl

theorem Traces.bind (first : Traces path events shows run)
    (second : ∀ value resolved, shows value resolved →
      Traces path more (fun value rest => after value (resolved ++ rest)) (next value)) :
    Traces path (events ++ more) after (run >>= next) := by
  intro table
  rw [readAll_append]
  rcases first table with ⟨value, middle, resolved, ran, read, holds⟩ | ⟨error, ran, read⟩
  · rw [run_bind_ok ran, read, ok_bind]
    rcases second value resolved holds middle with
      ⟨value, last, rest, ran, readRest, holds⟩ | ⟨error, ran, readRest⟩
    · exact .inl ⟨value, last, resolved ++ rest, ran, by rw [readRest]; rfl, holds⟩
    · exact .inr ⟨error, ran, by rw [readRest]; rfl⟩
  · exact .inr ⟨error, run_bind_error ran, by rw [read]; rfl⟩

theorem Traces.map (first : Traces path events shows run) {change : α → β}
    (holds : ∀ value resolved, shows value resolved → after (change value) resolved) :
    Traces path events after (run >>= fun value => pure (change value)) := by
  rw [← append_nil events]
  refine first.bind fun value resolved shown => traces_pure ?_
  rw [append_nil]
  exact holds value resolved shown

/-- One event, read by the step that resolution takes for it. -/
theorem traces_event (make : α → Event Occurrence ScopeId) {event : Event String Unit}
    (good : ∀ table result, run table = .ok result → shows result.1 [make result.1])
    (same : ∀ table, event.read ⟨path, table⟩ =
      (run table >>= fun read => pure (make read.1, ⟨path, read.2⟩))) :
    Traces path [event] shows run := by
  intro table
  rw [readAll, same]
  cases ran : run table with
  | error error => exact .inr ⟨error, rfl, rfl⟩
  | ok result => exact .inl ⟨_, _, _, rfl, rfl, good table result ran⟩

theorem Traces.meet {name : String} {loc : Loc} (rest : Traces path events (fun value resolved =>
      shows value (.meet (innermost path) name loc :: resolved)) run) :
    Traces path (.meet () name loc :: events) shows run := by
  intro table
  rw [readAll, Event.read, pure_bind]
  rcases rest table with ⟨value, last, resolved, ran, read, shown⟩ | ⟨error, ran, read⟩
  · exact .inl ⟨value, last, _, ran, by rw [read]; rfl, shown⟩
  · exact .inr ⟨error, ran, by rw [read]; rfl⟩

theorem traces_scope (kind : ScopeKind) {inner : ScopeId → Resolving α}
    (traced : ∀ scope, Traces (scope :: path) events
      (fun value resolved => shows value (.enter kind scope :: (resolved ++ [.leave])))
      (inner scope)) :
    Traces path (.enter kind () :: (events ++ [.leave])) shows (openScope kind path >>= inner) := by
  intro table
  rw [readAll, Event.read, pure_bind, readAll_append]
  rcases traced table.nextId (table.openScope kind path) with
    ⟨value, last, resolved, ran, read, shown⟩ | ⟨error, ran, read⟩
  · exact .inl ⟨value, last, _, ran, by rw [read]; rfl, shown⟩
  · exact .inr ⟨error, ran, by rw [read]; rfl⟩

end Traces

/-- What a name is resolved to. -/
def IsOccurrence (name : String) (occurrence : Occurrence) : Prop :=
  occurrence.name = name ∧ occurrence.target.isSome = true

section Occurrences

variable {path : List ScopeId} {name : String} {loc : Loc} {table : ScopeTable}
  {result : Occurrence × ScopeTable}

theorem reference_isOccurrence (ran : reference path name loc table = .ok result) :
    IsOccurrence name result.1 := by
  rw [reference_eq] at ran
  split at ran
  · cases ran
    exact ⟨rfl, rfl⟩
  · split at ran
    · cases ran
      exact ⟨rfl, rfl⟩
    · split at ran <;> cases ran
      exact ⟨rfl, rfl⟩

theorem assignment_isOccurrence (ran : assignment path name loc table = .ok result) :
    IsOccurrence name result.1 := by
  rw [assignment_eq] at ran
  split at ran <;> cases ran <;> exact ⟨rfl, rfl⟩

end Occurrences

theorem traces_name (written : Bool) (path : List ScopeId) (loc : Loc) (name : String) :
    Traces path [.name written () loc name]
      (fun occurrence events => events = [.name written (innermost path) loc occurrence] ∧
        IsOccurrence name occurrence)
      (if written then assignment path name loc else reference path name loc) := by
  refine traces_event (Event.name written (innermost path) loc) (fun table result ran => ⟨rfl, ?_⟩)
    fun _ => rfl
  cases written with
  | true => exact assignment_isOccurrence ran
  | false => exact reference_isOccurrence ran

theorem traces_global (written : Bool) (path : List ScopeId) (loc : Loc) (name : String) :
    Traces path [.global written loc name] (fun _ events => events = [.global written loc name])
      (global name loc written) :=
  traces_event (fun _ => .global written loc name) (fun _ _ _ => rfl) fun _ => rfl

theorem traces_declare (path : List ScopeId) (name : String) (loc : Loc) :
    Traces path [.declare () name loc]
      (fun _ events => events = [.declare (innermost path) name loc])
      (declareParameter path name loc) :=
  traces_event (fun _ => .declare (innermost path) name loc) (fun _ _ _ => rfl) fun _ => rfl

/-- What resolution makes of a tree: its events, and the tree with all that it adds. -/
def Made {τ τ' : Type} (events : τ' → List (Event Occurrence ScopeId)) (erase : τ' → τ) (tree : τ)
    (resolved : τ') (read : List (Event Occurrence ScopeId)) : Prop :=
  events resolved = read ∧ erase resolved = tree

theorem innermost_cons (scope : ScopeId) (path : List ScopeId) :
    innermost (scope :: path) = scope :=
  rfl

attribute [local simp] Made Expr.events Expr.targetEvents Stmt.events optionEvents exprsEvents
  targetsEvents blockEvents paramsEvents stmtsEvents Expr.relabel Expr.relabel_call
    Stmt.relabel.eq_1 Stmt.relabel.eq_2
  Stmt.relabel.eq_3 Stmt.relabel.eq_4 Stmt.relabel_jump relabelExprs relabelParams_eq_map
  relabelStmts Block.relabel Block.loc Block.params Block.body Param.relabel Param.name Param.loc
  Param.default innermost_cons

mutual

theorem traces_expr (path : List ScopeId) : (tree : PlainExpr) → Traces path (tree.events ())
    (Made (Expr.events (innermost path)) (Expr.relabel erasing) tree) (expr path tree)
  | .literal .. | .symbol .. | .constant .. => traces_pure ⟨rfl, rfl⟩
  | .name loc name =>
    (traces_name false path loc name).map fun _ _ made => by simp_all [erasing, IsOccurrence]
  | .global loc name => (traces_global false path loc name).map fun _ _ made => by simp_all
  | .array _ elements => (traces_exprs path elements).map fun _ _ made => by simp_all
  | .splat _ value => (traces_expr path value).map fun _ _ made => by simp_all
  | .range _ start stop _ => (traces_expr path start).bind fun _ _ first =>
    (traces_expr path stop).map fun _ _ second => by simp_all
  | .binary _ _ left right => (traces_expr path left).bind fun _ _ first =>
    (traces_expr path right).map fun _ _ second => by simp_all
  | .unary _ _ operand => (traces_expr path operand).map fun _ _ made => by simp_all
  | .ternary _ condition thenValue elseValue => (traces_expr path condition).bind fun _ _ first =>
    (traces_expr path thenValue).bind fun _ _ second =>
      (traces_expr path elseValue).map fun _ _ third => by simp_all
  | .lambda _ _ parameters body => traces_scope .lambda fun scope =>
    (traces_params (scope :: path) parameters).bind fun _ _ first =>
      (traces_stmts (scope :: path) body).map fun _ _ second => by simp_all
  | .call _ receiver _ args tree _ => by
    rw [expr_call]
    exact (traces_option path receiver).bind fun _ _ first =>
      (traces_exprs path args).bind fun _ _ second =>
        (traces_block path tree).map fun _ _ third => by simp_all
  | .index _ value args => (traces_expr path value).bind fun _ _ first =>
    (traces_exprs path args).map fun _ _ second => by simp_all
  | .assign _ place value => (traces_target path place).bind fun _ _ first =>
    (traces_expr path value).map fun _ _ second => by simp_all
  | .opAssign _ place _ value => (traces_target path place).bind fun _ _ first =>
    (traces_expr path value).map fun _ _ second => by simp_all
  | .multiAssign _ places values => (traces_targets path places).bind fun _ _ first =>
    (traces_exprs path values).map fun _ _ second => by simp_all
  | .block (.mk _ _ parameters body) => traces_scope .block fun scope =>
    (traces_params (scope :: path) parameters).bind fun _ _ first =>
      (traces_stmts (scope :: path) body).map fun _ _ second => by simp_all
  | .param _ | .stmt _ => traces_fault _

theorem traces_option (path : List ScopeId) : (tree : Option PlainExpr) →
    Traces path (optionEvents () tree)
      (Made (optionEvents (innermost path)) (Option.map (Expr.relabel erasing)) tree)
      (option path tree)
  | none => traces_pure ⟨rfl, rfl⟩
  | some tree => (traces_expr path tree).map fun _ _ made => by simp_all

theorem traces_exprs (path : List ScopeId) : (trees : List PlainExpr) →
    Traces path (exprsEvents () trees)
      (Made (exprsEvents (innermost path)) (relabelExprs erasing) trees) (exprs path trees)
  | [] => traces_pure ⟨rfl, rfl⟩
  | first :: rest => (traces_expr path first).bind fun _ _ one =>
    (traces_exprs path rest).map fun _ _ others => by simp_all

theorem traces_block (path : List ScopeId) : (tree : Option PlainBlock) →
    Traces path (blockEvents tree)
      (Made blockEvents (Option.map (Block.relabel erasing)) tree) (block path tree)
  | none => traces_pure ⟨rfl, rfl⟩
  | some (.mk _ _ parameters body) => traces_scope .block fun scope =>
    (traces_params (scope :: path) parameters).bind fun _ _ first =>
      (traces_stmts (scope :: path) body).map fun _ _ second => by simp_all

theorem traces_target (path : List ScopeId) :
    (tree : PlainExpr) → Traces path (tree.targetEvents ())
    (Made (Expr.targetEvents (innermost path)) (Expr.relabel erasing) tree) (target path tree)
  | .name loc name =>
    (traces_name true path loc name).map fun _ _ made => by simp_all [erasing, IsOccurrence]
  | .global loc name => (traces_global true path loc name).map fun _ _ made => by simp_all
  | .index _ value args => (traces_expr path value).bind fun _ _ first =>
    (traces_exprs path args).map fun _ _ second => by simp_all
  | .literal .. | .symbol .. | .constant .. | .array .. | .splat .. | .range .. | .binary ..
  | .unary .. | .ternary .. | .lambda .. | .call .. | .assign .. | .opAssign .. | .multiAssign ..
  | .block _ | .param _ | .stmt _ => traces_fault _

theorem traces_targets (path : List ScopeId) : (trees : List PlainExpr) →
    Traces path (targetsEvents () trees)
      (Made (targetsEvents (innermost path)) (relabelExprs erasing) trees) (targets path trees)
  | [] => traces_pure ⟨rfl, rfl⟩
  | first :: rest => (traces_target path first).bind fun _ _ one =>
    (traces_targets path rest).map fun _ _ others => by simp_all

theorem traces_params (path : List ScopeId) : (trees : List PlainParam) →
    Traces path (paramsEvents () trees)
      (Made (paramsEvents (innermost path)) (relabelParams erasing) trees) (params path trees)
  | [] => traces_pure ⟨rfl, rfl⟩
  | .mk name loc value :: rest => by
    rw [params_cons]
    exact ((traces_option path value).bind fun _ _ first =>
      (traces_declare path name loc).bind fun _ _ second =>
        (traces_params path rest).map fun _ _ third => by simp_all).meet

theorem traces_stmt (path : List ScopeId) : (tree : PlainStmt) → Traces path (tree.events ())
    (Made (Stmt.events (innermost path)) (Stmt.relabel erasing) tree) (stmt path tree)
  | .define _ _ _ parameters body => traces_scope .function fun scope =>
    (traces_params (scope :: path) parameters).bind fun _ _ first =>
      (traces_stmts (scope :: path) body).map fun _ _ second => by simp_all
  | .expression _ value => (traces_expr path value).map fun _ _ made => by simp_all
  | .conditional _ condition thenBody elseBody _ true _ =>
    (traces_stmts path thenBody).bind fun _ _ first =>
      (traces_expr path condition).bind fun _ _ second =>
        (traces_stmts path elseBody).map fun _ _ third => by simp_all
  | .conditional _ condition thenBody elseBody _ false _ =>
    (traces_expr path condition).bind fun _ _ first =>
      (traces_stmts path thenBody).bind fun _ _ second =>
        (traces_stmts path elseBody).map fun _ _ third => by simp_all
  | .whileLoop _ condition body => (traces_expr path condition).bind fun _ _ first =>
    (traces_stmts path body).map fun _ _ second => by simp_all
  | .jump _ _ value => by
    rw [stmt_jump]
    exact (traces_option path value).map fun _ _ made => by simp_all
  | .bare _ => traces_fault _

theorem traces_stmts (path : List ScopeId) : (trees : List PlainStmt) →
    Traces path (stmtsEvents () trees)
      (Made (stmtsEvents (innermost path)) (relabelStmts erasing) trees) (stmts path trees)
  | [] => traces_pure ⟨rfl, rfl⟩
  | first :: rest => (traces_stmt path first).bind fun _ _ one =>
    (traces_stmts path rest).map fun _ _ others => by simp_all

end

end Resolve

section Resolve

variable {program : PlainProgram}

variable {resolution : Resolution}

theorem resolve_ok (resolved : resolve program = .ok resolution) :
    readAll (stmtsEvents () program) ⟨[0], .initial (definedMethods program)⟩ =
        .ok (stmtsEvents 0 resolution.program, ⟨[0], resolution.table⟩) ∧
      relabelStmts erasing resolution.program = program := by
  obtain ⟨⟨trees, table⟩, ran, ⟨⟩⟩ := bind_eq_ok.1 resolved
  rcases traces_stmts [0] program (.initial (definedMethods program)) with
    ⟨_, _, _, ran', read, rfl, erased⟩ | ⟨_, ran', -⟩
  · cases ran.symm.trans ran'
    exact ⟨read, erased⟩
  · cases ran.symm.trans ran'

theorem resolve_faultless (resolved : resolve program = .ok resolution) :
    ∀ error, .fault error ∉ stmtsEvents 0 resolution.program := by
  obtain ⟨made, -⟩ := @readAll_keeps (fun _ => True) (fun _ => True)
    (fun event => ∀ error, event ≠ .fault error)
    (fun _ _ takes => ⟨by cases takes <;> exact nofun, trivial⟩) _ (fun _ _ => trivial) _ _ trivial
    (resolve_ok resolved).1
  exact fun error there => made _ there error rfl

theorem resolve_isOk (program : PlainProgram) : (resolve program).isOk =
    (readAll (stmtsEvents () program) ⟨[0], .initial (definedMethods program)⟩).isOk := by
  rcases traces_stmts [0] program (.initial (definedMethods program)) with
    ⟨_, _, _, ran, read, -⟩ | ⟨_, ran, read⟩ <;> simp [resolve, StateT.run, ran, read] <;> rfl

theorem resolve_eq_error_iff {error : ScopeError} : resolve program = .error error ↔
    readAll (stmtsEvents () program) ⟨[0], .initial (definedMethods program)⟩ = .error error := by
  rcases traces_stmts [0] program (.initial (definedMethods program)) with
    ⟨_, _, _, ran, read, -⟩ | ⟨_, ran, read⟩ <;> simp [resolve, StateT.run, ran, read]

end Resolve

end Hoist
