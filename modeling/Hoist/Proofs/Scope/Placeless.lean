import Hoist.Proofs.Scope.Scoped
import Hoist.Proofs.Syntax.SameWalk

/-!
Resolution does not look at places.  A reform that keeps literals and the order in which
conditionals are read is resolved if the tree is, and only then: while both are read, the tables
differ in the places that they note alone.
-/

namespace Hoist

open List

open Resolve

section Placeless

def Binding.placeless (binding : Binding) : Binding := { binding with loc := none }

def Scope.placeless (scope : Scope) : Scope :=
  { scope with bindings := scope.bindings.map Binding.placeless }

namespace ScopeTable

/-- Tables that differ in places, globals and the order of methods alone. -/
structure Same (table other : ScopeTable) : Prop where
  scopes : table.scopes.map Scope.placeless = other.scopes.map Scope.placeless
  methods : ∀ name, (table.methods.find? name).isSome = (other.methods.find? name).isSome

theorem find?_placeless (bindings : Bindings) (name : String) :
    (Bindings.find? (bindings.map Binding.placeless) name).isSome =
      (bindings.find? name).isSome := by
  rw [Bindings.find?, find?_map, Option.isSome_map]
  rfl

namespace Same

variable {table other : ScopeTable} (same : table.Same other)
include same

theorem scope? (id : ScopeId) :
    (table.scope? id).map Scope.placeless = (other.scope? id).map Scope.placeless := by
  have here := congrArg (·[id]?) same.scopes
  simp only [getElem?_map] at here
  exact here

theorem nextId : table.nextId = other.nextId := by
  have lengths := congrArg List.length same.scopes
  rwa [length_map, length_map] at lengths

/-- The scopes of one number, in both tables. -/
theorem cases (id : ScopeId) : (table.scope? id = none ∧ other.scope? id = none) ∨
      ∃ scope otherScope, table.scope? id = some scope ∧ other.scope? id = some otherScope ∧
        scope.placeless = otherScope.placeless := by
  have found := same.scope? id
  cases here : table.scope? id with
  | none =>
    rw [here, Option.map_none, eq_comm, Option.map_eq_none_iff] at found
    exact .inl ⟨rfl, found⟩
  | some scope =>
    rw [here, Option.map_some, eq_comm, Option.map_eq_some_iff] at found
    obtain ⟨otherScope, there, alike⟩ := found
    exact .inr ⟨scope, otherScope, rfl, there, alike.symm⟩

theorem binding? (id : ScopeId) (name : String) :
    (table.binding? id name).isSome = (other.binding? id name).isSome := by
  unfold ScopeTable.binding?
  rcases same.cases id with ⟨here, there⟩ | ⟨scope, otherScope, here, there, alike⟩
  · rw [here, there]
  · rw [here, there, Option.bind_some, Option.bind_some, ← find?_placeless scope.bindings,
      ← find?_placeless otherScope.bindings]
    exact congrArg (fun scope : Scope => (scope.bindings.find? name).isSome) alike

theorem isClosure (id : ScopeId) : table.isClosure id = other.isClosure id := by
  unfold ScopeTable.isClosure
  rcases same.cases id with ⟨here, there⟩ | ⟨scope, otherScope, here, there, alike⟩
  · rw [here, there]
  · rw [here, there]
    exact congrArg ScopeKind.isClosure (Scope.mk.inj alike).1

theorem lookup? (name : String) (path : List ScopeId) :
    table.lookup? name path = other.lookup? name path := by
  induction path with
  | nil => rfl
  | cons id rest ih =>
    rw [ScopeTable.lookup?, ScopeTable.lookup?, same.binding? id name, same.isClosure id,
      ih]

theorem throughClosure (path : List ScopeId) (owner : ScopeId) :
    table.throughClosure path owner = other.throughClosure path owner := by
  unfold ScopeTable.throughClosure
  congr 1
  exact funext same.isClosure

theorem openScope (kind : ScopeKind) (path : List ScopeId) :
    (table.openScope kind path).Same (other.openScope kind path) where
  scopes := by
    rw [ScopeTable.openScope, ScopeTable.openScope, map_append, map_append, same.scopes]
  methods := same.methods

theorem updateScope (id : ScopeId) {change otherChange : Scope → Scope}
    (alike : ∀ scope other, scope.placeless = other.placeless →
      (change scope).placeless = (otherChange other).placeless) :
    (table.updateScope id change).Same (other.updateScope id otherChange) where
  scopes := by
    refine ext_getElem? fun index => ?_
    have atIndex := same.cases index
    simp only [ScopeTable.scope?] at atIndex
    simp only [ScopeTable.updateScope, getElem?_map, getElem?_modify]
    rcases atIndex with ⟨here, there⟩ | ⟨scope, otherScope, here, there, alikeHere⟩
    · rw [here, there]
      rfl
    · rw [here, there]
      simp only [Option.map_eq_map, Option.map_some, Option.some.injEq]
      split
      · exact alike scope otherScope alikeHere
      · exact alikeHere
  methods := same.methods

theorem addBinding (id : ScopeId) {binding otherBinding : Binding}
    (alike : binding.placeless = otherBinding.placeless) :
    (table.addBinding id binding).Same (other.addBinding id otherBinding) := by
  refine same.updateScope id fun scope otherScope alikeScope => ?_
  obtain ⟨sameKind, sameAround, sameBindings⟩ := Scope.mk.inj alikeScope
  simp [Scope.placeless, sameKind, sameAround, sameBindings, alike]

theorem updateBinding (id : ScopeId) (name : String) (inClosure : Bool) :
    (table.updateBinding id name (·.written inClosure)).Same
      (other.updateBinding id name (·.written inClosure)) := by
  refine same.updateScope id fun scope otherScope alikeScope => ?_
  obtain ⟨sameKind, sameAround, sameBindings⟩ := Scope.mk.inj alikeScope
  have commutes (bindings : Bindings) :
      (bindings.update name (·.written inClosure)).map Binding.placeless =
        Bindings.update (bindings.map Binding.placeless) name (·.written inClosure) := by
    rw [Bindings.update, Bindings.update, map_map, map_map]
    refine map_congr_left fun binding _ => ?_
    rw [Function.comp_apply, Function.comp_apply, apply_ite Binding.placeless]
    rfl
  simp only [Scope.placeless, commutes, sameBindings, sameKind, sameAround]

theorem addMethod (name : String) : ScopeTable.Same
      { table with methods :=
        table.methods ++ [({ name, kind := .function, loc := none } : Binding)] }
      { other with
        methods := other.methods ++ [({ name, kind := .function, loc := none } : Binding)] } where
  scopes := same.scopes
  methods query := by
    have found := same.methods query
    rw [Bindings.find?, Bindings.find?] at found ⊢
    rw [find?_append, find?_append, Option.isSome_or, Option.isSome_or, found]

end Same

end ScopeTable

end Placeless

/-- An event without its place. -/
def Event.unplaced : Event String Unit → Event String Unit
  | .name written scope _ word => .name written scope default word
  | .global written _ word => .global written default word
  | .meet scope word _ => .meet scope word default
  | .declare scope word _ => .declare scope word default
  | event => event

/-- Readings with tables that differ in places alone, or faults both. -/
inductive SameRead {α β : Type} :
    Except ScopeError (α × Reading) → Except ScopeError (β × Reading) → Prop
  | ok {made : α} {other : β} {path : List ScopeId} {table table' : ScopeTable} :
      table.Same table' → SameRead (.ok (made, ⟨path, table⟩)) (.ok (other, ⟨path, table'⟩))
  | error (fault other : ScopeError) : SameRead (.error fault) (.error other)

theorem Event.read_unplaced {table table' : ScopeTable} (tables : table.Same table')
    (path : List ScopeId) (event : Event String Unit) :
    SameRead (event.read ⟨path, table⟩) (event.unplaced.read ⟨path, table'⟩) := by
  cases event with
  | name written _ loc word =>
    have sameMethods := tables.methods word
    cases written with
    | true =>
      simp only [unplaced, read, if_true, assignment_eq, tables.lookup? word path,
        tables.throughClosure]
      cases table'.lookup? word path with
      | some scope => exact .ok (tables.updateBinding scope word _)
      | none => exact .ok (tables.addBinding _ rfl)
    | false =>
      simp only [unplaced, read, Bool.false_eq_true, if_false, reference_eq,
        tables.lookup? word path, sameMethods]
      cases table'.lookup? word path with
      | some scope => exact .ok tables
      | none =>
        dsimp only
        split
        · exact .ok tables
        · split
          · exact .ok (tables.addMethod word)
          · exact .error _ _
  | declare _ word loc =>
    simp only [unplaced, read, declareParameter_eq, tables.binding? (innermost path) word]
    split
    · exact .error _ _
    · exact .ok (tables.addBinding _ rfl)
  | global => exact .ok ⟨tables.scopes, tables.methods⟩
  | meet | leave => exact .ok tables
  | enter kind =>
    simp only [unplaced, read, tables.nextId]
    exact .ok (tables.openScope kind path)
  | fault error => exact .error _ _

theorem readAll_unplaced (events : List (Event String Unit)) {table table' : ScopeTable}
    (tables : table.Same table') (path : List ScopeId) :
    SameRead (readAll events ⟨path, table⟩)
      (readAll (events.map Event.unplaced) ⟨path, table'⟩) := by
  induction events generalizing path table table' with
  | nil => exact .ok tables
  | cons event rest ih =>
    have first := event.read_unplaced tables path
    rw [map_cons, readAll, readAll]
    generalize event.read ⟨path, table⟩ = read at first
    generalize event.unplaced.read ⟨path, table'⟩ = read' at first
    cases first with
    | error fault other => exact .error fault other
    | @ok made other path table table' tables =>
      have others := ih tables path
      simp only [ok_bind]
      generalize readAll rest ⟨path, table⟩ = read at others
      generalize readAll (rest.map Event.unplaced) ⟨path, table'⟩ = read' at others
      cases others with
      | error fault other => exact .error fault other
      | ok tables => exact .ok tables

/-- A part of a tree that a reform leaves what it is, and where it is read. -/
def Node.KeptBy (change : Reform) : Node String Unit → Prop
  | .expr (.literal _ value) => change.literal value = .literal default value
  | .stmt (.conditional _ _ thenBody elseBody _ marked _) =>
    change.modifier marked thenBody elseBody = marked
  | _ => True

/-- A reform leaves all parts of a tree what they are. -/
abbrev AllKept (change : Reform) (nodes : List (Node String Unit)) : Prop :=
  ∀ node ∈ nodes, node.KeptBy change

section Events

variable {change : Reform} {wording : Wording String}

attribute [local simp] Node.children Node.exprs Node.stmts Node.opened Node.reform Expr.reform_call
  Block.reform Param.reform reformExprs_eq_map reformStmts_eq_map reformParams_eq_map Param.default
  Param.name Block.params Block.body Function.comp_def Node.stands Node.opening Node.closing
  Node.isTarget Expr.isTarget Event.unplaced

namespace Node

variable {node : PlainNode}

/-- A reform that leaves a part what it is keeps the order of its children. -/
theorem children_kept (valid : node.WellFormed wording) (kept : node.KeptBy change) :
    (node.reform change).children = node.children.map (Prod.map id (Node.reform change)) := by
  rcases node with tree | ⟨_, _, _ | _⟩ | ⟨_, _, _, _⟩ | tree
  · obtain ⟨position, valid⟩ := valid
    cases tree with
    | literal => simp_all [KeptBy, Expr.reform]
    | block | param | stmt => exact False.elim valid
    | call _ receiver _ _ block _ => cases receiver <;> cases block <;> simp
    | _ => simp [Expr.reform]
  · simp
  · simp
  · simp
  · obtain ⟨chain, valid⟩ := valid
    cases tree with
    | conditional _ _ _ _ _ modifier _ => cases modifier <;> simp_all [KeptBy, Stmt.reform]
    | jump _ _ value => cases value <;> simp [Stmt.reform]
    | bare => exact False.elim valid
    | _ => simp [Stmt.reform]

theorem opening_reform (valid : node.WellFormed wording) (kept : node.KeptBy change)
    {written : Bool} (target : written = true → node.isTarget = true) :
    (node.reform change).stands written ∧
      (node.reform change).opening () written = (node.opening () written).map Event.unplaced ∧
      (node.reform change).closing () = (node.closing ()).map Event.unplaced := by
  rcases node with tree | ⟨_, _, _ | _⟩ | ⟨_, _, _, _⟩ | tree
  · obtain ⟨position, valid⟩ := valid
    cases tree with
    | literal => cases written <;> simp_all [KeptBy, Expr.reform]
    | block | param | stmt => exact False.elim valid
    | _ => cases written <;> simp_all [Expr.reform]
  · simp
  · simp
  · simp
  · obtain ⟨chain, valid⟩ := valid
    cases tree with
    | jump _ _ value => cases value <;> simp [Stmt.reform]
    | bare => exact False.elim valid
    | _ => simp [Stmt.reform]

theorem events_reform (valid : node.WellFormed wording) (kept : AllKept change node.walk)
    (written : Bool) (target : written = true → node.isTarget = true) :
    (node.reform change).events () written = (node.events () written).map Event.unplaced := by
  induction node using Node.induct generalizing written with
  | step node ih =>
    have here : node.KeptBy change := kept node (by rw [node.walk_eq, valid.here]; simp)
    obtain ⟨stands, opens, closes⟩ := opening_reform valid here target
    rw [events_eq () stands, events_eq () (valid.stands target), opens,
      closes, children_kept valid here, map_append, map_append, map_flatMap,
      flatMap_map]
    congr 2
    refine flatMap_congr fun child member => ?_
    refine ih child member (valid.children child member) (fun part there => kept part ?_) _
      (valid.isTarget_child member)
    rw [node.walk_eq, mem_append, mem_flatMap]
    exact .inr ⟨child, member, there⟩

end Node

end Events

theorem Node.defines_reform (change : Reform) (name : String) (node : PlainNode) :
    (node.reform change).defines name = node.defines name := by
  rcases node with tree | tree | tree | tree
  · rfl
  · rfl
  · rfl
  · rcases tree with _ | _ | _ | _ | ⟨_, _, _ | _⟩ | _
    all_goals rfl

theorem Reform.keepsLeaves_unplaced : unplaced.KeepsLeaves := fun _ => rfl

theorem Reform.keepsLeaves_reread : reread.KeepsLeaves := by
  intro value
  cases value with
  | float x =>
    simp only [reread]
    split <;> rfl
  | _ => rfl

variable {program : PlainProgram} {wording : Wording String}

theorem definesIn_reform {change : Reform} (leaves : change.KeepsLeaves)
    (valid : stmtsWellFormed wording false program) (name : String) :
    definesIn (reformStmts change program) name = definesIn program name := by
  rw [definesIn, (walkStmts_reform leaves program _ valid).any_eq, any_map]
  exact congrArg _ (funext fun node => node.defines_reform change name)

theorem resolve_reform_isOk {change : Reform} (leaves : change.KeepsLeaves)
    (valid : stmtsWellFormed wording false program) (kept : AllKept change (walkStmts program)) :
    (resolve (reformStmts change program)).isOk = (resolve program).isOk := by
  have initial : (ScopeTable.initial (definedMethods program)).Same
      (ScopeTable.initial (definedMethods (reformStmts change program))) := by
    refine ⟨rfl, fun name => ?_⟩
    have placed : Bindings.Placed [] := fun _ member => absurd member not_mem_nil
    change ((definedMethods program).find? name).isSome = ((definedMethods _).find? name).isSome
    rw [definedMethods_eq, definedMethods_eq, (foldl_collectMethod _ placed).2,
      (foldl_collectMethod _ placed).2]
    exact congrArg _ (definesIn_reform leaves valid name).symm
  have same : stmtsEvents () (reformStmts change program) =
      (stmtsEvents () program).map Event.unplaced := by
    rw [Node.stmtsEvents_eq, Node.stmtsEvents_eq, reformStmts_eq_map, map_flatMap,
      flatMap_map]
    refine flatMap_congr fun tree member => ?_
    refine Node.events_reform (Node.wellFormed_stmts valid tree member) (fun part there => ?_) false
      fun isTarget => absurd isTarget Bool.false_ne_true
    exact kept part (by rw [Node.walkStmts_eq]; exact mem_flatMap.2 ⟨tree, member, there⟩)
  have both := readAll_unplaced (stmtsEvents () program) initial [0]
  rw [resolve_isOk, resolve_isOk, same]
  generalize readAll (stmtsEvents () program) _ = read at both
  generalize readAll ((stmtsEvents () program).map _) _ = read' at both
  cases both <;> rfl

theorem allKept_unplaced (nodes : List PlainNode) : AllKept .unplaced nodes := by
  intro node _
  unfold Node.KeptBy
  split <;> trivial

/-- What the text of a program is read as can be resolved if the program can, as long as no
infinite float and no conditional that follows its statement is written in another way. -/
theorem Reparsed.resolve_isOk {floats : Float → Prop} {again : PlainProgram}
    (reparsed : Reparsed floats program again)
    (valid : stmtsWellFormed wording false program) (kept : AllKept .reread (walkStmts program)) :
    (resolve again).isOk = (resolve program).isOk := by
  calc (resolve again).isOk
      = (resolve (reformStmts .unplaced again)).isOk :=
        (resolve_reform_isOk Reform.keepsLeaves_unplaced reparsed.wellFormed
          (allKept_unplaced _)).symm
    _ = (resolve (reformStmts .unplaced (reformStmts .reread program))).isOk := by
        rw [reparsed.unplaced]
    _ = (resolve (reformStmts .reread program)).isOk :=
        resolve_reform_isOk Reform.keepsLeaves_unplaced reparsed.rereadWellFormed
          (allKept_unplaced _)
    _ = (resolve program).isOk := resolve_reform_isOk Reform.keepsLeaves_reread valid kept

end Hoist
