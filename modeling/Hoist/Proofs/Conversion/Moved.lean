import Hoist.Proofs.Conversion.Hygienic
import Hoist.Proofs.Conversion.Sites

/-!
The method of a hoisted block is read.  Its parameters are the captured variables, the lambda in it
has the parameters of the block, or takes them from its argument, and behind them stands the
converted body, which is resolved to a copy of the block's.
-/

namespace Hoist

open List

open Resolve (Resolving)

variable {α β : Type}

variable {name : String}

namespace Layer

def declareAll (layer : Layer) (kind : BindingKind) (names : List String) : Layer :=
  { layer with names := layer.names ++ names.map (·, kind) }

theorem declareAll_nil (layer : Layer) (kind : BindingKind) : layer.declareAll kind [] = layer := by
  rw [declareAll, map_nil, append_nil]

theorem declareAll_cons (layer : Layer) (kind : BindingKind) (name : String) (rest : List String) :
    layer.declareAll kind (name :: rest) = (layer.declare name kind).declareAll kind rest := by
  simp [declareAll, declare]

variable {layer : Layer}

theorem has_declareAll {kind : BindingKind} {names : List String} :
    (layer.declareAll kind names).has name ↔ layer.has name ∨ name ∈ names := by
  simp [has, declareAll]

theorem find?_declare_eq_none {outer : Layers} {other : String} {kind : BindingKind}
    (unseen : Layers.find? name (layer :: outer) = none) (different : name ≠ other) :
    Layers.find? name (layer.declare other kind :: outer) = none := by
  have notHas := Layers.not_has_of_find? unseen
  rw [Layers.find?_cons, if_neg notHas] at unseen
  rw [Layers.find?_cons, if_neg fun has => (has_declare.1 has).elim notHas different]
  exact unseen

end Layer

namespace Resolve

/-- A step that succeeds inside some layers.  It leaves the outer layers as they are; `post` tells
of the innermost layer after it and of the result. -/
def Goes (defined : String → Bool) (path : List ScopeId) (outer : Layers) (before : Layer)
    (post : Layer → α → Prop) (run : Resolving α) : Prop :=
  Layers.path (before :: outer) = path → ∀ ⦃table⦄, table.Shows (before :: outer) →
    table.Knows defined → ∃ value next after, run table = .ok (value, next) ∧
      after.scope = before.scope ∧ next.Shows (after :: outer) ∧ next.Knows defined ∧
      post after value

section Goes

variable {defined : String → Bool} {path : List ScopeId} {outer : Layers} {before : Layer}
  {post : Layer → α → Prop} {goal : Layer → β → Prop}

theorem goes_pure {value : α} (holds : post before value) :
    Goes defined path outer before post (pure value) :=
  fun _ table shown knows => ⟨value, table, before, rfl, rfl, shown, knows, holds⟩

theorem Goes.bind {first : Resolving α} {next : α → Resolving β}
    (goes : Goes defined path outer before post first)
    (step : ∀ middle value, post middle value → Goes defined path outer middle goal (next value)) :
    Goes defined path outer before goal (first >>= next) := by
  intro there table shown knows
  obtain ⟨value, between, middle, ran, same, shown, knows, holds⟩ := goes there shown knows
  have thereMiddle : Layers.path (middle :: outer) = path := by
    rw [Layers.path_cons, same]
    exact there
  obtain ⟨result, last, after, ranNext, sameLast, shown, knows, holds⟩ :=
    step middle value holds thereMiddle shown knows
  exact ⟨result, last, after, (run_bind ran).trans ranNext, sameLast.trans same, shown, knows,
    holds⟩

variable {trees : List PlainParam} {second : Layer → List ResolvedStmt → Prop} {run : Resolving α}
  {argument : String} {scope : ScopeId}

theorem Goes.mono {weaker : Layer → α → Prop} (goes : Goes defined path outer before post run)
    (implies : ∀ after value, post after value → weaker after value) :
    Goes defined path outer before weaker run := by
  intro there table shown knows
  obtain ⟨value, next, after, ran, same, shown, knows, holds⟩ := goes there shown knows
  exact ⟨value, next, after, ran, same, shown, knows, implies after value holds⟩

/-- A result is put together from one part. -/
theorem Goes.map (goes : Goes defined path outer before post run) {build : α → β}
    (built : ∀ after value, post after value → goal after (build value)) :
    Goes defined path outer before goal (do return build (← run)) :=
  goes.bind fun after value holds => goes_pure (built after value holds)

/-- Code in a scope of its own, which is left at the end. -/
theorem goes_openScope {kind : ScopeKind} {next : ScopeId → Resolving β} {final : β → Prop}
    (step : ∀ id, Goes defined (id :: path) (before :: outer) ⟨id, kind, []⟩ (fun _ => final)
      (next id)) :
    Goes defined path outer before (fun after value => after = before ∧ final value)
      (openScope kind path >>= next) := by
  rintro rfl table shown knows
  obtain ⟨value, last, inner, ran, -, shown, knows, holds⟩ :=
    step table.nextId rfl (shown.openScope kind) (knows.of_methods rfl)
  exact ⟨value, last, before, ran, rfl, shown.2, knows, rfl, holds⟩

/-- Statements after others. -/
theorem Goes.append {left right : List PlainStmt} {first : Layer → List ResolvedStmt → Prop}
    (goes : Goes defined path outer before first (stmts path left))
    (step : ∀ middle front, first middle front → Goes defined path outer middle (fun after back =>
      second after (front ++ back)) (stmts path right)) :
    Goes defined path outer before second (stmts path (left ++ right)) := by
  intro there table shown knows
  obtain ⟨front, between, middle, ran, same, shown, knows, holds⟩ := goes there shown knows
  have thereMiddle : Layers.path (middle :: outer) = path := by
    rw [Layers.path_cons, same]
    exact there
  obtain ⟨back, last, after, ranNext, sameLast, shown, knows, holds⟩ :=
    step middle front holds thereMiddle shown knows
  exact ⟨front ++ back, last, after, stmts_append ran ranNext, sameLast.trans same, shown, knows,
    holds⟩

theorem Goes.expression {value : PlainExpr} {loc : Loc} {first : Layer → ResolvedExpr → Prop}
    (goes : Goes defined path outer before first (expr path value))
    (built : ∀ after copy, first after copy → second after [.expression loc copy]) :
    Goes defined path outer before second (stmts path [.expression loc value]) := by
  have statement : Goes defined path outer before (fun after copy => second after [copy])
      (stmt path (.expression loc value)) := goes.map built
  exact statement.bind fun _ _ holds => goes_pure holds

theorem goes_declareParameter (loc : Loc) (new : ¬ before.has name) :
    Goes defined path outer before (fun after _ => after = before.declare name .parameter)
      (declareParameter path name loc) := by
  rintro rfl table shown knows
  have unbound : ¬ (table.binding? before.scope name).isSome = true :=
    fun there => new ((shown.1.binding? name).1 there)
  exact ⟨(), _, before.declare name .parameter, declareParameter_new unbound, rfl,
    shown.addBinding _, knows.of_methods rfl, rfl⟩

theorem goes_assignment (loc : Loc) (unseen : Layers.find? name (before :: outer) = none) :
    Goes defined path outer before (fun after _ => after = before.declare name .localVariable)
      (assignment path name loc) := by
  rintro rfl table shown knows
  have lookup := (shown.lookup? name).trans unseen
  exact ⟨_, _, before.declare name .localVariable, assignment_new lookup, rfl, shown.addBinding _,
    knows.of_methods rfl, rfl⟩

theorem goes_reference (loc : Loc) (seen : Layers.find? name (before :: outer) = some scope) :
    Goes defined path outer before (fun after _ => after = before) (reference path name loc) := by
  rintro rfl table shown knows
  have lookup := (shown.lookup? name).trans seen
  exact ⟨_, table, before, reference_seen lookup, rfl, shown, knows, rfl⟩

theorem goes_params (plain : ∀ param ∈ trees, param.default = none)
    (distinct : (trees.map Param.name).Nodup) (new : ∀ param ∈ trees, ¬ before.has param.name) :
    Goes defined path outer before
      (fun after inner => after = before.declareAll .parameter (trees.map Param.name) ∧
        inner = trees.map fun param => .mk param.name param.loc none)
      (params path trees) := by
  induction trees generalizing before with
  | nil => exact goes_pure ⟨(Layer.declareAll_nil _ _).symm, rfl⟩
  | cons first rest ih =>
    obtain ⟨name, loc, value⟩ := first
    rw [forall_mem_cons] at plain new
    rw [map_cons, nodup_cons] at distinct
    obtain rfl : value = none := plain.1
    refine (goes_declareParameter loc new.1).bind ?_
    rintro _ - rfl
    refine (ih plain.2 distinct.2 fun param member has => ?_).map ?_
    · rcases Layer.has_declare.1 has with there | same
      · exact new.2 param member there
      · exact distinct.1 (same ▸ mem_map_of_mem member)
    · rintro _ _ ⟨rfl, rfl⟩
      exact ⟨(Layer.declareAll_cons ..).symm, rfl⟩

theorem targets_eq_mapM (trees : List PlainExpr) :
    targets path trees = trees.mapM (target path) := by
  induction trees with
  | nil => rfl
  | cons first rest ih => rw [targets, ih, mapM_cons]

theorem stmts_eq_mapM (trees : List PlainStmt) : stmts path trees = trees.mapM (stmt path) := by
  induction trees with
  | nil => rfl
  | cons first rest ih => rw [stmts, ih, mapM_cons]

/-- Variables that are new are assigned to one after another. -/
theorem goes_mapM {ι : Type} {tree : PlainParam → ι} {read : ι → Resolving β}
    (distinct : (trees.map Param.name).Nodup)
    (unseen : ∀ param ∈ trees, Layers.find? param.name (before :: outer) = none)
    (goes : ∀ here param, Layers.find? param.name (here :: outer) = none → Goes defined path outer
      here (fun after _ => after = here.declare param.name .localVariable) (read (tree param))) :
    Goes defined path outer before
      (fun after _ => after = before.declareAll .localVariable (trees.map Param.name))
      ((trees.map tree).mapM read) := by
  induction trees generalizing before with
  | nil => exact goes_pure (Layer.declareAll_nil _ _).symm
  | cons first rest ih =>
    rw [forall_mem_cons] at unseen
    rw [map_cons, nodup_cons] at distinct
    rw [map_cons, map_cons, mapM_cons]
    refine (goes before first unseen.1).bind ?_
    rintro _ _ rfl
    refine (ih distinct.2 fun param member => ?_).map ?_
    · refine Layer.find?_declare_eq_none (unseen.2 param member) fun same => distinct.1 ?_
      rw [← same]
      exact mem_map_of_mem member
    · rintro _ _ rfl
      exact (Layer.declareAll_cons ..).symm

theorem goes_target (loc : Loc) (unseen : Layers.find? name (before :: outer) = none) :
    Goes defined path outer before (fun after _ => after = before.declare name .localVariable)
      (target path (.name loc name)) :=
  (goes_assignment loc unseen).map fun _ _ => id

theorem goes_nil (loc : Loc) (unseen : Layers.find? name (before :: outer) = none) :
    Goes defined path outer before (fun after _ => after = before.declare name .localVariable)
      (stmt path (.expression loc (.assign loc (.name loc name) (.literal loc .nil)))) := by
  have assign : Goes defined path outer before
      (fun after _ => after = before.declare name .localVariable)
      (expr path (.assign loc (.name loc name) (.literal loc .nil))) :=
    (goes_target loc unseen).bind fun _ _ declared => goes_pure declared
  exact assign.map fun _ _ => id

theorem goes_spread (distinct : (trees.map Param.name).Nodup)
    (unseen : ∀ param ∈ trees, Layers.find? param.name (before :: outer) = none) (loc : Loc)
    (seen : Layers.find? argument (before.declareAll .localVariable (trees.map Param.name) :: outer)
      = some scope) :
    Goes defined path outer before
      (fun after _ => after = before.declareAll .localVariable (trees.map Param.name))
      (stmts path [.expression loc (.multiAssign loc
        (trees.map fun param => .name param.loc param.name) [.name loc argument])]) := by
  have places : Goes defined path outer before
      (fun after _ => after = before.declareAll .localVariable (trees.map Param.name))
      (targets path (trees.map fun param => .name param.loc param.name)) := by
    rw [targets_eq_mapM]
    exact goes_mapM distinct unseen fun _ param new => goes_target param.loc new
  have value : Goes defined path outer (before.declareAll .localVariable (trees.map Param.name))
      (fun after _ => after = before.declareAll .localVariable (trees.map Param.name))
      (expr path (.name loc argument)) := (goes_reference loc seen).map fun _ _ => id
  have values : Goes defined path outer (before.declareAll .localVariable (trees.map Param.name))
      (fun after _ => after = before.declareAll .localVariable (trees.map Param.name))
      (exprs path [.name loc argument]) := value.bind fun _ _ same => goes_pure same
  have assign : Goes defined path outer before
      (fun after _ => after = before.declareAll .localVariable (trees.map Param.name))
      (expr path (.multiAssign loc (trees.map fun param => .name param.loc param.name)
        [.name loc argument])) := by
    refine places.bind ?_
    rintro _ _ rfl
    exact values.map fun _ _ => id
  exact assign.expression fun _ _ => id

/-- The parameters of the lambda of a hoisted block and the statements in front of its body declare
the parameters of the block. -/
theorem goes_lambdaParams {id : ScopeId} (plain : ∀ param ∈ trees, param.default = none)
    (distinct : (trees.map Param.name).Nodup) (other : argument ∉ trees.map Param.name)
    (unseen : ∀ param ∈ trees, Layers.find? param.name (⟨id, .lambda, []⟩ :: outer) = none)
    (arity : Nat) (loc : Loc) :
    ∃ middle : Layer,
      Goes defined path outer ⟨id, .lambda, []⟩ (fun after _ => after = middle)
        (params path (Image.lambdaParams argument trees arity loc).1) ∧
      Goes defined path outer middle
        (fun after _ => after.scope = id ∧ after.kind = .lambda ∧
          ∀ name, name ≠ argument → (after.has name ↔ name ∈ trees.map Param.name))
        (stmts path (Image.lambdaParams argument trees arity loc).2) := by
  have new : ∀ name, ¬ (Layer.mk id .lambda []).has name := Layer.not_has_of_new id .lambda
  let taken : Layer := (Layer.mk id .lambda []).declare argument .parameter
  have oneParam : Goes defined path outer ⟨id, .lambda, []⟩ (fun after _ => after = taken)
      (params path [.mk argument loc none]) :=
    (goes_declareParameter loc (new argument)).bind fun _ _ declared => goes_pure declared
  unfold Image.lambdaParams
  split
  · -- no argument is passed
    refine ⟨⟨id, .lambda, []⟩, goes_pure rfl, ?_⟩
    rw [stmts_eq_mapM]
    refine (goes_mapM distinct unseen fun _ param unseen => goes_nil loc unseen).mono ?_
    rintro _ _ rfl
    refine ⟨rfl, rfl, fun name _ => ?_⟩
    simp [Layer.has_declareAll, new]
  · split
    · -- the one parameter takes the argument
      refine ⟨_, (goes_params plain distinct fun param _ => new param.name).mono
        fun _ _ => And.left, goes_pure ⟨rfl, rfl, fun name _ => ?_⟩⟩
      simp [Layer.has_declareAll, new]
    · refine ⟨taken, oneParam, goes_pure ⟨rfl, rfl, fun name different => ?_⟩⟩
      simp [taken, Layer.has_declare, new, different]
    · have unseenHere : ∀ param ∈ trees, Layers.find? param.name (taken :: outer) = none := by
        intro param member
        refine Layer.find?_declare_eq_none (unseen param member) fun same => other ?_
        rw [← same]
        exact mem_map_of_mem member
      have seen : Layers.find? argument
          (taken.declareAll .localVariable (trees.map Param.name) :: outer) = some id :=
        Layers.find?_cons_of_has outer
          (Layer.has_declareAll.2 (.inl (Layer.has_declare.2 (.inr rfl))))
      refine ⟨taken, oneParam, (goes_spread distinct unseenHere loc seen).mono ?_⟩
      rintro _ _ rfl
      refine ⟨rfl, rfl, fun name different => ?_⟩
      simp [taken, Layer.has_declareAll, Layer.has_declare, new, different]

end Goes

end Resolve

end Hoist
