import Hoist.Plan
import Hoist.Proofs.Scope.Layers

/-!
Resolution follows the rules of scoping.  While a program is read, the table of scopes shows the
layers that are seen at the place that is read; scopes that are left do not change any more, and the
methods that are known stay the same.
-/

namespace Hoist

variable {α β : Type}

namespace Bindings

@[simp] theorem entries_append (left right : Bindings) :
    entries (left ++ right) = left.entries ++ right.entries := List.map_append

theorem entries_update (bindings : Bindings) (name : String) (inClosure : Bool) :
    (bindings.update name (·.written inClosure)).entries = bindings.entries := by
  simp only [entries, update, List.map_map]
  refine List.map_congr_left fun binding _ => ?_
  simp only [Function.comp_apply]
  split <;> rfl

theorem find?_isSome (bindings : Bindings) (name : String) :
    (bindings.find? name).isSome = true ↔ name ∈ bindings.entries.map Prod.fst := by
  simp [find?, entries]

end Bindings

namespace ScopeTable

@[simp] theorem scope?_openScope (table : ScopeTable) (kind : ScopeKind) (path : List ScopeId)
    (id : ScopeId) : (table.openScope kind path).scope? id =
      if id = table.nextId then some ⟨kind, path, []⟩ else table.scope? id := by
  by_cases same : id = table.nextId
  · rw [if_pos same, same]
    exact List.getElem?_concat_length
  · rw [if_neg same]
    by_cases old : id < table.nextId
    · exact List.getElem?_append_left old
    · have beyond : table.scopes.length < id :=
        Nat.lt_of_le_of_ne (Nat.le_of_not_lt old) (Ne.symm same)
      rw [scope?, scope?, List.getElem?_eq_none (Nat.le_of_lt beyond), List.getElem?_eq_none]
      rw [openScope, List.length_append]
      exact beyond

theorem scope?_updateScope (table : ScopeTable) (id other : ScopeId) (change : Scope → Scope) :
    (table.updateScope id change).scope? other =
      if id = other then (table.scope? other).map change else table.scope? other := by
  simp only [scope?, updateScope, List.getElem?_modify]
  split <;> simp_all

theorem lt_nextId {table : ScopeTable} {id : ScopeId} {scope : Scope}
    (found : table.scope? id = some scope) : id < table.nextId :=
  (List.getElem?_eq_some_iff.1 found).1

/-- A later table of the same reading.  Scopes keep their place and their names; only those of the
path, which are still open, may have more names. -/
def Later (path : List ScopeId) (table next : ScopeTable) : Prop :=
  ∀ ⦃id scope⦄, table.scope? id = some scope →
    ∃ bindings, next.scope? id = some { scope with bindings } ∧
      scope.bindings.entries <+: bindings.entries ∧
      (id ∉ path → bindings.entries = scope.bindings.entries)

namespace Later

variable {path : List ScopeId} {table middle next : ScopeTable}

theorem of_scopes (same : next.scopes = table.scopes) : Later path table next := by
  intro id scope found
  refine ⟨scope.bindings, ?_, List.prefix_refl _, fun _ => rfl⟩
  rw [scope?, same]
  exact found

theorem refl (path : List ScopeId) (table : ScopeTable) : Later path table table := of_scopes rfl

theorem trans (first : Later path table middle) (second : Later path middle next) :
    Later path table next := by
  intro id scope found
  obtain ⟨bindings, foundMiddle, grown, kept⟩ := first found
  obtain ⟨others, foundNext, grownMore, keptMore⟩ := second foundMiddle
  refine ⟨others, foundNext, grown.trans grownMore, fun left => ?_⟩
  rw [keptMore left, kept left]

theorem cons (later : Later path table next) (id : ScopeId) : Later (id :: path) table next := by
  intro other scope found
  obtain ⟨bindings, foundNext, grown, kept⟩ := later found
  exact ⟨bindings, foundNext, grown, fun left => kept fun inside =>
    left (List.mem_cons_of_mem _ inside)⟩

theorem openScope (path : List ScopeId) (table : ScopeTable) (kind : ScopeKind)
    (around : List ScopeId) : Later path table (table.openScope kind around) := by
  intro id scope found
  refine ⟨scope.bindings, ?_, List.prefix_refl _, fun _ => rfl⟩
  rw [scope?_openScope, if_neg (Nat.ne_of_lt (lt_nextId found)), found]

/-- Leaving a scope that did not exist before. -/
theorem leave {id : ScopeId} (later : Later (id :: path) table next)
    (new : table.scope? id = none) :
    Later path table next := by
  intro other scope found
  obtain ⟨bindings, foundNext, grown, kept⟩ := later found
  refine ⟨bindings, foundNext, grown, fun outside => kept fun inside => ?_⟩
  rcases List.mem_cons.1 inside with rfl | inside
  · rw [new] at found
    cases found
  · exact outside inside

theorem updateBinding (path : List ScopeId) (table : ScopeTable) (id : ScopeId) (name : String)
    (inClosure : Bool) : Later path table (table.updateBinding id name (·.written inClosure)) := by
  intro other scope found
  rw [ScopeTable.updateBinding, scope?_updateScope, found]
  by_cases same : id = other
  · rw [if_pos same]
    refine ⟨_, rfl, ?_, fun _ => ?_⟩
    · rw [Bindings.entries_update]
    · rw [Bindings.entries_update]
  · rw [if_neg same]
    exact ⟨scope.bindings, rfl, List.prefix_refl _, fun _ => rfl⟩

theorem addBinding (path : List ScopeId) (table : ScopeTable) (id : ScopeId) (binding : Binding) :
    Later (id :: path) table (table.addBinding id binding) := by
  intro other scope found
  rw [ScopeTable.addBinding, scope?_updateScope, found]
  by_cases same : id = other
  · rw [if_pos same]
    refine ⟨_, rfl, ?_, fun outside => ?_⟩
    · rw [Bindings.entries_append]
      exact List.prefix_append _ _
    · exact absurd (same ▸ List.mem_cons_self) outside
  · rw [if_neg same]
    exact ⟨scope.bindings, rfl, List.prefix_refl _, fun _ => rfl⟩

end Later

/-- A table shows the layers that are seen at some place. -/
def Shows (table : ScopeTable) : Layers → Prop
  | [] => True
  | layer :: outer => table.Holds outer layer ∧ table.Shows outer

namespace Holds

variable {table next : ScopeTable} {outer : Layers} {layer : Layer}

theorem binding? (holds : table.Holds outer layer) (name : String) :
    (table.binding? layer.scope name).isSome = true ↔ layer.has name := by
  obtain ⟨bindings, found, names⟩ := holds.scope
  rw [ScopeTable.binding?, found, Option.bind_some, Bindings.find?_isSome, names, Layer.has]

theorem isClosure (holds : table.Holds outer layer) :
    table.isClosure layer.scope = layer.kind.isClosure := by
  obtain ⟨bindings, found, -⟩ := holds.scope
  rw [ScopeTable.isClosure, found]

theorem later {path : List ScopeId} (holds : table.Holds outer layer)
    (later : Later path table next)
    (left : layer.scope ∉ path) : next.Holds outer layer := by
  obtain ⟨bindings, found, names⟩ := holds.scope
  obtain ⟨others, foundNext, -, kept⟩ := later found
  exact ⟨⟨others, foundNext, (kept left).trans names⟩, holds.above⟩

end Holds

namespace Shows

variable {table next : ScopeTable} {outer : Layers} {layer : Layer}

/-- Names are looked up as the layers tell. -/
theorem lookup? (name : String) : {layers : Layers} → table.Shows layers →
    table.lookup? name layers.path = layers.find? name := by
  intro layers
  induction layers with
  | nil => exact fun _ => rfl
  | cons layer outer ih =>
    rintro ⟨holds, shows⟩
    rw [Layers.path_cons, ScopeTable.lookup?, Layers.find?_cons, ih shows,
      holds.isClosure]
    simp only [holds.binding? name]

/-- Outer layers are not touched by what is done to scopes that are not theirs. -/
theorem kept : {outer : Layers} → table.Shows outer →
    (∀ ⦃id scope⦄, id ∈ outer.path → table.scope? id = some scope →
      ∃ bindings, next.scope? id = some { scope with bindings } ∧
        bindings.entries = scope.bindings.entries) → next.Shows outer := by
  intro outer
  induction outer with
  | nil => exact fun _ _ => trivial
  | cons layer outer ih =>
    rintro ⟨holds, shows⟩ same
    refine ⟨?_, ih shows fun _ _ inside => same (List.mem_cons_of_mem _ inside)⟩
    obtain ⟨bindings, found, names⟩ := holds.scope
    obtain ⟨others, foundNext, kept⟩ := same List.mem_cons_self found
    exact ⟨⟨others, foundNext, kept.trans names⟩, holds.above⟩

theorem of_scopes {layers : Layers} (shows : table.Shows layers)
    (same : next.scopes = table.scopes) : next.Shows layers := by
  refine shows.kept fun id scope _ found => ⟨scope.bindings, ?_, rfl⟩
  rw [scope?, same]
  exact found

theorem updateBinding {layers : Layers} (shows : table.Shows layers) (id : ScopeId) (name : String)
    (inClosure : Bool) : (table.updateBinding id name (·.written inClosure)).Shows layers := by
  refine shows.kept fun other scope _ found => ?_
  obtain ⟨bindings, foundNext, -, kept⟩ := Later.updateBinding [] table id name inClosure found
  exact ⟨bindings, foundNext, kept List.not_mem_nil⟩

theorem openScope (shows : table.Shows outer) (kind : ScopeKind) :
    (table.openScope kind outer.path).Shows (⟨table.nextId, kind, []⟩ :: outer) := by
  refine ⟨⟨⟨[], by rw [scope?_openScope, if_pos rfl], rfl⟩, ?_⟩, ?_⟩
  · intro around inside
    induction outer with
    | nil => exact absurd inside List.not_mem_nil
    | cons layer outer ih =>
      obtain ⟨holds, shows⟩ := shows
      rcases List.mem_cons.1 inside with rfl | inside
      · obtain ⟨_, found, -⟩ := holds.scope
        exact lt_nextId found
      · exact ih shows inside
  · refine shows.kept fun id scope _ found => ?_
    obtain ⟨bindings, foundNext, -, kept⟩ := Later.openScope [] table kind outer.path found
    exact ⟨bindings, foundNext, kept List.not_mem_nil⟩

theorem addBinding (shows : table.Shows (layer :: outer)) (binding : Binding) :
    (table.addBinding layer.scope binding).Shows
      (layer.declare binding.name binding.kind :: outer) := by
  obtain ⟨holds, shows⟩ := shows
  obtain ⟨bindings, found, names⟩ := holds.scope
  refine ⟨⟨⟨bindings ++ [binding], ?_, ?_⟩, holds.above⟩, shows.kept
    fun id scope inside found => ?_⟩
  · rw [ScopeTable.addBinding, scope?_updateScope, Layer.declare, if_pos rfl, found]
    rfl
  · rw [Bindings.entries_append, names]
    rfl
  · obtain ⟨bindings, foundNext, -, kept⟩ := Later.addBinding [] table layer.scope binding found
    refine ⟨bindings, foundNext, kept ?_⟩
    rw [List.mem_singleton]
    exact Nat.ne_of_lt (holds.above id inside)

end Shows

/-- The methods that the program defines are in the table, and beyond them only kernel methods. -/
structure Knows (defined : String → Bool) (table : ScopeTable) : Prop where
  defines : ∀ name, Plan.definesMethod table.methods name = defined name
  found : ∀ name, (table.methods.find? name).isSome = true →
    defined name = true ∨ kernelMethods.contains name = true

namespace Knows

variable {defined : String → Bool} {table next : ScopeTable}

theorem of_methods (knows : table.Knows defined) (same : next.methods = table.methods) :
    next.Knows defined := by
  constructor
  · rw [same]
    exact knows.defines
  · rw [same]
    exact knows.found

theorem add {name : String} (knows : table.Knows defined)
    (new : ¬ (table.methods.find? name).isSome = true)
    (kernel : kernelMethods.contains name = true) :
    { table with methods := table.methods ++
      [({ name, kind := .function, loc := none } : Binding)] : ScopeTable }.Knows defined := by
  have lookup : ∀ other, Bindings.find? (table.methods ++
      [({ name, kind := .function, loc := none } : Binding)]) other =
      if name = other then some { name, kind := .function, loc := none }
      else table.methods.find? other := by
    intro other
    rw [Bindings.find?, List.find?_append]
    by_cases same : name = other
    · subst same
      rw [if_pos rfl, show List.find? _ table.methods = none by simpa [Bindings.find?] using new]
      simp
    · rw [if_neg same, List.find?_cons_of_neg (by simpa using same), List.find?_nil, Option.or_none]
      rfl
  constructor
  · intro other
    rw [← knows.defines other, Plan.definesMethod, Plan.definesMethod, lookup]
    by_cases same : name = other
    · subst same
      rw [if_pos rfl]
      cases absent : table.methods.find? name with
      | none => rfl
      | some binding => rw [absent] at new; exact absurd rfl new
    · rw [if_neg same]
  · intro other there
    rw [lookup] at there
    by_cases same : name = other
    · exact .inr (same ▸ kernel)
    · rw [if_neg same] at there
      exact knows.found other there

end Knows

end ScopeTable

/-- The methods that a program may call: those that it defines and those of the kernel. -/
def Callable (defined : String → Bool) (name : String) : Prop :=
  defined name = true ∨ kernelMethods.contains name = true

namespace Resolve

section Runs

variable {path : List ScopeId} {name : String} {loc : Loc} {table : ScopeTable}

theorem reference_seen {scope : ScopeId} (seen : table.lookup? name path = some scope) :
    reference path name loc table = .ok (⟨name, some (.variable scope)⟩, table) := by
  rw [reference_eq, seen]

theorem reference_method (unseen : table.lookup? name path = none)
    (there : (table.methods.find? name).isSome = true) :
    reference path name loc table = .ok (⟨name, some .method⟩, table) := by
  rw [reference_eq, unseen]
  exact if_pos there

theorem reference_kernel (unseen : table.lookup? name path = none)
    (new : ¬ (table.methods.find? name).isSome = true)
    (kernel : kernelMethods.contains name = true) :
    reference path name loc table = .ok (⟨name, some .method⟩,
      { table with methods := table.methods ++
        [({ name, kind := .function, loc := none } : Binding)] }) := by
  rw [reference_eq, unseen]
  exact (if_neg new).trans (if_pos kernel)

theorem assignment_seen {scope : ScopeId} (seen : table.lookup? name path = some scope) :
    assignment path name loc table = .ok (⟨name, some (.variable scope)⟩,
      table.updateBinding scope name (·.written (table.throughClosure path scope))) := by
  rw [assignment_eq, seen]

theorem assignment_new (unseen : table.lookup? name path = none) :
    assignment path name loc table = .ok (⟨name, some (.variable (innermost path))⟩,
      table.addBinding (innermost path)
        (({ name, kind := .localVariable, loc := some loc } : Binding).written false)) := by
  rw [assignment_eq, unseen]

theorem declareParameter_new (new : ¬ (table.binding? (innermost path) name).isSome = true) :
    declareParameter path name loc table = .ok ((),
      table.addBinding (innermost path) { name, kind := .parameter, loc := some loc }) := by
  rw [declareParameter_eq, if_neg new]

end Runs

/-- Events that are read inside some layers, whose scopes are those of the path.  Reading leaves the
outer layers as they are; what it makes of the events keeps the rules of scoping in every later
table. -/
def Tracks (defined : String → Bool) (events : List (Event String Unit)) : Prop :=
  ∀ ⦃before outer table made next⦄, table.Shows (before :: outer) → table.Knows defined →
    readAll events ⟨Layers.path (before :: outer), table⟩ = .ok (made, next) →
    ∃ after, after.scope = before.scope ∧ next.path = Layers.path (after :: outer) ∧
      next.table.Shows (after :: outer) ∧ next.table.Knows defined ∧
      table.Later next.path next.table ∧ ∀ final, next.table.Later next.path final →
        eventsScoped (Callable defined) final made (before :: outer) (after :: outer)

variable {defined : String → Bool}

theorem tracks_one {inside : Bool} {event : Event String Unit} (stays : event.stays inside = true) :
    Tracks defined [event] := by
  intro before outer table made next shown knows ran
  obtain ⟨⟨result, next⟩, read, ⟨⟩⟩ := bind_eq_ok.1 ran
  suffices ∃ layer, layer.scope = before.scope ∧ next.path = Layers.path (layer :: outer) ∧
      next.table.Shows (layer :: outer) ∧ next.table.Knows defined ∧
      table.Later next.path next.table ∧ ∀ final, next.table.Later next.path final →
        result.Scoped (Callable defined) final (before :: outer) (layer :: outer) by
    obtain ⟨layer, same, isPath, shown, knows, later, rules⟩ := this
    exact ⟨layer, same, isPath, shown, knows, later, fun final more => ⟨_, rules final more, rfl⟩⟩
  have lookup := fun name => shown.lookup? name
  cases Event.takes_of_read read with
  | found seen =>
    exact ⟨before, rfl, rfl, shown, knows, .refl _ _,
      fun _ _ => ⟨rfl, .inl ⟨_, (lookup _).symm.trans seen, rfl⟩⟩⟩
  | method unseen there =>
    exact ⟨before, rfl, rfl, shown, knows, .refl _ _,
      fun _ _ => ⟨rfl, .inr ⟨(lookup _).symm.trans unseen, knows.found _ there, rfl⟩⟩⟩
  | kernel unseen new kernel =>
    exact ⟨before, rfl, rfl, shown.of_scopes rfl, knows.add new kernel, .of_scopes rfl,
      fun _ _ => ⟨rfl, .inr ⟨(lookup _).symm.trans unseen, .inr kernel, rfl⟩⟩⟩
  | write seen =>
    exact ⟨before, rfl, rfl, shown.updateBinding _ _ _, knows.of_methods rfl,
      .updateBinding _ _ _ _ _,
      fun _ _ => ⟨before, rfl, .inl ⟨_, (lookup _).symm.trans seen, rfl, rfl⟩⟩⟩
  | @create loc word unseen =>
    have shownNext := shown.addBinding
      (({ name := word, kind := .localVariable, loc := some loc } : Binding).written false)
    refine ⟨before.declare word .localVariable, rfl, rfl, shownNext, knows.of_methods rfl,
      .addBinding _ _ _ _, fun final later =>
      ⟨_, rfl, .inr ⟨(lookup word).symm.trans unseen, rfl, rfl, ?_⟩⟩⟩
    obtain ⟨bindings, found, names⟩ := shownNext.1.scope
    obtain ⟨others, foundFinal, grown, -⟩ := later found
    refine ⟨_, foundFinal, grown.subset ?_⟩
    rw [names]
    exact List.mem_append_right _ List.mem_cons_self
  | global =>
    exact ⟨before, rfl, rfl, shown.of_scopes rfl, knows.of_methods rfl, .of_scopes rfl,
      fun _ _ => rfl⟩
  | meet => exact ⟨before, rfl, rfl, shown, knows, .refl _ _, fun _ _ => rfl⟩
  | @declare _ word new =>
    exact ⟨before.declare word .parameter, rfl, rfl, shown.addBinding _, knows.of_methods rfl,
      .addBinding _ _ _ _,
      fun _ _ => ⟨rfl, fun has => new ((shown.1.binding? _).2 has)⟩⟩
  | enter | leave => cases stays

theorem Tracks.append {left right : List (Event String Unit)} (first : Tracks defined left)
    (second : Tracks defined right) : Tracks defined (left ++ right) := by
  intro before outer table made next shown knows ran
  rw [readAll_append] at ran
  obtain ⟨⟨madeLeft, _, between⟩, ranLeft, ran⟩ := bind_eq_ok.1 ran
  obtain ⟨⟨madeRight, next⟩, ranRight, ⟨⟩⟩ := bind_eq_ok.1 ran
  obtain ⟨middle, same, rfl, shown, knows, later, rules⟩ := first shown knows ranLeft
  obtain ⟨after, sameAfter, isPath, shown, knows, laterMore, rulesMore⟩ :=
    second shown knows ranRight
  have samePath : Layers.path (middle :: outer) = next.path := by
    rw [isPath, Layers.path_cons, Layers.path_cons, sameAfter]
  rw [samePath] at later rules
  refine ⟨after, sameAfter.trans same, isPath, shown, knows, later.trans laterMore,
    fun final rest => eventsScoped_append.2 ⟨_, rules final (laterMore.trans rest), ?_⟩⟩
  exact rulesMore final rest

/-- Code in a scope of its own, which is left at the end. -/
theorem Tracks.scope {events : List (Event String Unit)} (tracks : Tracks defined events)
    (kind : ScopeKind) : Tracks defined (.enter kind () :: (events ++ [.leave])) := by
  intro before outer table made next shown knows ran
  have opened := shown.openScope kind
  rw [readAll, Event.read, pure_bind, readAll_append] at ran
  obtain ⟨⟨others, _⟩, ranOthers, ⟨⟩⟩ := bind_eq_ok.1 ran
  obtain ⟨⟨inner, _, last⟩, ranInner, ⟨⟩⟩ := bind_eq_ok.1 ranOthers
  obtain ⟨after, same, rfl, shownInner, knows, later, rules⟩ :=
    tracks opened (knows.of_methods rfl) ranInner
  have outside : table.scope? table.nextId = none := List.getElem?_eq_none (Nat.le_refl _)
  rw [Layers.path_cons, same] at later rules
  refine ⟨before, rfl, rfl, shownInner.2, knows, ?_, fun final rest => ⟨_, rfl, ?_⟩⟩
  · exact (((ScopeTable.Later.openScope _ table kind _).cons _).trans later).leave outside
  · refine eventsScoped_append.2 ⟨_, rules final (rest.cons _), _, ⟨rfl, ?_⟩, rfl⟩
    refine shownInner.1.later rest fun inside => ?_
    rw [same] at inside
    exact Nat.lt_irrefl _ (opened.1.above _ inside)

theorem tracks_of_balanced {inside : Bool} {events : List (Event String Unit)}
    (balanced : Node.Balanced inside events) : Tracks defined events := by
  induction balanced with
  | nil =>
    intro before outer table made next shown knows ran
    cases ran
    exact ⟨before, rfl, rfl, shown, knows, .refl _ _, fun _ _ => rfl⟩
  | append _ _ first second => exact first.append second
  | one stays => exact tracks_one stays
  | scope kind _ _ ih => exact ih.scope kind

end Resolve

/-- Whether a program defines a method. -/
def definesIn (program : PlainProgram) (name : String) : Bool :=
  (walkStmts program).any (Node.defines name)

/-- One more part of a program, when its methods are collected. -/
def collectMethod (methods : Bindings) : Node String Unit → Bindings
  | .stmt (.define loc _ name _ _) =>
    if (Bindings.find? methods name).isSome then methods
    else methods ++ [{ name, kind := .function, loc := some loc }]
  | _ => methods

theorem definedMethods_eq (program : PlainProgram) :
    definedMethods program = (walkStmts program).foldl collectMethod [] := rfl

/-- Collected methods have places. -/
def Bindings.Placed (methods : Bindings) : Prop := ∀ binding ∈ methods, binding.loc.isSome = true

theorem Bindings.Placed.definesMethod {methods : Bindings} (placed : methods.Placed)
    (name : String) : Plan.definesMethod methods name = (methods.find? name).isSome := by
  rw [Plan.definesMethod]
  cases found : methods.find? name with
  | none => rfl
  | some binding => exact placed binding (List.mem_of_find?_eq_some found)

theorem collectMethod_spec {methods : Bindings} (placed : methods.Placed)
    (node : PlainNode) : (collectMethod methods node).Placed ∧
      ∀ name, ((collectMethod methods node).find? name).isSome =
        ((methods.find? name).isSome || node.defines name) := by
  unfold collectMethod
  split
  · next loc _ defined _ _ =>
    split
    · next there =>
      refine ⟨placed, fun name => ?_⟩
      by_cases same : defined = name
      · rw [← same, there, Bool.true_or]
      · simp [Node.defines, Stmt.defined?, same]
    · refine ⟨List.forall_mem_append.2 ⟨placed, List.forall_mem_singleton.2 rfl⟩, fun name => ?_⟩
      rw [Bindings.find?, List.find?_append, Option.isSome_or, List.find?_singleton,
        apply_ite Option.isSome]
      by_cases same : defined = name <;> simp [Node.defines, Stmt.defined?, Bindings.find?, same]
  · next noDefinition =>
    refine ⟨placed, fun name => ?_⟩
    have none : node.defines name = false := by
      unfold Node.defines
      split
      · next tree =>
        cases tree with
        | define => exact absurd rfl (noDefinition _ _ _ _ _)
        | _ => rfl
      · rfl
    rw [none, Bool.or_false]

theorem foldl_collectMethod (nodes : List PlainNode) : ∀ {methods : Bindings},
    methods.Placed → (nodes.foldl collectMethod methods).Placed ∧
      ∀ name, ((nodes.foldl collectMethod methods).find? name).isSome =
        ((methods.find? name).isSome || nodes.any (Node.defines name)) := by
  induction nodes with
  | nil => exact fun placed => ⟨placed, fun name => (Bool.or_false _).symm⟩
  | cons first rest ih =>
    intro methods placed
    obtain ⟨placedNext, found⟩ := collectMethod_spec placed first
    obtain ⟨placedAll, foundAll⟩ := ih placedNext
    refine ⟨placedAll, fun name => ?_⟩
    rw [List.foldl_cons, foundAll, found, List.any_cons, Bool.or_assoc]

theorem knows_initial (program : PlainProgram) :
    (ScopeTable.initial (definedMethods program)).Knows (definesIn program) := by
  have none : Bindings.Placed [] := fun _ member => absurd member List.not_mem_nil
  obtain ⟨placed, found⟩ := foldl_collectMethod (walkStmts program) none
  have defines : ∀ name, (Bindings.find? (definedMethods program) name).isSome =
      definesIn program name := fun name => found name
  constructor
  · intro name
    exact (placed.definesMethod name).trans (defines name)
  · intro name there
    exact .inl ((defines name).symm.trans there)

/-- The layer of the top level before the program is read. -/
def Layer.top : Layer := ⟨0, .top, []⟩

theorem shows_initial (methods : Bindings) : (ScopeTable.initial methods).Shows [Layer.top] :=
  ⟨⟨⟨[], rfl, rfl⟩, fun _ member => absurd member List.not_mem_nil⟩, trivial⟩

theorem resolve_scoped {program : PlainProgram} {resolution : Resolution}
    (resolved : resolve program = .ok resolution) :
    resolution.table.Knows (definesIn program) ∧ ∃ last,
      eventsScoped (Callable (definesIn program)) resolution.table
        (stmtsEvents 0 resolution.program) [Layer.top] [last] ∧
      resolution.table.Holds [] last := by
  obtain ⟨last, -, -, shown, knows, -, rules⟩ := Resolve.tracks_of_balanced
    (Node.stmts_balanced program) (shows_initial _) (knows_initial program) (resolve_ok resolved).1
  exact ⟨knows, last, rules _ (.refl _ _), shown.1⟩

end Hoist
