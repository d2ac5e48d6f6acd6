import Hoist.Proofs.Scope.Reading

/-!
What names mean where they stand.  Code sees layers: the scopes around it, the innermost first, each
with the names that it has so far.  A name means the variable of the first layer that has it; no
layer beyond that of a method is seen.  Code that is read leaves all layers as they are but the
innermost, which takes up each name that is assigned to and means no variable yet.
-/

namespace Hoist

/-- A scope and the names that it has so far. -/
structure Layer where
  scope : ScopeId
  kind : ScopeKind
  names : List (String × BindingKind) := []

namespace Layer

/-- Whether a layer has a name. -/
def has (layer : Layer) (name : String) : Prop := name ∈ layer.names.map Prod.fst

instance (layer : Layer) (name : String) : Decidable (layer.has name) :=
  inferInstanceAs (Decidable (name ∈ layer.names.map Prod.fst))

/-- A layer with one more name. -/
def declare (layer : Layer) (name : String) (kind : BindingKind) : Layer :=
  { layer with names := layer.names ++ [(name, kind)] }

theorem has_declare {layer : Layer} {name other : String} {kind : BindingKind} :
    (layer.declare name kind).has other ↔ layer.has other ∨ other = name := by
  simp [has, declare]

/-- A scope has no names when it is entered. -/
theorem not_has_of_new (scope : ScopeId) (kind : ScopeKind) (name : String) :
    ¬ (Layer.mk scope kind []).has name := List.not_mem_nil

end Layer

/-- The layers that code sees, the innermost first. -/
abbrev Layers := List Layer

namespace Layers

/-- The scopes of some layers. -/
def path (layers : Layers) : List ScopeId := layers.map Layer.scope

@[simp] theorem path_cons (layer : Layer) (outer : Layers) :
    path (layer :: outer) = layer.scope :: path outer := rfl

/-- The scope whose variable a name means. -/
def find? (name : String) : Layers → Option ScopeId
  | [] => none
  | layer :: outer =>
    if layer.has name then some layer.scope
    else if layer.kind.isClosure then find? name outer
    else none

theorem find?_cons (name : String) (layer : Layer) (outer : Layers) :
    find? name (layer :: outer) = if layer.has name then some layer.scope
      else if layer.kind.isClosure then find? name outer else none := rfl

theorem find?_cons_of_has {name : String} {layer : Layer} (outer : Layers)
    (has : layer.has name) : find? name (layer :: outer) = some layer.scope := if_pos has

theorem not_has_of_find? {name : String} {layer : Layer} {outer : Layers}
    (unseen : find? name (layer :: outer) = none) : ¬ layer.has name := by
  intro has
  rw [find?_cons_of_has outer has] at unseen
  cases unseen

theorem mem_path_of_find? {name : String} {layers : Layers} {scope : ScopeId}
    (found : layers.find? name = some scope) : scope ∈ layers.path := by
  induction layers with
  | nil => cases found
  | cons layer outer ih =>
    rw [find?_cons] at found
    split at found
    · cases found
      exact List.mem_cons_self
    · split at found
      · exact List.mem_cons_of_mem _ (ih found)
      · cases found

end Layers

/-- A layer after some code: new names are those of variables, and meant none before. -/
structure Layer.Grown (outer : Layers) (before after : Layer) : Prop where
  scope : after.scope = before.scope
  kind : after.kind = before.kind
  names : ∃ names, after.names = before.names ++ names ∧ ∀ entry ∈ names,
    entry.2 = .localVariable ∧ Layers.find? entry.1 (before :: outer) = none

namespace Layer.Grown

variable {outer : Layers} {before middle after : Layer} {name : String}

theorem refl (outer : Layers) (layer : Layer) : layer.Grown outer layer :=
  ⟨rfl, rfl, [], (List.append_nil _).symm, fun _ member => absurd member List.not_mem_nil⟩

theorem has (grown : before.Grown outer after) (there : before.has name) : after.has name := by
  obtain ⟨names, equal, -⟩ := grown.names
  rw [Layer.has, equal, List.map_append]
  exact List.mem_append_left _ there

/-- A name that means nothing after some code meant nothing before. -/
theorem find?_eq_none (grown : before.Grown outer after)
    (unseen : Layers.find? name (after :: outer) = none) :
    Layers.find? name (before :: outer) = none := by
  have absent : ¬ before.has name := fun there => Layers.not_has_of_find? unseen (grown.has there)
  rw [Layers.find?_cons, if_neg absent]
  rwa [Layers.find?_cons, if_neg (Layers.not_has_of_find? unseen), grown.kind] at unseen

theorem trans (first : before.Grown outer middle) (second : middle.Grown outer after) :
    before.Grown outer after := by
  obtain ⟨names, equal, new⟩ := first.names
  obtain ⟨others, equalOthers, newOthers⟩ := second.names
  refine ⟨second.scope.trans first.scope, second.kind.trans first.kind, names ++ others, ?_, ?_⟩
  · rw [equalOthers, equal, List.append_assoc]
  · intro entry member
    rcases List.mem_append.1 member with member | member
    · exact new entry member
    · exact ⟨(newOthers entry member).1, first.find?_eq_none (newOthers entry member).2⟩

theorem declare (unseen : Layers.find? name (before :: outer) = none) :
    before.Grown outer (before.declare name .localVariable) :=
  ⟨rfl, rfl, [(name, .localVariable)], rfl, List.forall_mem_singleton.2 ⟨rfl, unseen⟩⟩

end Layer.Grown

/-- A layer that may have taken up parameters too. -/
structure Layer.Extends (before after : Layer) : Prop where
  scope : after.scope = before.scope
  kind : after.kind = before.kind
  has : ∀ {name}, before.has name → after.has name

namespace Layer

variable {before middle after : Layer}

theorem Extends.refl (layer : Layer) : layer.Extends layer := ⟨rfl, rfl, id⟩

theorem Extends.trans (first : before.Extends middle) (second : middle.Extends after) :
    before.Extends after :=
  ⟨second.scope.trans first.scope, second.kind.trans first.kind,
    fun has => second.has (first.has has)⟩

theorem Grown.extended {outer : Layers} (grown : before.Grown outer after) : before.Extends after :=
  ⟨grown.scope, grown.kind, grown.has⟩

end Layer

/-- The names of bindings with what they are. -/
def Bindings.entries (bindings : Bindings) : List (String × BindingKind) :=
  bindings.map fun binding => (binding.name, binding.kind)

namespace ScopeTable

/-- A table has the scope of a layer, inside the outer layers, with the names of the layer. -/
structure Holds (table : ScopeTable) (outer : Layers) (layer : Layer) : Prop where
  scope : ∃ bindings, table.scope? layer.scope = some ⟨layer.kind, outer.path, bindings⟩ ∧
    bindings.entries = layer.names
  above : ∀ around ∈ outer.path, around < layer.scope

def Binds (table : ScopeTable) (id : ScopeId) (name : String) (kind : BindingKind) : Prop :=
  ∃ scope, table.scope? id = some scope ∧ (name, kind) ∈ scope.bindings.entries

end ScopeTable

section Scoped

/-- A name that is read means a variable that is seen, or else a method. -/
def Layers.Reads (known : String → Prop) (layers : Layers) (occurrence : Occurrence) : Prop :=
  (∃ scope, layers.find? occurrence.name = some scope ∧
    occurrence.target = some (.variable scope)) ∨
  (layers.find? occurrence.name = none ∧ known occurrence.name ∧
    occurrence.target = some .method)

/-- A name that is assigned to means a variable that is seen, or a new one of the innermost
scope. -/
def Layer.Writes (table : ScopeTable) (outer : Layers) (before : Layer) (occurrence : Occurrence)
    (after : Layer) : Prop :=
  (∃ scope, Layers.find? occurrence.name (before :: outer) = some scope ∧
    occurrence.target = some (.variable scope) ∧ after = before) ∨
  (Layers.find? occurrence.name (before :: outer) = none ∧
    occurrence.target = some (.variable before.scope) ∧
    after = before.declare occurrence.name .localVariable ∧
    table.Binds before.scope occurrence.name .localVariable)

variable (known : String → Prop) (table : ScopeTable)

/-- What the rules of scoping say of an event: the layers that are seen before it and after it.
`table` has all scopes of the program, and `known` methods may be called. -/
def Event.Scoped : Event Occurrence ScopeId → Layers → Layers → Prop
  | .name false _ _ occurrence, layers, next => next = layers ∧ Layers.Reads known layers occurrence
  | .name true _ _ occurrence, before :: outer, next =>
    ∃ after, next = after :: outer ∧ before.Writes table outer occurrence after
  | .global .., layers, next | .meet .., layers, next => next = layers
  | .declare _ word _, before :: outer, next =>
    next = before.declare word .parameter :: outer ∧ ¬ before.has word
  | .enter kind scope, layers, next => next = ⟨scope, kind, []⟩ :: layers
  | .leave, last :: outer, next => next = outer ∧ table.Holds outer last
  | _, _, _ => False

/-- Events are read one after the other by the rules of scoping. -/
def eventsScoped : List (Event Occurrence ScopeId) → Layers → Layers → Prop
  | [], layers, last => last = layers
  | event :: rest, layers, last =>
    ∃ next, event.Scoped known table layers next ∧ eventsScoped rest next last

variable {known table} {left right events : List (Event Occurrence ScopeId)} {layers last : Layers}

theorem eventsScoped_append : eventsScoped known table (left ++ right) layers last ↔
    ∃ middle, eventsScoped known table left layers middle ∧
      eventsScoped known table right middle last := by
  induction left generalizing layers with
  | nil => simp [eventsScoped]
  | cons event rest ih =>
    simp only [List.cons_append, eventsScoped, ih]
    grind

/-- Code adds nothing to the innermost layer but its parameters and variables that are new there,
and leaves the others as they are. -/
theorem Node.Balanced.keeps {inside : Bool} (balanced : Balanced inside events) {outer : Layers}
    {before : Layer} (rules : eventsScoped known table events (before :: outer) last) :
    ∃ after, last = after :: outer ∧ before.Extends after ∧
      (inside = false → before.Grown outer after) := by
  have same {inside : Bool} {outer : Layers} {before : Layer} :
      before.Extends before ∧ (inside = false → before.Grown outer before) :=
    ⟨.refl before, fun _ => .refl outer before⟩
  induction balanced generalizing outer before last with
  | nil => exact ⟨before, rules, same⟩
  | append _ _ ih ihRight =>
    obtain ⟨_, rules, rulesRight⟩ := eventsScoped_append.1 rules
    obtain ⟨middle, rfl, extended, grown⟩ := ih rules
    obtain ⟨after, rfl, extendedMore, grownMore⟩ := ihRight rulesRight
    exact ⟨after, rfl, extended.trans extendedMore,
      fun plain => (grown plain).trans (grownMore plain)⟩
  | @one inside event stays =>
    obtain ⟨_, step, rfl⟩ := rules
    cases event with
    | name written =>
      cases written with
      | false =>
        obtain ⟨rfl, -⟩ := step
        exact ⟨before, rfl, same⟩
      | true =>
        obtain ⟨after, rfl, ⟨_, -, -, rfl⟩ | ⟨unseen, -, rfl, -⟩⟩ := step
        · exact ⟨after, rfl, same⟩
        · exact ⟨_, rfl, (Layer.Grown.declare unseen).extended, fun _ => .declare unseen⟩
    | global | meet =>
      cases step
      exact ⟨before, rfl, same⟩
    | declare =>
      obtain ⟨rfl, -⟩ := step
      exact ⟨_, rfl, ⟨rfl, rfl, fun has => Layer.has_declare.2 (.inl has)⟩,
        fun outside => absurd (outside.symm.trans stays) Bool.false_ne_true⟩
    | enter | leave => cases stays
    | fault => exact step.elim
  | scope _ _ _ ih =>
    obtain ⟨_, rfl, rules⟩ := rules
    obtain ⟨_, rules, _, step, rfl⟩ := eventsScoped_append.1 rules
    obtain ⟨_, rfl, -⟩ := ih rules
    obtain ⟨rfl, -⟩ := step
    exact ⟨before, rfl, same⟩

end Scoped

end Hoist
