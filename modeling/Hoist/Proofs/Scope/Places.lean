import Hoist.Proofs.Scope.Layers

/-!
Where the parts of a program stand.  From the layers before some code one gets to the layers at each
of its parts by reading on and by entering scopes.  So a name inside a block means a variable of the
block or of a scope inside it, or else the variable that it would mean around the block.
-/

namespace Hoist

variable {known : String → Prop} {table : ScopeTable}

def ScopeTable.Enters (table : ScopeTable) (layers : Layers) (id : ScopeId) (kind : ScopeKind) :
    Prop :=
  (∃ bindings, table.scope? id = some ⟨kind, layers.path, bindings⟩) ∧
    ∀ around ∈ layers.path, around < id

variable {kind : ScopeKind}

theorem ScopeTable.Enters.isClosure {layers : Layers} {id : ScopeId}
    (enters : table.Enters layers id kind) : table.isClosure id = kind.isClosure := by
  obtain ⟨⟨bindings, found⟩, -⟩ := enters
  rw [ScopeTable.isClosure, found]

/-- How one gets from the layers before some code to those at a part of it. -/
inductive Layers.Leads (table : ScopeTable) : Layers → Layers → Prop
  | here (layers : Layers) : Leads table layers layers
  | past {before middle : Layer} {outer place : Layers} : before.Extends middle →
      Leads table (middle :: outer) place → Leads table (before :: outer) place
  | enter {layers place : Layers} {id : ScopeId} {kind : ScopeKind} : table.Enters layers id kind →
      Leads table (⟨id, kind, []⟩ :: layers) place → Leads table layers place

variable {outer : Layers}

namespace Layers

variable {start place : Layers} {name : String} {scope : ScopeId}

/-- A scope lies inside all scopes of some layers. -/
def Around (table : ScopeTable) (layers : Layers) (scope : ScopeId) : Prop :=
  ∀ around ∈ layers.path, table.within scope around = true

theorem around_of_enters (enters : table.Enters start scope kind) : Around table start scope := by
  obtain ⟨⟨bindings, found⟩, -⟩ := enters
  intro around inside
  rw [ScopeTable.within, found, Bool.or_eq_true]
  exact .inr (List.contains_iff_mem.2 inside)

theorem Leads.find? (leads : Leads table start place) (seen : place.find? name = some scope) :
    Around table start scope ∨ (∃ layer ∈ start.head?, scope = layer.scope) ∨
      start.find? name = some scope := by
  induction leads with
  | here layers => exact .inr (.inr seen)
  | @past before middle outer _ extended _ ih =>
    rcases ih seen with inside | ⟨layer, ⟨⟩, rfl⟩ | outside
    · refine .inl fun around member => inside around ?_
      rwa [path_cons, extended.scope]
    · exact .inr (.inl ⟨_, rfl, extended.scope⟩)
    · rw [find?_cons] at outside
      by_cases there : middle.has name
      · rw [if_pos there] at outside
        cases outside
        exact .inr (.inl ⟨_, rfl, extended.scope⟩)
      · rw [if_neg there, extended.kind] at outside
        rw [find?_cons, if_neg fun has => there (extended.has has)]
        exact .inr (.inr outside)
  | @enter layers _ _ _ enters _ ih =>
    rcases ih seen with inside | ⟨layer, ⟨⟩, rfl⟩ | outside
    · exact .inl fun around member => inside around (List.mem_cons_of_mem _ member)
    · exact .inl (around_of_enters enters)
    · rw [find?_cons, if_neg (Layer.not_has_of_new _ _ _)] at outside
      split at outside
      · exact .inr (.inr outside)
      · cases outside

theorem Leads.innermost {layer : Layer} (leads : Leads table start (layer :: outer)) :
    Around table start layer.scope ∨ ∃ before ∈ start.head?, layer.scope = before.scope := by
  generalize reached : layer :: outer = place at leads
  induction leads with
  | here =>
    subst reached
    exact .inr ⟨layer, rfl, rfl⟩
  | past extended _ ih =>
    rcases ih reached with inside | ⟨before, ⟨⟩, same⟩
    · refine .inl fun around member => inside around ?_
      rwa [path_cons, extended.scope]
    · exact .inr ⟨_, rfl, same.trans extended.scope⟩
  | enter enters _ ih =>
    rcases ih reached with inside | ⟨before, ⟨⟩, same⟩
    · exact .inl fun around member => inside around (List.mem_cons_of_mem _ member)
    · refine .inl ?_
      rw [same]
      exact around_of_enters enters

theorem Leads.trans {middle : Layers} (leads : Leads table start middle)
    (further : Leads table middle place) : Leads table start place := by
  induction leads with
  | here => exact further
  | past extended _ ih => exact .past extended (ih further)
  | enter enters _ ih => exact .enter enters (ih further)

/-- The scopes before some code are around all its parts. -/
theorem Leads.path_subset (leads : Leads table start place) : start.path ⊆ place.path := by
  induction leads with
  | here => exact List.Subset.refl _
  | past extended _ ih => rwa [path_cons, extended.scope] at ih
  | enter _ _ ih => exact List.Subset.trans (List.subset_cons_self _ _) ih

/-- Scopes lie inside scopes with smaller numbers. -/
def Ordered (table : ScopeTable) (layers : Layers) : Prop :=
  ∀ id ∈ layers.path, ∀ scope, table.scope? id = some scope →
  ∀ around ∈ scope.enclosing, around < id

theorem Leads.ordered (leads : Leads table start place) (ordered : Ordered table start) :
    Ordered table place := by
  induction leads with
  | here => exact ordered
  | past extended _ ih =>
    apply ih
    intro id member
    apply ordered
    rwa [path_cons, extended.scope] at member
  | enter enters _ ih =>
    apply ih
    intro id member scope found
    rcases List.mem_cons.1 member with rfl | member
    · obtain ⟨⟨bindings, same⟩, above⟩ := enters
      rw [same] at found
      cases found
      exact above
    · exact ordered id member scope found

end Layers

/-- A part of a program that is resolved by the rules of scoping, at some layers; `written` tells
whether it is assigned to. -/
def Node.ScopedAt (known : String → Prop) (table : ScopeTable) (written : Bool) (place : Layers)
    (node : Node Occurrence ScopeId) : Prop :=
  ∃ scope before outer last, place = before :: outer ∧
    eventsScoped known table (node.events scope written) place last

abbrev Block.ScopedAt (known : String → Prop) (table : ScopeTable) (place : Layers)
    (block : ResolvedBlock) : Prop := (Node.block block).ScopedAt known table false place

/-- What the rules of scoping say of a part of a program, at the layers where it stands. -/
def Node.At (known : String → Prop) (table : ScopeTable) (place : Layers) :
    Node Occurrence ScopeId → Prop
  | .expr (.name _ occurrence) => Layers.Reads known place occurrence ∨
      ∃ layer outer after, place = layer :: outer ∧ layer.Writes table outer occurrence after
  | .block tree => tree.ScopedAt known table place
  | _ => True

/-- Every one of some items stands somewhere in the code that follows some layers. -/
def Reached {ι : Type} (table : ScopeTable) (standing : Layers → ι → Prop) (start : Layers)
    (items : List ι) : Prop :=
  ∀ item ∈ items, ∃ place, Layers.Leads table start place ∧ standing place item

/-- Every part of some code stands where the rules of scoping allow it. -/
abbrev Placed (known : String → Prop) (table : ScopeTable) (start : Layers)
    (nodes : List (Node Occurrence ScopeId)) : Prop :=
  Reached table (fun place node => node.At known table place) start nodes

/-- A scope is entered, its parameters and its body are read, and it is left: `first` has the
parameters, `last` also the variables of the body. -/
structure Opens (known : String → Prop) (table : ScopeTable) (kind : ScopeKind) (scope : ScopeId)
    (params : List ResolvedParam) (body : List ResolvedStmt) (place : Layers) (first last : Layer) :
    Prop where
  params : eventsScoped known table (paramsEvents scope params) (⟨scope, kind, []⟩ :: place)
    (first :: place)
  extended : (Layer.mk scope kind []).Extends first
  body : eventsScoped known table (stmtsEvents scope body) (first :: place) (last :: place)
  grown : first.Grown place last
  holds : table.Holds place last

variable {scope : ScopeId} {place last : Layers} {first final : Layer}

theorem enters_of_holds (holds : table.Holds place final)
    (extended : (Layer.mk scope kind []).Extends final) : table.Enters place scope kind := by
  obtain ⟨⟨bindings, found, -⟩, above⟩ := holds
  rw [extended.scope, extended.kind] at found
  rw [extended.scope] at above
  exact ⟨⟨bindings, found⟩, above⟩

section Opens

variable {params : List ResolvedParam} {body : List ResolvedStmt}

theorem Opens.enters (opens : Opens known table kind scope params body place first final) :
    table.Enters place scope kind :=
  enters_of_holds opens.holds (opens.extended.trans opens.grown.extended)

theorem opens_of_scoped (rules : eventsScoped known table
      (.enter kind scope :: (paramsEvents scope params ++ stmtsEvents scope body ++ [.leave])) place
      last) :
    last = place ∧ ∃ first final, Opens known table kind scope params body place first final := by
  obtain ⟨_, rfl, rules⟩ := rules
  obtain ⟨_, rules, _, left, rfl⟩ := eventsScoped_append.1 rules
  obtain ⟨_, paramRules, bodyRules⟩ := eventsScoped_append.1 rules
  obtain ⟨first, rfl, extended, -⟩ := (Node.params_balanced params).keeps paramRules
  obtain ⟨final, rfl, -, grown⟩ := (Node.stmts_balanced body).keeps bodyRules
  obtain ⟨rfl, holds⟩ := left
  exact ⟨rfl, first, final, paramRules, extended, bodyRules, grown rfl, holds⟩

end Opens

/-- The scope whose parameter a step leads to. -/
def Step.defaultsOf? : Step ScopeId → Option ScopeId
  | .defaults _ scope => some scope
  | _ => none

/-- The scopes around a child, the innermost first, from those around its node. -/
def Step.around (path : List ScopeId) : Step ScopeId → List ScopeId
  | .defaults _ inner | .body _ inner => inner :: path
  | _ => path

/-- A child of a node that stands in the scopes of a path is resolved at some layers, those of the
scopes around the child. -/
def Step.StandsAt (known : String → Prop) (table : ScopeTable) (path : List ScopeId)
    (place : Layers)
    (child : Step ScopeId × Node Occurrence ScopeId) : Prop :=
  child.2.ScopedAt known table child.1.isTarget place ∧ place.path = child.1.around path

/-- The layers at a parameter have the scope whose parameter it is. -/
theorem Step.StandsAt.defaults {path : List ScopeId}
    {child : Step ScopeId × ResolvedNode} (stands : StandsAt known table path place child)
    (scope : ScopeId) (inDefaults : child.1.defaultsOf? = some scope) : scope ∈ place.path := by
  obtain ⟨step, node⟩ := child
  rw [stands.2]
  cases step with
  | defaults =>
    cases inDefaults
    exact List.mem_cons_self
  | _ => cases inDefaults

namespace Node

variable {before : Layer} {node : ResolvedNode} {written : Bool}

abbrev AllStand (known : String → Prop) (table : ScopeTable) (path : List ScopeId) (start : Layers)
    (children : List (Step ScopeId × Node Occurrence ScopeId)) : Prop :=
  Reached table (Step.StandsAt known table path) start children

theorem around_children (path : List ScopeId) {child : Step ScopeId × ResolvedNode}
    (member : child ∈ node.children) :
    child.1.around path = (node.opens?.map Prod.snd).toList ++ path := by
  obtain ⟨step, child⟩ := child
  rcases node with tree | ⟨_, _, _⟩ | ⟨_, _, _, _⟩ | tree
  case expr | stmt =>
    cases tree <;> simp only [children, exprs, opened, stmts] at member <;>
      grind [opens?, Step.around]
  all_goals
    simp only [children, exprs, opened, stmts] at member
    grind [opens?, Step.around]

theorem all_stand {children : List (Step ScopeId × ResolvedNode)} {path : List ScopeId}
    (rules : eventsScoped known table (children.flatMap fun child =>
      child.2.events (child.1.scope scope) child.1.isTarget) (before :: outer) last)
    (around : ∀ child ∈ children, Layers.path (before :: outer) = child.1.around path) :
    (∃ after, last = after :: outer ∧ before.Extends after) ∧
      AllStand known table path (before :: outer) children := by
  induction children generalizing before with
  | nil => exact ⟨⟨before, rules, .refl before⟩, nofun⟩
  | cons child rest ih =>
    obtain ⟨_, here, rules⟩ := eventsScoped_append.1 rules
    rw [List.forall_mem_cons] at around
    obtain ⟨middle, rfl, extended, -⟩ :=
      (child.2.balanced _ _ fun _ => rfl : Balanced true _).keeps here
    have same : Layers.path (middle :: outer) = Layers.path (before :: outer) := by
      rw [Layers.path_cons, Layers.path_cons, extended.scope]
    obtain ⟨⟨after, rfl, more⟩, stand⟩ := ih rules fun child member =>
      same.trans (around.2 child member)
    refine ⟨⟨after, rfl, extended.trans more⟩, List.forall_mem_cons.2 ⟨?_, fun item member => ?_⟩⟩
    · exact ⟨_, .here _, ⟨_, _, _, _, rfl, here⟩, around.1⟩
    · obtain ⟨place, leads, there⟩ := stand item member
      exact ⟨place, .past extended leads, there⟩

theorem ScopedAt.stands (resolved : node.ScopedAt known table written place) :
    node.stands written := by
  obtain ⟨scope, before, outer, final, rfl, rules⟩ := resolved
  by_contra misplaced
  obtain ⟨error, fault, -⟩ := fault_of_not_stands scope misplaced
  rw [fault] at rules
  obtain ⟨_, step, -⟩ := rules
  exact step

theorem ScopedAt.unfold (resolved : node.ScopedAt known table written place) :
    ∃ scope before outer first last final, place = before :: outer ∧
      eventsScoped known table (node.opening scope written) place first ∧
      eventsScoped known table (node.children.flatMap fun child =>
        child.2.events (child.1.scope scope) child.1.isTarget) first last ∧
      eventsScoped known table (node.closing scope) last final := by
  have stands := resolved.stands
  obtain ⟨scope, before, outer, final, rfl, rules⟩ := resolved
  rw [events_eq scope stands] at rules
  obtain ⟨last, rules, closing⟩ := eventsScoped_append.1 rules
  obtain ⟨first, opening, children⟩ := eventsScoped_append.1 rules
  exact ⟨scope, before, outer, first, last, final, rfl, opening, children, closing⟩

theorem ScopedAt.opened {id : ScopeId} (resolved : node.ScopedAt known table written place)
    (opens : node.opens? = some (kind, id)) : table.Enters place id kind ∧
      AllStand known table place.path (⟨id, kind, []⟩ :: place) node.children := by
  obtain ⟨scope, before, outer, first, last, final, rfl, opening, rules, closing⟩ :=
    resolved.unfold
  obtain ⟨isOpening, isClosing⟩ := frame_of_opens opens scope
  rw [isOpening] at opening
  rw [isClosing] at closing
  obtain ⟨_, rfl, rfl⟩ := opening
  obtain ⟨⟨after, rfl, extended⟩, stand⟩ := all_stand rules fun child member => by
    rw [around_children _ member, opens]
    rfl
  obtain ⟨_, ⟨rfl, holds⟩, rfl⟩ := closing
  exact ⟨enters_of_holds holds extended, stand⟩

theorem ScopedAt.children (resolved : node.ScopedAt known table written place) :
    AllStand known table place.path place node.children := by
  intro child member
  cases opens : node.opens? with
  | some opened =>
    obtain ⟨enters, stand⟩ := resolved.opened opens
    obtain ⟨inner, leads, there⟩ := stand child member
    exact ⟨inner, .enter enters leads, there⟩
  | none =>
    obtain ⟨scope, before, outer, first, last, final, rfl, opening, rules, -⟩ := resolved.unfold
    obtain ⟨middle, rfl, extended, -⟩ := (opening_balanced opens scope true).keeps opening
    have around : ∀ child ∈ node.children,
        Layers.path (middle :: outer) = child.1.around (Layers.path (before :: outer)) := by
      intro child member
      rw [around_children _ member, opens, Layers.path_cons, extended.scope]
      rfl
    obtain ⟨inner, leads, there⟩ := (all_stand rules around).2 child member
    exact ⟨inner, .past extended leads, there⟩

theorem stmts_stand (trees : List ResolvedStmt)
    (rules : eventsScoped known table (stmtsEvents scope trees) (before :: outer) last) :
    AllStand known table (Layers.path (before :: outer)) (before :: outer) (stmts .part trees) := by
  rw [← stmtsEvents_children] at rules
  refine (all_stand rules fun child member => ?_).2
  obtain ⟨_, -, rfl⟩ := List.mem_map.1 member
  rfl

theorem ScopedAt.reached {last : ResolvedNode} {path : List (Step ScopeId)}
    (reaches : node.Reaches path last) {start : Layers}
    (resolved : node.ScopedAt known table written start) :
    ∃ place, Layers.Leads table start place ∧ place.path = path.foldl Step.around start.path ∧
      ∃ written, last.ScopedAt known table written place := by
  induction reaches generalizing written start with
  | here => exact ⟨start, .here start, rfl, written, resolved⟩
  | step member _ ih =>
    obtain ⟨middle, leads, there, around⟩ := resolved.children _ member
    obtain ⟨place, further, inside, standing⟩ := ih there
    exact ⟨place, leads.trans further, by rw [inside, around, List.foldl_cons], standing⟩

theorem ScopedAt.at
    (resolved : node.ScopedAt known table written place) : node.At known table place := by
  match node with
  | .block _ => exact resolved
  | .expr tree =>
    obtain ⟨scope, before, outer, last, rfl, rules⟩ := resolved
    cases tree with
    | name =>
      cases written with
      | true =>
        obtain ⟨_, ⟨_, -, writes⟩, -⟩ := rules
        exact .inr ⟨_, _, _, rfl, writes⟩
      | false =>
        obtain ⟨_, ⟨-, reads⟩, -⟩ := rules
        exact .inl reads
    | _ => trivial
  | .param _ | .stmt _ => trivial

theorem AllStand.placed {path : List ScopeId} {start : Layers}
    {children : List (Step ScopeId × ResolvedNode)}
    (stand : AllStand known table path start children) :
    Placed known table start (children.flatMap (·.2.walk)) := by
  intro node member
  obtain ⟨child, isChild, member⟩ := List.mem_flatMap.1 member
  obtain ⟨-, steps, reaches⟩ := mem_walk.1 member
  obtain ⟨middle, leads, there, -⟩ := stand child isChild
  obtain ⟨place, further, -, written, standing⟩ := there.reached reaches
  exact ⟨place, leads.trans further, standing.at⟩

end Node

theorem walkStmts_placed (trees : List ResolvedStmt) {before : Layer}
    (rules : eventsScoped known table (stmtsEvents scope trees) (before :: outer) last) :
    Placed known table (before :: outer) (walkStmts trees) := by
  have placed := (Node.stmts_stand trees rules).placed
  rw [Node.stmts, List.flatMap_map] at placed
  rwa [Node.walkStmts_eq]

end Hoist
