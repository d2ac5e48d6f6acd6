import Hoist.Proofs.Conversion.Image
import Hoist.Proofs.Scope.Places

/-!
Where the parts of a program stand when they are converted.  The site of a part names the scope
whose parameter defaults it belongs to; that scope is one of the layers at the part.
-/

namespace Hoist

variable {known : String → Prop} {table : ScopeTable} {input : ConversionInput} {site : Site}

/-- The scope whose defaults a site belongs to is one of some layers. -/
def Site.Among (site : Site) (layers : Layers) : Prop :=
  ∀ id, site.defaultsOf = some id → id ∈ layers.path

/-- A part stands where the rules of scoping allow it, inside the scope that its site names. -/
def Part.At (known : String → Prop) (table : ScopeTable) (place : Layers) (part : Part) : Prop :=
  part.node.At known table place ∧ part.site.Among place

theorem ConversionInput.scopeSite_defaultsOf (input : ConversionInput) (site : Site)
    (kind : ScopeKind) (scope : ScopeId) :
    (input.scopeSite site kind scope).defaultsOf = site.defaultsOf := by
  cases kind with
  | block =>
    rw [scopeSite, blockSite]
    split <;> rfl
  | lambda | function | top => rfl

theorem Step.site_defaultsOf (step : Step ScopeId) :
    (step.site input site).defaultsOf = step.defaultsOf?.or site.defaultsOf := by
  cases step with
  | part | target | loop | defaults => rfl
  | body => exact input.scopeSite_defaultsOf ..

theorem Site.Among.step {start place : Layers} (among : site.Among start)
    (leads : Layers.Leads table start place) {step : Step ScopeId}
    (there : ∀ scope, step.defaultsOf? = some scope → scope ∈ place.path) :
    (step.site input site).Among place := by
  intro id isDefault
  rw [step.site_defaultsOf, Option.or_eq_some_iff] at isDefault
  rcases isDefault with isDefault | ⟨-, isDefault⟩
  · exact there id isDefault
  · exact leads.path_subset (among id isDefault)

theorem Node.ScopedAt.sited {node last : ResolvedNode} {path : List (Step ScopeId)}
    (reaches : node.Reaches path last) {site : Site} {written : Bool} {start : Layers}
    (resolved : node.ScopedAt known table written start) (among : site.Among start) :
    ∃ place, Layers.Leads table start place ∧ last.At known table place ∧
      (path.foldl (Step.site input) site).Among place := by
  induction reaches generalizing site written start with
  | here => exact ⟨start, .here start, resolved.at, among⟩
  | step member _ ih =>
    obtain ⟨middle, leads, stands⟩ := resolved.children _ member
    obtain ⟨place, further, standing⟩ := ih stands.1 (among.step leads stands.defaults)
    exact ⟨place, leads.trans further, standing⟩

theorem stmtsParts_reached {wording : Wording Occurrence} (trees : List ResolvedStmt) {chain : Bool}
    (valid : stmtsWellFormed wording chain trees) {outer last : Layers} {before : Layer}
    {scope : ScopeId} (rules : eventsScoped known table (stmtsEvents scope trees)
      (before :: outer) last)
    (among : site.Among (before :: outer)) :
    Reached table (Part.At known table) (before :: outer) (stmtsParts input site trees) := by
  intro part member
  rw [Node.stmtsParts_eq, List.mem_flatMap] at member
  obtain ⟨tree, isTree, member⟩ := member
  obtain ⟨path, last, reaches, -, met⟩ := ((Node.gathers_parts input).mem_iff (.stmt tree)
    (Node.wellFormed_stmts valid tree isTree)).1 member
  obtain rfl := List.mem_singleton.1 met
  obtain ⟨middle, leads, there, -⟩ :=
    Node.stmts_stand trees rules _ (List.mem_map_of_mem isTree)
  have amongMiddle : site.Among middle := fun id isDefault => leads.path_subset (among id isDefault)
  obtain ⟨place, further, standing⟩ := there.sited reaches amongMiddle
  exact ⟨place, leads.trans further, standing⟩

end Hoist
