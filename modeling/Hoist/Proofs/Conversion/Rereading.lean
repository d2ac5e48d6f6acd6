import Hoist.Proofs.Conversion.Links
import Hoist.Proofs.Conversion.Moved

/-!
A converted program is resolved again.  A cell is there from the start of its scope, so its name
must mean nothing else in sight of it.  Then the program's own statements and the methods of its
hoisted blocks are resolved to copies, in which all names mean what they meant.
-/

namespace Hoist

open List

open Resolve (Goes)

theorem ScopeTable.Binds.lt_nextId {table : ScopeTable} {id : ScopeId} {name : String}
    {kind : BindingKind} (binds : table.Binds id name kind) : id < table.nextId := by
  obtain ⟨scope, found, -⟩ := binds
  exact ScopeTable.lt_nextId found

instance (table : ScopeTable) (id : ScopeId) (name : String) (kind : BindingKind) :
    Decidable (table.Binds id name kind) :=
  match found : table.scope? id with
  | none => .isFalse fun ⟨_, there, _⟩ => by cases found.symm.trans there
  | some scope =>
    if member : (name, kind) ∈ scope.bindings.entries then .isTrue ⟨scope, found, member⟩
    else .isFalse fun ⟨_, there, other⟩ => by
      cases found.symm.trans there
      exact member other

/-- In sight of a cell its name means no method, and no other scope has a variable of that name that
is no parameter. -/
def ConversionInput.Clear (input : ConversionInput) (program : ResolvedProgram) : Prop :=
  ∀ cell ∈ input.analysis.cells,
    (∀ part ∈ walkStmtsIn 0 program, part.2.occurrence? = some ⟨cell.2, some .method⟩ →
      input.table.sees part.1 cell.1 = false) ∧
    ∀ owner < input.table.nextId, owner = cell.1 ∨ input.table.sees owner cell.1 = false ∨
      ¬ input.table.Binds owner cell.2 .localVariable

instance (input : ConversionInput) (program : ResolvedProgram) : Decidable (input.Clear program) :=
  inferInstanceAs (Decidable (∀ cell ∈ input.analysis.cells, _ ∧ ∀ owner < _, _))

/-- A program whose converted form is resolved again. -/
structure Rereading (input : ConversionInput) (naming : Naming) (program : ResolvedProgram) where
  /-- The methods that the program defines. -/
  defined : String → Bool
  /-- The methods that the converted program defines. -/
  definedCopy : String → Bool
  /-- The names of the program. -/
  own : String → Prop
  rules : ∃ last, eventsScoped (Callable defined) input.table (stmtsEvents 0 program) [Layer.top]
    [last] ∧ input.table.Holds [] last
  wellFormed : ∃ floats, stmtsWellFormed (.resolved floats) false program
  callable : ∀ name, own name → Callable defined name → Callable definedCopy name
  named : ∀ node ∈ walkStmts program, ∀ name,
    (node.relabel erasing).identifier? = some name → own name
  fits : ∀ part ∈ stmtsParts input Site.top program, part.Fits input
  collected : ∀ block, .block block ∈ walkStmts program →
    (input.plan.helper? block.scope).isSome = true →
      (input.analysis.capturesOf block.scope).Collects input.table block.scope block.references
  cells : ∀ scope name, input.analysis.isCell scope name = true → ∃ block,
    .block block ∈ walkStmts program ∧ (input.plan.helper? block.scope).isSome = true ∧
      ∃ capture ∈ input.analysis.capturesOf block.scope, capture.name = name
  clear : input.Clear program

namespace Rereading

variable {input : ConversionInput} {naming : Naming} {program : ResolvedProgram}
  (reading : Rereading input naming program)

/-- What stays the same while the code of a method is read. -/
def region (rest restCopy : Layers) (method : Option ScopeId) (carries : String → Prop) :
    Region where
  input
  naming
  defined := reading.defined
  definedCopy := reading.definedCopy
  own := reading.own
  rest
  restCopy
  method
  carries

variable {block : ResolvedBlock} {occurrence : Occurrence}

theorem contents_subset (member : .block block ∈ walkStmts program) :
    block.contentsIn ⊆ walkStmtsIn 0 program := by
  rw [← walkStmtsIn_map_snd 0 program] at member
  obtain ⟨⟨scope, node⟩, there, rfl⟩ := mem_map.1 member
  exact walkStmtsIn_holdBlocks 0 program scope block there

theorem contentsIn_map_snd (block : ResolvedBlock) :
    block.contentsIn.map Prod.snd = walkParams block.params ++ walkStmts block.body := by
  rw [Block.contentsIn, map_append, walkParamsIn_map_snd, walkStmtsIn_map_snd]

include reading

theorem parts : (stmtsParts input Site.top program).map Part.node = walkStmts program :=
  stmtsParts_map_node _ _ _ reading.wellFormed.choose_spec

theorem apart {scope owner : ScopeId} {name : String}
    (isCell : input.analysis.isCell scope name = true) :
    owner = scope ∨ input.table.sees owner scope = false ∨
      ¬ input.table.Binds owner name .localVariable := by
  by_cases binds : input.table.Binds owner name .localVariable
  · have member : (scope, name) ∈ input.analysis.cells := contains_iff_mem.1 isCell
    exact (reading.clear _ member).2 owner binds.lt_nextId
  · exact .inr (.inr binds)

theorem place (member : .block block ∈ walkStmts program) :
    ∃ place, Layers.Leads input.table [Layer.top] place ∧
      block.ScopedAt (Callable reading.defined) input.table place := by
  obtain ⟨last, rules, -⟩ := reading.rules
  exact walkStmts_placed program rules _ member

theorem own_of_occurs {nodes : List ResolvedNode} (inside : nodes ⊆ walkStmts program)
    (member : occurrence ∈ occurrences nodes) : reading.own occurrence.name := by
  obtain ⟨loc, there⟩ := mem_occurrences.1 member
  exact reading.named _ (inside there) _ rfl

theorem capture_occurs (member : .block block ∈ walkStmts program)
    (planned : (input.plan.helper? block.scope).isSome = true) {capture : Capture}
    (captured : capture ∈ input.analysis.capturesOf block.scope) :
    ∃ occurrence ∈ occurrences (block.contentsIn.map Prod.snd), occurrence.name = capture.name ∧
      occurrence.target = some (.variable capture.scope) ∧
      input.table.within capture.scope block.scope = false := by
  obtain ⟨place, -, rules⟩ := reading.place member
  obtain ⟨-, -, same⟩ := rules.placed
  obtain ⟨reference, met, isNamed, leads, outside⟩ :=
    (reading.collected block member planned).sound capture captured
  refine ⟨reference.occurrence, ?_, isNamed, leads, outside⟩
  rw [contentsIn_map_snd]
  exact same ▸ mem_map_of_mem met

theorem own_of_captured (member : .block block ∈ walkStmts program)
    (planned : (input.plan.helper? block.scope).isSome = true) {capture : Capture}
    (captured : capture ∈ input.analysis.capturesOf block.scope) :
    reading.own capture.name := by
  obtain ⟨occurrence, occurs, isNamed, -⟩ := reading.capture_occurs member planned captured
  rw [← isNamed]
  refine reading.own_of_occurs ?_ occurs
  rw [← walkStmtsIn_map_snd 0 program]
  exact map_subset _ (contents_subset member)

section Region

variable {rest restCopy : Layers} {method : Option ScopeId} {carries : String → Prop}

theorem sound
    (carried : ∀ name, carries name → ∃ id, method = some id ∧ restCopy.find? name = some id)
    (unseen : ∀ name, rest.find? name = none → restCopy.find? name = none) :
    (reading.region rest restCopy method carries).Sound where
  callable := reading.callable
  carried := carried
  unseen name _ := unseen name
  clear name scope owner allocates isCell := by
    refine ⟨?_, reading.apart isCell⟩
    obtain ⟨block, member, planned, capture, captured, rfl⟩ := reading.cells scope name isCell
    exact reading.own_of_captured member planned captured

theorem allowsName {inner : ScopeId} {loc : Loc}
    (member : (inner, .expr (.name loc occurrence)) ∈ walkStmtsIn 0 program)
    (carried : ∀ scope, occurrence.target = some (.variable scope) → scope ∈ rest.path →
      carries occurrence.name) :
    (reading.region rest restCopy method carries).AllowsName inner occurrence where
  own := by
    have met := mem_map_of_mem (f := Prod.snd) member
    rw [walkStmtsIn_map_snd] at met
    exact reading.named _ met _ rfl
  carried := carried
  clear scope isCell := by
    have isMember : (scope, occurrence.name) ∈ input.analysis.cells := contains_iff_mem.1 isCell
    refine ⟨fun isMethod => ?_, fun owner _ => reading.apart isCell⟩
    refine (reading.clear _ isMember).1 _ member ?_
    rw [Node.occurrence?, ← isMethod]

theorem allowsAll {parts : List (ScopeId × ResolvedNode)}
    (inside : parts ⊆ walkStmtsIn 0 program) (held : HoldBlocks parts)
    (carried : ∀ occurrence ∈ occurrences (parts.map Prod.snd), ∀ scope,
      occurrence.target = some (.variable scope) → scope ∈ rest.path → carries occurrence.name) :
    (reading.region rest restCopy method carries).AllowsAll parts := by
  rintro ⟨scope, node⟩ member
  have met : node ∈ walkStmts program := by
    have there := mem_map_of_mem (f := Prod.snd) (inside member)
    rwa [walkStmtsIn_map_snd] at there
  unfold Region.Allows
  split
  · next loc occurrence same =>
    cases same
    refine reading.allowsName (inside member) (carried occurrence ?_)
    exact mem_occurrences.2 ⟨loc, mem_map_of_mem (f := Prod.snd) member⟩
  · next loc receiver method args tree parens same =>
    cases same
    intro helper planned
    rw [← reading.parts] at met
    obtain ⟨part, isPart, isCall⟩ := mem_map.1 met
    have called : part.node.blockCall? = some ⟨loc, receiver, method, args, tree⟩ := by
      rw [isCall]
      rfl
    exact reading.fits part isPart _ helper called planned
  · next tree same =>
    cases same
    intro planned place rules capture captured
    obtain ⟨occurrence, occurs, isNamed, leads, -⟩ := reading.capture_occurs met planned captured
    refine ⟨(reading.collected tree met planned).seen rules captured,
      reading.own_of_captured met planned captured, fun around => ?_⟩
    rw [← isNamed]
    refine carried occurrence ?_ _ leads around
    obtain ⟨place, occurs⟩ := mem_occurrences.1 occurs
    exact mem_occurrences.2 ⟨place, map_subset _ (held scope tree member) occurs⟩
  · next tree same =>
    cases same
    exact reading.named _ met _ (by cases tree with | mk name loc value => cases value <;> rfl)
  · trivial

end Region

omit reading in
theorem body_runs {region : Region} (sound : region.Sound) {path : List ScopeId}
    {carrying : Carrying} {first last copy : Layer} {table : ScopeTable} {site : Site}
    {scope : ScopeId} {body : List ResolvedStmt}
    (standing : region.Standing path carrying [⟨first, copy, false⟩] table)
    (rules : eventsScoped (Callable region.defined) region.input.table (stmtsEvents scope body)
      (first :: region.sources []) (last :: region.sources []))
    (holds : region.input.table.Holds (region.sources []) last)
    (fits : region.SiteFits ⟨site, scope, path, carrying, [], true⟩ first)
    (allowed : region.AllowsAll (walkStmtsIn scope body)) :
    ∃ value next copyLast,
      Resolve.stmts path (Conversion.cellPrelude region.input scope ++
        Image.stmts region.input region.naming site body) table = .ok (value, next) ∧
      region.Standing path carrying [⟨last, copyLast, true⟩] next ∧
      BodyCopied region.input body carrying copy.scope value := by
  obtain ⟨_, ⟨⟩, -, grown⟩ := (Node.stmts_balanced body).keeps rules
  obtain ⟨cells, middle, copyReady, ranCells, standingReady, allocates⟩ :=
    Region.prelude_runs sound (grown rfl) holds standing
  rw [fits.here] at ranCells
  obtain ⟨others, next, copyLast, ran, standingLast, copied⟩ :=
    Region.rereads_stmts _ body sound fits (Node.stmtsEvents_children scope body ▸ rules)
      (Node.walkStmtsIn_children scope body ▸ allowed) standingReady
  exact ⟨cells ++ others, next, copyLast, Resolve.stmts_append ranCells ran, standingLast, cells,
    others, rfl, allocates, copied⟩

/-- The statements of the program itself are resolved to copies. -/
theorem goes_program : Goes reading.definedCopy [0] [] Layer.top
      (fun _ => BodyCopied input program ⟨[(0, 0)], none⟩ 0)
      (Resolve.stmts [0] (Conversion.cellPrelude input 0 ++
        Image.stmts input naming Site.top program)) := by
  intro _ table shown knows
  obtain ⟨last, rules, holds⟩ := reading.rules
  let region := reading.region [] [] none fun _ => False
  have sound : region.Sound := reading.sound (fun _ carried => carried.elim) fun _ _ => rfl
  obtain ⟨_, ⟨⟩, extended, -⟩ := (Node.stmts_balanced program).keeps rules
  have enters : input.table.Enters [] 0 .top := by
    obtain ⟨⟨bindings, found, -⟩, above⟩ := holds
    rw [extended.scope, extended.kind] at found
    exact ⟨⟨bindings, found⟩, fun _ around => absurd around not_mem_nil⟩
  have standing : region.Standing [0] ⟨[(0, 0)], none⟩ [⟨Layer.top, Layer.top, false⟩] table := by
    refine ⟨⟨⟨rfl, fun name _ => ?_⟩, ?_, enters, trivial⟩, rfl, rfl, shown, knows⟩
    · simp
    · exact fun notReady => absurd notReady Bool.false_ne_true
  have fits : region.SiteFits ⟨Site.top, 0, [0], ⟨[(0, 0)], none⟩, [], true⟩ Layer.top :=
    ⟨rfl, ⟨fun _ => nofun, fun _ => rfl⟩, fun _ => nofun, fun _ => nofun⟩
  have allowed : region.AllowsAll (walkStmtsIn 0 program) :=
    reading.allowsAll (List.Subset.refl _) (walkStmtsIn_holdBlocks 0 program)
      fun _ _ _ _ around => absurd around not_mem_nil
  obtain ⟨value, next, copyLast, ran, standingLast, copied⟩ :=
    body_runs sound standing rules holds fits allowed
  exact ⟨value, next, copyLast, ran, (List.cons.inj standingLast.path).1, standingLast.shown,
    standingLast.knows, copied⟩

end Rereading

end Hoist
