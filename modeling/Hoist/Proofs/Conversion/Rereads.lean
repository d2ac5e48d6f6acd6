import Hoist.Proofs.Conversion.Region

/-!
Converted code is resolved.  While a piece of it is read, the layers of the copy stay aligned with
those of the source, every name is found where it is carried, and nothing fails.
-/

namespace Hoist

open List

open Resolve (Resolving)

variable {α β : Type}

namespace Resolve

theorem run_bind {first : Resolving α} {next : α → Resolving β} {table middle : ScopeTable}
    {value : α} (ran : first table = .ok (value, middle)) :
    (first >>= next) table = next value middle := by
  simp only [bind, StateT.bind, ran]
  rfl

theorem stmts_append {path : List ScopeId} {left right : List PlainStmt}
    {first second : List ResolvedStmt} {table middle next : ScopeTable}
    (ran : stmts path left table = .ok (first, middle))
    (ranRight : stmts path right middle = .ok (second, next)) :
    stmts path (left ++ right) table = .ok (first ++ second, next) := by
  induction left generalizing first table with
  | nil =>
    cases ran
    exact ranRight
  | cons tree trees ih =>
    obtain ⟨⟨one, between⟩, ranOne, ran⟩ := bind_eq_ok.1 ran
    obtain ⟨⟨others, last⟩, ranOthers, ran⟩ := bind_eq_ok.1 ran
    cases ran
    rw [cons_append, stmts, run_bind ranOne, run_bind (ih ranOthers)]
    rfl

end Resolve

/-- The statement that allocates the cell of a variable. -/
def Binding.allocation (binding : Binding) : PlainStmt :=
  let loc := binding.loc.getD Loc.start
  .expression loc (.assign loc (.name loc binding.name) (.array loc
    [if binding.kind = .parameter then .name loc binding.name else .literal loc .nil]))

/-- The variables of a scope that are held in cells. -/
def ConversionInput.cells (input : ConversionInput) (scope : ScopeId) : Bindings :=
  ((input.table.scope? scope).elim [] Scope.bindings).filter fun binding =>
    input.analysis.isCell scope binding.name

theorem Conversion.cellPrelude_eq (input : ConversionInput) (scope : ScopeId) :
    cellPrelude input scope = (input.cells scope).map Binding.allocation := by
  have same : ∀ bindings : Bindings, (bindings.filterMap fun binding =>
      if input.analysis.isCell scope binding.name = true then some binding.allocation else none) =
      (bindings.filter fun binding => input.analysis.isCell scope binding.name).map
        Binding.allocation := by
    intro bindings
    rw [← filterMap_eq_map, filterMap_filter]
    rfl
  unfold ConversionInput.cells
  cases found : input.table.scope? scope with
  | none =>
    rw [cellPrelude, found]
    rfl
  | some entry =>
    rw [cellPrelude, found]
    exact same entry.bindings

variable {name : String} {scope : ScopeId}

theorem ConversionInput.mem_cells {input : ConversionInput} :
    (∃ binding ∈ input.cells scope, binding.name = name) ↔ input.Allocates scope name := by
  unfold cells Allocates ScopeTable.Binds
  cases found : input.table.scope? scope with
  | none => simp
  | some entry =>
    simp only [Option.elim_some, mem_filter, Option.some.injEq, exists_eq_left',
      Bindings.entries, mem_map, Prod.mk.injEq]
    constructor
    · rintro ⟨binding, ⟨member, isCell⟩, rfl⟩
      exact ⟨isCell, binding.kind, binding, member, rfl, rfl⟩
    · rintro ⟨isCell, kind, binding, member, rfl, -⟩
      exact ⟨binding, ⟨member, isCell⟩, rfl⟩

variable {occurrence : Occurrence} {binding : Binding}

theorem ConversionInput.binds_of_mem_cells {input : ConversionInput}
    (member : binding ∈ input.cells scope) : input.table.Binds scope binding.name binding.kind := by
  have there := (mem_filter.1 member).1
  cases found : input.table.scope? scope with
  | none =>
    rw [found] at there
    exact absurd there not_mem_nil
  | some entry =>
    rw [found] at there
    exact ⟨entry, found, mem_map.2 ⟨binding, there, rfl⟩⟩

variable {loc : Loc}

section Allocation

variable {path : List ScopeId} {table : ScopeTable} {outer : Layers} {copy : Layer}
  {defined : String → Bool}

theorem allocation_eq_ok {content : PlainExpr} {value : ResolvedExpr} {middle next : ScopeTable}
    (ran : Resolve.assignment path name loc table = .ok (occurrence, middle))
    (ranContent : Resolve.expr path content middle = .ok (value, next)) :
    Resolve.stmt path
        (.expression loc (.assign loc (.name loc name) (.array loc [content]))) table =
      .ok (.expression loc (.assign loc (.name loc occurrence) (.array loc [value])), next) := by
  have target : Resolve.target path (.name loc name) table =
      .ok (.name loc occurrence, middle) := Resolve.run_bind ran
  have contents : Resolve.exprs path [content] middle = .ok ([value], next) :=
    Resolve.run_bind ranContent
  have array : Resolve.expr path (.array loc [content]) middle = .ok (.array loc [value], next) :=
    Resolve.run_bind contents
  have assign : Resolve.expr path (.assign loc (.name loc name) (.array loc [content])) table =
      .ok (.assign loc (.name loc occurrence) (.array loc [value]), next) :=
    (Resolve.run_bind target).trans (Resolve.run_bind array)
  exact Resolve.run_bind assign

theorem allocation_run (there : Layers.path (copy :: outer) = path)
    (shown : table.Shows (copy :: outer)) (knows : table.Knows defined)
    (isParam : binding.kind = .parameter → copy.has binding.name)
    (free : copy.has binding.name ∨ Layers.find? binding.name (copy :: outer) = none) :
    ∃ cell next copyAfter, Resolve.stmt path binding.allocation table = .ok (cell, next) ∧
      next.Shows (copyAfter :: outer) ∧ next.Knows defined ∧ copyAfter.scope = copy.scope ∧
      copyAfter.kind = copy.kind ∧
      (∀ name, copyAfter.has name ↔ copy.has name ∨ name = binding.name) ∧
      cell.Allocates copy.scope := by
  subst there
  have lookup := shown.lookup? binding.name
  have shape : ∀ content, (if binding.kind = .parameter then
      (.name (binding.loc.getD Loc.start) binding.name : PlainExpr)
      else .literal (binding.loc.getD Loc.start) .nil) = content →
      Resolve.stmt (Layers.path (copy :: outer)) binding.allocation table =
        Resolve.stmt (Layers.path (copy :: outer)) (.expression (binding.loc.getD Loc.start)
          (.assign (binding.loc.getD Loc.start) (.name (binding.loc.getD Loc.start) binding.name)
            (.array (binding.loc.getD Loc.start) [content]))) table := by
    rintro content rfl
    rfl
  by_cases has : copy.has binding.name
  · have seen : Layers.find? binding.name (copy :: outer) = some copy.scope := if_pos has
    have ran : Resolve.assignment (Layers.path (copy :: outer)) binding.name
      (binding.loc.getD Loc.start) table = _ := Resolve.assignment_seen (lookup.trans seen)
    have shownNext := shown.updateBinding copy.scope binding.name
      (table.throughClosure (Layers.path (copy :: outer)) copy.scope)
    have same : ∀ name, copy.has name ↔ copy.has name ∨ name = binding.name := by
      intro name
      constructor
      · exact .inl
      · rintro (there | rfl)
        · exact there
        · exact has
    by_cases param : binding.kind = .parameter
    · have read : Resolve.reference (Layers.path (copy :: outer)) binding.name
        (binding.loc.getD Loc.start) _ = _ :=
        Resolve.reference_seen ((shownNext.lookup? binding.name).trans seen)
      have content : Resolve.expr (Layers.path (copy :: outer))
        (.name (binding.loc.getD Loc.start) binding.name) _ = _ := Resolve.run_bind read
      exact ⟨_, _, copy, (shape _ (if_pos param)).trans (allocation_eq_ok ran content), shownNext,
        knows.of_methods rfl, rfl, rfl, same, _, _, _, rfl, .inr rfl⟩
    · exact ⟨_, _, copy, (shape _ (if_neg param)).trans (allocation_eq_ok ran rfl), shownNext,
        knows.of_methods rfl, rfl, rfl, same, _, _, _, rfl, .inl rfl⟩
  · have unseen := free.resolve_left has
    have ran : Resolve.assignment (Layers.path (copy :: outer)) binding.name
      (binding.loc.getD Loc.start) table = _ := Resolve.assignment_new (lookup.trans unseen)
    exact ⟨_, _, copy.declare binding.name .localVariable,
      (shape _ (if_neg fun param => has (isParam param))).trans (allocation_eq_ok ran rfl),
      shown.addBinding _, knows.of_methods rfl, rfl, rfl, fun name => Layer.has_declare,
      _, _, _, rfl, .inl rfl⟩

theorem allocations_run (there : Layers.path (copy :: outer) = path)
    (shown : table.Shows (copy :: outer)) (knows : table.Knows defined) {bindings : Bindings}
    (isParam : ∀ binding ∈ bindings, binding.kind = .parameter → copy.has binding.name)
    (free : ∀ binding ∈ bindings,
      copy.has binding.name ∨ Layers.find? binding.name (copy :: outer) = none) :
    ∃ cells next copyAfter,
      Resolve.stmts path (bindings.map Binding.allocation) table = .ok (cells, next) ∧
      next.Shows (copyAfter :: outer) ∧ next.Knows defined ∧ copyAfter.scope = copy.scope ∧
      copyAfter.kind = copy.kind ∧
      (∀ name, copyAfter.has name ↔
        copy.has name ∨ ∃ binding ∈ bindings, binding.name = name) ∧
      ∀ cell ∈ cells, cell.Allocates copy.scope := by
  induction bindings generalizing copy table with
  | nil =>
    refine ⟨[], table, copy, rfl, shown, knows, rfl, rfl, fun name => ?_, ?_⟩
    · simp
    · exact fun _ member => absurd member not_mem_nil
  | cons first rest ih =>
    rw [forall_mem_cons] at isParam free
    obtain ⟨cell, middle, copyMiddle, ran, shown, knows, sameScope, sameKind, names, allocates⟩ :=
      allocation_run there shown knows isParam.1 free.1
    have thereMiddle : Layers.path (copyMiddle :: outer) = path := by
      rw [Layers.path_cons, sameScope]
      exact there
    have freeMiddle : ∀ binding ∈ rest, copyMiddle.has binding.name ∨
        Layers.find? binding.name (copyMiddle :: outer) = none := by
      intro binding member
      by_cases has : copyMiddle.has binding.name
      · exact .inl has
      · rcases free.2 binding member with there | unseen
        · exact .inl ((names _).2 (.inl there))
        · refine .inr ?_
          rw [Layers.find?_cons, if_neg has, sameKind]
          rwa [Layers.find?_cons, if_neg (Layers.not_has_of_find? unseen)] at unseen
    obtain ⟨cells, next, copyAfter, ranRest, shown, knows, sameScopeRest, sameKindRest, namesRest,
      allocatesRest⟩ := ih thereMiddle shown knows
        (fun binding member param => (names _).2 (.inl (isParam.2 binding member param))) freeMiddle
    refine ⟨cell :: cells, next, copyAfter, ?_, shown, knows, sameScopeRest.trans sameScope,
      sameKindRest.trans sameKind, fun name => ?_, ?_⟩
    · exact (Resolve.run_bind ran).trans (Resolve.run_bind ranRest)
    · rw [namesRest, names, exists_mem_cons_iff, or_assoc, eq_comm (a := name)]
    · rw [sameScope] at allocatesRest
      exact forall_mem_cons.2 ⟨allocates, allocatesRest⟩

end Allocation

namespace Region

/-- Layers on both sides, while the copy is read: the table shows those of the copy. -/
structure Standing (region : Region) (path : List ScopeId) (carrying : Carrying)
    (pairs : List Pairing) (table : ScopeTable) : Prop where
  aligned : region.Aligned pairs
  path : (region.copies pairs).path = path
  carrying : region.carrying pairs = carrying
  shown : table.Shows (region.copies pairs)
  knows : table.Knows region.definedCopy

/-- Where code is converted and its copy is read: the site and the innermost scope of the source;
the scopes around the copy; the layers around the innermost one, and whether its cells are there. -/
structure Spot where
  site : Site
  scope : ScopeId
  path : List ScopeId
  carrying : Carrying
  others : List Pairing
  ready : Bool

abbrev Spot.pairs (spot : Spot) (source copy : Layer) : List Pairing :=
  ⟨source, copy, spot.ready⟩ :: spot.others

abbrev Stands (region : Region) (spot : Spot) (source copy : Layer) (table : ScopeTable) : Prop :=
  region.Standing spot.path spot.carrying (spot.pairs source copy) table

/-- A piece of the copy can be read, while the innermost layer of the source goes from `before` to
`after`; `post` holds of what it is resolved to. -/
def Follows (region : Region) (spot : Spot) (before after : Layer) (post : α → Prop)
    (run : Resolving α) : Prop :=
  ∀ ⦃copy table⦄, region.Stands spot before copy table →
    ∃ value next copyAfter, run table = .ok (value, next) ∧
      region.Stands spot after copyAfter next ∧ post value

section Follows

variable {region : Region} {spot : Spot} {before middle after : Layer} {post : α → Prop}
  {goal : β → Prop}

theorem follows_pure {value : α} (holds : post value) :
    region.Follows spot before before post (pure value) :=
  fun copy table standing => ⟨value, table, copy, rfl, standing, holds⟩

theorem Follows.bind {first : Resolving α} {next : α → Resolving β}
    (follows : region.Follows spot before middle post first)
    (step : ∀ value, post value →
      region.Follows spot middle after goal (next value)) :
    region.Follows spot before after goal (first >>= next) := by
  intro copy table standing
  obtain ⟨value, between, copyMiddle, ran, standing, holds⟩ := follows standing
  obtain ⟨result, last, copyAfter, ranNext, standing, holds⟩ := step value holds standing
  exact ⟨result, last, copyAfter, (Resolve.run_bind ran).trans ranNext, standing, holds⟩

theorem follows_pure_bind {value : α} {next : α → Resolving β}
    (follows : region.Follows spot before after goal (next value)) :
    region.Follows spot before after goal (pure value >>= next) := follows

/-- A step that leaves the layers as they are. -/
theorem follows_of_same {run : Resolving α}
    (kept : ∀ ⦃copy table⦄, region.Stands spot before copy table →
      ∃ value next, run table = .ok (value, next) ∧
        next.Shows (region.copies (spot.pairs before copy)) ∧
        next.Knows region.definedCopy ∧ post value) :
    region.Follows spot before before post run := by
  intro copy table standing
  obtain ⟨value, next, ran, shown, knows, holds⟩ := kept standing
  exact ⟨value, next, copy, ran, { standing with shown, knows }, holds⟩

theorem follows_global (name : String) (loc : Loc) (writing : Bool) :
    region.Follows spot before before (fun _ => True)
      (Resolve.global name loc writing) := by
  refine follows_of_same fun copy table standing => ⟨(), _, rfl, ?_, ?_, trivial⟩
  · exact standing.shown.of_scopes rfl
  · exact standing.knows.of_methods rfl

theorem follows_variable (sound : region.Sound) (loc : Loc) (own : region.own name)
    (seen : Layers.find? name (before :: region.sources spot.others) = some scope)
    (carried : scope ∈ region.rest.path → region.carries name) :
    region.Follows spot before before
      (spot.carrying.Keeps ⟨name, some (.variable scope)⟩)
        (Resolve.reference spot.path name loc) := by
  refine follows_of_same fun copy table standing => ?_
  obtain ⟨carrier, found, finds⟩ := standing.aligned.finds sound own seen carried
  rw [standing.carrying] at finds
  have lookup := (standing.shown.lookup? name).trans found
  rw [standing.path] at lookup
  refine ⟨_, table, Resolve.reference_seen lookup, standing.shown, standing.knows, rfl, .inr ?_⟩
  exact ⟨scope, carrier, rfl, rfl, finds⟩

theorem follows_method (sound : region.Sound) (loc : Loc)
    (allowed : region.AllowsName before.scope occurrence)
    (isMethod : occurrence.target = some .method)
    (unseen : Layers.find? occurrence.name (before :: region.sources spot.others) = none)
    (callable : Callable region.defined occurrence.name) :
    region.Follows spot before before (spot.carrying.Keeps occurrence)
      (Resolve.reference spot.path occurrence.name loc) := by
  refine follows_of_same fun copy table standing => ?_
  have keeps : spot.carrying.Keeps occurrence ⟨occurrence.name, some .method⟩ :=
    ⟨rfl, .inl ⟨isMethod, rfl⟩⟩
  have nothing : Layers.find? occurrence.name
      (region.copies (spot.pairs before copy)) = none := by
    rcases standing.aligned.find?_eq_none sound allowed.own unseen with
      nothing | ⟨pair, -, early, inSight⟩
    · exact nothing
    · have unseen := (allowed.clear _ early.2.1.1).1 isMethod
      cases (standing.aligned.sees inSight).symm.trans unseen
  have lookup := (standing.shown.lookup? occurrence.name).trans nothing
  rw [standing.path] at lookup
  have known := sound.callable _ allowed.own callable
  by_cases there : (table.methods.find? occurrence.name).isSome = true
  · exact ⟨_, table, Resolve.reference_method lookup there, standing.shown, standing.knows, keeps⟩
  · have kernel : kernelMethods.contains occurrence.name = true := by
      rcases known with defined | kernel
      · rw [← standing.knows.defines, Plan.definesMethod] at defined
        split at defined
        · next found =>
          rw [found] at there
          exact absurd rfl there
        · cases defined
      · exact kernel
    exact ⟨_, _, Resolve.reference_kernel lookup there kernel, standing.shown.of_scopes rfl,
      standing.knows.add there kernel, keeps⟩

theorem follows_reference (sound : region.Sound) (loc : Loc)
    (allowed : region.AllowsName before.scope occurrence)
    (reads : Layers.Reads (Callable region.defined)
      (before :: region.sources spot.others) occurrence) :
    region.Follows spot before before (spot.carrying.Keeps occurrence)
      (Resolve.reference spot.path occurrence.name loc) := by
  rcases reads with ⟨scope, seen, leads⟩ | ⟨unseen, callable, isMethod⟩
  · obtain ⟨name, target⟩ := occurrence
    cases leads
    exact follows_variable sound loc allowed.own seen (allowed.carried scope rfl)
  · exact follows_method sound loc allowed isMethod unseen callable

theorem follows_assignment_seen (sound : region.Sound) (loc : Loc)
    (allowed : region.AllowsName before.scope occurrence)
    (leads : occurrence.target = some (.variable scope))
    (seen : Layers.find? occurrence.name (before :: region.sources spot.others) = some scope) :
    region.Follows spot before before (spot.carrying.Keeps occurrence)
      (Resolve.assignment spot.path occurrence.name loc) := by
  refine follows_of_same fun copy table standing => ?_
  obtain ⟨carrier, found, finds⟩ :=
    standing.aligned.finds sound allowed.own seen (allowed.carried scope leads)
  rw [standing.carrying] at finds
  have lookup := (standing.shown.lookup? occurrence.name).trans found
  rw [standing.path] at lookup
  refine ⟨_, _, Resolve.assignment_seen lookup, standing.shown.updateBinding _ _ _,
    standing.knows.of_methods rfl, rfl, .inr ?_⟩
  exact ⟨scope, carrier, leads, rfl, finds⟩

/-- A new variable can only be taken for a cell of its own scope. -/
theorem Aligned.early_new {pairs : List Pairing} {pair early : Pairing}
    (aligned : region.Aligned (pair :: pairs))
    (binds : region.input.table.Binds pair.source.scope name .localVariable)
    (apart : region.Apart pair.source.scope early.source.scope name)
    (member : early ∈ pair :: pairs)
    (inSight : early.source.scope ∈ region.input.table.sight
      (region.sources (pair :: pairs)).path) :
    early = pair := by
  rcases mem_cons.1 member with same | outer
  · exact same
  · rcases apart with same | unseen | notLocal
    · exact absurd same (aligned.scope_ne outer)
    · cases (aligned.sees inSight).symm.trans unseen
    · exact absurd binds notLocal

theorem Matches.declare {copy : Layer} {ready : Bool} (agree : region.Matches ⟨before, copy, ready⟩)
    (name : String) (kind copyKind : BindingKind) :
    region.Matches ⟨before.declare name kind, copy.declare name copyKind, ready⟩ := by
  refine ⟨agree.kind, fun other own => ?_⟩
  dsimp only
  rw [Layer.has_declare, Layer.has_declare, agree.names other own]
  constructor
  · rintro ((has | cell) | same)
    · exact .inl (.inl has)
    · exact .inr cell
    · exact .inl (.inr same)
  · rintro ((has | same) | cell)
    · exact .inl (.inl has)
    · exact .inr same
    · exact .inl (.inr cell)

theorem follows_assignment_new (sound : region.Sound) (loc : Loc)
    (allowed : region.AllowsName before.scope occurrence)
    (leads : occurrence.target = some (.variable before.scope))
    (unseen : Layers.find? occurrence.name (before :: region.sources spot.others) = none)
    (binds : region.input.table.Binds before.scope occurrence.name .localVariable)
    (noCell : spot.ready = true → region.input.analysis.isCell before.scope
      occurrence.name = false) :
    region.Follows spot before (before.declare occurrence.name .localVariable)
      (spot.carrying.Keeps occurrence) (Resolve.assignment spot.path occurrence.name loc) := by
  intro copy table standing
  have nothing : Layers.find? occurrence.name
      (region.copies (spot.pairs before copy)) = none := by
    rcases standing.aligned.find?_eq_none sound allowed.own unseen with
      nothing | ⟨pair, there, early, inSight⟩
    · exact nothing
    · have apart := (allowed.clear _ early.2.1.1).2 _ leads
      obtain rfl := standing.aligned.early_new binds apart there inSight
      cases early.2.1.1.symm.trans (noCell early.1)
  have lookup := (standing.shown.lookup? occurrence.name).trans nothing
  have innermost : Resolve.innermost spot.path = copy.scope := by
    rw [← standing.path]
    rfl
  rw [standing.path] at lookup
  refine ⟨_, _, copy.declare occurrence.name .localVariable, Resolve.assignment_new lookup, ?_, ?_⟩
  · rw [innermost]
    refine ⟨standing.aligned.past (.declare unseen) ?_, standing.path, standing.carrying, ?_, ?_⟩
    · exact standing.aligned.1.declare _ _ _
    · exact standing.shown.addBinding _
    · exact standing.knows.of_methods rfl
  · rw [innermost]
    refine ⟨rfl, .inr ⟨before.scope, copy.scope, leads, rfl, .inl ?_⟩⟩
    rw [← standing.carrying]
    exact mem_cons_self

theorem follows_cell_new (loc : Loc) (allowed : region.AllowsName before.scope occurrence)
    (leads : occurrence.target = some (.variable before.scope))
    (unseen : Layers.find? occurrence.name (before :: region.sources spot.others) = none)
    (binds : region.input.table.Binds before.scope occurrence.name .localVariable)
    (isReady : spot.ready = true)
    (isCell : region.input.analysis.isCell before.scope occurrence.name = true) :
    region.Follows spot before (before.declare occurrence.name .localVariable)
      (spot.carrying.Keeps occurrence) (Resolve.reference spot.path occurrence.name loc) := by
  intro copy table standing
  have allocates : region.input.Allocates before.scope occurrence.name := ⟨isCell, _, binds⟩
  have has : copy.has occurrence.name :=
    (standing.aligned.1.names _ allowed.own).2 (.inr ⟨isReady, allocates⟩)
  have lookup := (standing.shown.lookup? occurrence.name).trans (Layers.find?_cons_of_has _ has)
  rw [standing.path] at lookup
  refine ⟨_, table, copy, Resolve.reference_seen lookup, ?_, ?_⟩
  · refine ⟨standing.aligned.past (.declare unseen) ⟨standing.aligned.1.kind, fun name own => ?_⟩,
      standing.path, standing.carrying, standing.shown, standing.knows⟩
    dsimp only
    rw [Layer.has_declare, standing.aligned.1.names name own]
    constructor
    · rintro (there | cell)
      · exact .inl (.inl there)
      · exact .inr cell
    · rintro ((there | rfl) | cell)
      · exact .inl there
      · exact .inr ⟨isReady, allocates⟩
      · exact .inr cell
  · refine ⟨rfl, .inr ⟨before.scope, copy.scope, leads, rfl, .inl ?_⟩⟩
    rw [← standing.carrying]
    exact mem_cons_self

end Follows

/-- The place of converted code, as its site tells: whether the cells of the innermost scope are
there, and which variables reach the code as parameters of a method. -/
structure SiteFits (region : Region) (spot : Spot) (before : Layer) : Prop where
  here : before.scope = spot.scope
  ready : spot.ready = true ↔ spot.site.defaultsOf ≠ some spot.scope
  defaults : ∀ id, spot.site.defaultsOf = some id →
    id ∈ spot.scope :: (region.sources spot.others).path
  frame : ∀ set, spot.site.frame = some set → ∀ capture ∈ set, capture.scope ∈ region.rest.path

section Names

variable {region : Region} {spot : Spot} {before after : Layer}

theorem SiteFits.allows (fits : region.SiteFits spot before)
    (allowed : region.AllowsName spot.scope occurrence) :
    region.AllowsName before.scope occurrence := by
  rw [fits.here]
  exact allowed

theorem SiteFits.isCellAt (fits : region.SiteFits spot before) {copy : Layer}
    (aligned : region.Aligned (spot.pairs before copy)) (name : String) :
    Conversion.isCellAt region.input spot.site before.scope name =
      (spot.ready && region.input.analysis.isCell before.scope name) := by
  rw [fits.here]
  unfold Conversion.isCellAt
  cases isReady : spot.ready with
  | false =>
    have defaults : spot.site.defaultsOf = some spot.scope := by
      by_contra other
      cases isReady.symm.trans (fits.ready.2 other)
    rw [if_pos (by simp [defaults]), Bool.false_and]
  | true =>
    rw [if_neg (by simpa using fits.ready.1 isReady), Bool.true_and]
    have noCapture : (spot.site.frame.bind (·.forVariable? spot.scope name)) = none := by
      rw [Option.bind_eq_none_iff]
      intro set isFrame
      rw [CaptureSet.forVariable?, Option.filter_eq_none_iff]
      intro capture found same
      have around := fits.frame set isFrame capture (mem_of_find?_eq_some found)
      refine aligned.not_mem around (mem_map.2 ⟨_, mem_cons_self, ?_⟩)
      exact fits.here.trans (eq_of_beq same).symm
    rw [noCapture]

theorem follows_expr_name
    (follows : region.Follows spot before after (spot.carrying.Keeps occurrence)
      (Resolve.reference spot.path occurrence.name loc)) :
    region.Follows spot before after (spot.carrying.KeepsName loc occurrence)
      (Resolve.expr spot.path (.name loc occurrence.name)) :=
  follows.bind fun value keeps => follows_pure ⟨value, keeps, .inl rfl⟩

theorem follows_expr_content
    (follows : region.Follows spot before after (spot.carrying.Keeps occurrence)
      (Resolve.reference spot.path occurrence.name loc)) :
    region.Follows spot before after (spot.carrying.KeepsName loc occurrence)
      (Resolve.expr spot.path (HoistedClosure.cellContent loc occurrence.name)) := by
  have name : region.Follows spot before after
      (fun tree => ∃ value, spot.carrying.Keeps occurrence value ∧ tree = Expr.name loc value)
      (Resolve.expr spot.path (.name loc occurrence.name)) :=
    follows.bind fun value keeps => follows_pure ⟨value, keeps, rfl⟩
  have zero : region.Follows spot after after
      (fun trees => trees = [Expr.literal loc (.int 0)])
      (Resolve.exprs spot.path [.literal loc (.int 0)]) :=
    follows_pure_bind (follows_pure_bind (follows_pure rfl))
  refine name.bind ?_
  rintro _ ⟨value, keeps, rfl⟩
  refine zero.bind ?_
  rintro _ rfl
  exact follows_pure ⟨value, keeps, .inr rfl⟩

theorem follows_name (sound : region.Sound) (loc : Loc)
    (allowed : region.AllowsName before.scope occurrence)
    (reads : Layers.Reads (Callable region.defined)
      (before :: region.sources spot.others) occurrence) :
    region.Follows spot before before (spot.carrying.KeepsName loc occurrence)
      (Resolve.expr spot.path (Conversion.name region.input spot.site loc occurrence)) := by
  have follows : region.Follows spot before before
      (spot.carrying.Keeps occurrence) (Resolve.reference spot.path occurrence.name loc) :=
    follows_reference sound loc allowed reads
  unfold Conversion.name
  split
  · split
    · exact follows_expr_content follows
    · exact follows_expr_name follows
  · exact follows_expr_name follows

theorem follows_target_name (sound : region.Sound)
    (fits : region.SiteFits spot before)
    (allowed : region.AllowsName before.scope occurrence)
    (writes : before.Writes region.input.table (region.sources spot.others) occurrence after) :
    region.Follows spot before after (spot.carrying.KeepsName loc occurrence)
      (Resolve.target spot.path (Conversion.name region.input spot.site loc occurrence)) := by
  have plain : ∀ {after : Layer}, region.Follows spot before after
      (spot.carrying.Keeps occurrence) (Resolve.assignment spot.path occurrence.name loc) →
      region.Follows spot before after (spot.carrying.KeepsName loc occurrence)
        (Resolve.target spot.path (.name loc occurrence.name)) :=
    fun follows => follows.bind fun value keeps => follows_pure ⟨value, keeps, .inl rfl⟩
  rcases writes with ⟨scope, seen, leads, rfl⟩ | ⟨unseen, leads, rfl, binds⟩
  · unfold Conversion.name
    rw [leads]
    dsimp only
    split
    · exact follows_expr_content
        (follows_reference sound loc allowed (.inl ⟨scope, seen, leads⟩))
    · exact plain (follows_assignment_seen sound loc allowed leads seen)
  · intro copy table standing
    unfold Conversion.name
    rw [leads]
    dsimp only
    rw [fits.isCellAt standing.aligned]
    by_cases cell : (spot.ready && region.input.analysis.isCell before.scope occurrence.name) = true
    · rw [if_pos cell]
      obtain ⟨isReady, isCell⟩ := Bool.and_eq_true_iff.1 cell
      exact follows_expr_content (follows_cell_new loc allowed leads unseen binds isReady isCell)
        standing
    · rw [if_neg cell]
      refine plain (follows_assignment_new sound loc allowed leads unseen binds fun isReady => ?_)
        standing
      simpa [isReady] using cell

end Names

section Scopes

variable {region : Region} {path : List ScopeId} {carrying : Carrying} {others : List Pairing}
  {ready : Bool} {before first last copy : Layer} {table : ScopeTable}

theorem has_or_new (grown : first.Grown (region.sources others) last)
    (holds : region.input.table.Holds (region.sources others) last)
    {kind : BindingKind} (binds : region.input.table.Binds first.scope name kind) :
    first.has name ∨ (kind = .localVariable ∧
      Layers.find? name (first :: region.sources others) = none) := by
  obtain ⟨entry, found, member⟩ := binds
  obtain ⟨⟨bindings, foundLast, names⟩, -⟩ := holds
  rw [grown.scope, found] at foundLast
  cases foundLast
  obtain ⟨new, equal, isNew⟩ := grown.names
  rw [names, equal] at member
  rcases mem_append.1 member with member | member
  · exact .inl (mem_map_of_mem (f := Prod.fst) member)
  · exact .inr (isNew _ member)

theorem prelude_runs (sound : region.Sound) (grown : first.Grown (region.sources others) last)
    (holds : region.input.table.Holds (region.sources others) last)
    (standing : region.Standing path carrying (⟨first, copy, false⟩ :: others) table) :
    ∃ cells next copyAfter,
      Resolve.stmts path (Conversion.cellPrelude region.input first.scope) table =
        .ok (cells, next) ∧
      region.Standing path carrying (⟨first, copyAfter, true⟩ :: others) next ∧
      ∀ cell ∈ cells, cell.Allocates copy.scope := by
  obtain ⟨agree, -, enters, alignedOthers⟩ := standing.aligned
  have own : ∀ {name}, region.input.Allocates first.scope name → region.own name :=
    fun allocates => (sound.clear _ _ _ allocates allocates.1).1
  have allocated : ∀ binding ∈ region.input.cells first.scope,
      region.input.Allocates first.scope binding.name :=
    fun binding member => ConversionInput.mem_cells.1 ⟨binding, member, rfl⟩
  have hasCopy : ∀ {name}, region.input.Allocates first.scope name → first.has name →
      copy.has name :=
    fun allocates has => (agree.names _ (own allocates)).2 (.inl has)
  have isParam : ∀ binding ∈ region.input.cells first.scope,
      binding.kind = .parameter → copy.has binding.name := by
    intro binding member param
    have binds := ConversionInput.binds_of_mem_cells member
    rcases has_or_new grown holds binds with has | ⟨isLocal, -⟩
    · exact hasCopy (allocated binding member) has
    · cases isLocal.symm.trans param
  have free : ∀ binding ∈ region.input.cells first.scope, copy.has binding.name ∨
      Layers.find? binding.name (copy :: region.copies others) = none := by
    intro binding member
    have allocates := allocated binding member
    obtain ⟨kind, binds⟩ := allocates.2
    rcases has_or_new grown holds binds with has | ⟨rfl, unseen⟩
    · exact .inl (hasCopy allocates has)
    · rcases standing.aligned.find?_eq_none sound (own allocates) unseen with
        nothing | ⟨early, there, isEarly, inSight⟩
      · exact .inr nothing
      · have apart := (sound.clear _ _ _ allocates isEarly.2.1.1).2
        obtain rfl := standing.aligned.early_new binds apart there inSight
        cases isEarly.1
  obtain ⟨cells, next, copyAfter, ran, shown, knows, sameScope, sameKind, names, allocates⟩ :=
    allocations_run standing.path standing.shown standing.knows isParam free
  rw [← Conversion.cellPrelude_eq] at ran
  refine ⟨cells, next, copyAfter, ran,
    ⟨⟨⟨?_, ?_⟩, ?_, enters, alignedOthers⟩, ?_, ?_, shown, knows⟩,
    allocates⟩
  · exact (congrArg ScopeKind.isClosure sameKind).trans agree.kind
  · intro name isOwn
    dsimp only
    rw [names, ConversionInput.mem_cells, agree.names name isOwn]
    simp
  · intro _ name isOwn allocates
    obtain ⟨kind, binds⟩ := allocates.2
    rcases has_or_new grown holds binds with has | ⟨-, unseen⟩
    · exact .inl has
    · exact .inr unseen
  · rw [copies_cons, Layers.path_cons, sameScope]
    exact standing.path
  · rw [← standing.carrying]
    simp only [Region.carrying, map_cons, sameScope]

end Scopes

end Region

end Hoist
