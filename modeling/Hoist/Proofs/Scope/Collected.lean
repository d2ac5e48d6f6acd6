import Hoist.Proofs.Planned
import Hoist.Proofs.Scope.Places

/-!
What a block captures.  Capture analysis collects each name once, from the occurrences inside the
block that mean a variable outside.  By the rules of scoping these are the variables that the names
would mean around the block, so a captured name stands for one variable.
-/

namespace Hoist

open List

variable {known : String → Prop} {table : ScopeTable}

/-- The variable occurrence at a part of a tree. -/
def Node.occurrence? : Node Occurrence ScopeId → Option Occurrence
  | .expr (.name _ occurrence) => some occurrence
  | _ => none

/-- The variable occurrences among some parts of a tree. -/
def occurrences (nodes : List (Node Occurrence ScopeId)) : List Occurrence :=
  nodes.filterMap Node.occurrence?

@[simp] theorem occurrences_append (left right : List ResolvedNode) :
    occurrences (left ++ right) = occurrences left ++ occurrences right := filterMap_append

@[simp] theorem occurrences_cons (first : ResolvedNode)
    (rest : List ResolvedNode) :
    occurrences (first :: rest) = first.occurrence?.toList ++ occurrences rest := by
  rw [occurrences, filterMap_cons]
  cases first.occurrence? <;> rfl

@[simp] theorem occurrences_nil : occurrences [] = [] := rfl

def Reference.Outside (table : ScopeTable) (block : ScopeId) (reference : Reference)
    (scope : ScopeId) : Prop :=
  reference.occurrence.target = some (.variable scope) ∧ table.within scope block = false

def Reference.isOutside (table : ScopeTable) (block : ScopeId) (reference : Reference) : Bool :=
  match reference.occurrence.target with
  | some (.variable scope) => !table.within scope block
  | _ => false

theorem Reference.isOutside_iff {block : ScopeId} {reference : Reference} :
    reference.isOutside table block = true ↔ ∃ scope, reference.Outside table block scope := by
  unfold isOutside Outside
  split
  · next other leads => simp [leads]
  · next noVariable =>
    refine iff_of_false Bool.false_ne_true ?_
    rintro ⟨scope, leads, -⟩
    exact noVariable scope leads

/-- The captures of a block, as collected from some occurrences in it. -/
structure CaptureSet.Collects (table : ScopeTable) (block : ScopeId) (references : List Reference)
    (set : CaptureSet) : Prop where
  /-- The names stand in the order in which they are first met. -/
  names : set.map Capture.name =
    ((references.filter (·.isOutside table block)).map (·.occurrence.name)).eraseDups
  sound : ∀ capture ∈ set, ∃ reference ∈ references,
    reference.occurrence.name = capture.name ∧ reference.Outside table block capture.scope
  /-- A variable is shared if some occurrence calls for a cell. -/
  mode : ∀ capture ∈ set, capture.mode = .byCell ↔ ∃ reference ∈ references, ∃ scope,
    reference.occurrence.name = capture.name ∧ reference.Outside table block scope ∧
      reference.shares table scope = true

section Duplicates

variable {α : Type} [BEq α] [LawfulBEq α] (items : List α)

theorem eraseDups_concat (item : α) [Decidable (item ∈ items)] : (items ++ [item]).eraseDups =
      if item ∈ items then items.eraseDups else items.eraseDups ++ [item] := by
  rw [eraseDups_append, removeAll, filter_singleton]
  split <;> simp [*, eraseDups_cons]

theorem nodup_eraseDups : items.eraseDups.Nodup := by
  induction items using reverseRecOn with
  | nil => exact nodup_nil
  | append_singleton items item ih =>
    rw [eraseDups_concat]
    split
    · exact ih
    · next new =>
      refine ih.append (nodup_singleton item) (disjoint_singleton.2 ?_)
      rwa [mem_eraseDups]

end Duplicates

namespace CaptureSet

variable {block : ScopeId} {references : List Reference} {set next : CaptureSet}
  {reference : Reference} {name : String} {scope : ScopeId} {shared : Bool}

theorem find?_isSome : (set.find? name).isSome = true ↔ ∃ capture ∈ set, capture.name = name := by
  simp [CaptureSet.find?]

theorem names_note : (set.note name scope shared).map Capture.name =
    if name ∈ set.map Capture.name then set.map Capture.name
    else set.map Capture.name ++ [name] := by
  rw [note]
  simp only [find?_isSome, mem_map]
  split
  · rw [map_map]
    refine map_congr_left fun capture _ => ?_
    simp only [Function.comp_apply]
    split <;> rfl
  · rw [map_append]
    rfl

theorem collects_nil (table : ScopeTable) (block : ScopeId) : Collects table block [] [] where
  names := rfl
  sound _ member := absurd member not_mem_nil
  mode _ member := absurd member not_mem_nil

theorem Collects.distinct (collected : Collects table block references set) :
    (set.map Capture.name).Nodup := by
  rw [collected.names]
  exact nodup_eraseDups _

theorem Collects.complete (collected : Collects table block references set) :
    ∀ reference ∈ references, ∀ scope, reference.Outside table block scope →
      ∃ capture ∈ set, capture.name = reference.occurrence.name := by
  intro reference member scope outside
  rw [← mem_map, collected.names, mem_eraseDups]
  exact mem_map_of_mem (mem_filter.2 ⟨member, Reference.isOutside_iff.2 ⟨scope, outside⟩⟩)

/-- An occurrence that means nothing outside the block adds nothing. -/
theorem Collects.skip (collected : Collects table block references set)
    (inside : ∀ scope, ¬ reference.Outside table block scope) :
    Collects table block (references ++ [reference]) set := by
  have notOutside : ¬ reference.isOutside table block = true := by
    simpa only [Reference.isOutside_iff, not_exists] using inside
  obtain ⟨names, sound, mode⟩ := collected
  constructor
  · simp [names, notOutside]
  all_goals grind

theorem Collects.note (collected : Collects table block references set)
    (outside : reference.Outside table block scope) :
    Collects table block (references ++ [reference])
      (set.note reference.occurrence.name scope (reference.shares table scope)) := by
  have only (other : ScopeId) (isOutside : reference.Outside table block other) :
      other = scope := by
    cases isOutside.1.symm.trans outside.1
    rfl
  have isOutside : reference.isOutside table block = true := Reference.isOutside_iff.2 ⟨_, outside⟩
  have complete := collected.complete
  obtain ⟨names, sound, mode⟩ := collected
  constructor
  · rw [names_note, names, filter_append, filter_cons_of_pos isOutside, filter_nil, map_append,
      map_singleton, eraseDups_concat]
    simp only [mem_eraseDups]
  all_goals
    rw [CaptureSet.note]
    split
    · grind
    · grind [find?_isSome]

theorem Collects.step (collected : Collects table block references set)
    (stepped : captureStep table block set reference = .ok next) :
    Collects table block (references ++ [reference]) next := by
  unfold captureStep at stepped
  split at stepped
  · cases stepped
  · next isMethod =>
    cases stepped
    refine collected.skip fun scope outside => ?_
    cases isMethod.symm.trans outside.1
  · next scope isVariable =>
    split at stepped
    · next inside =>
      cases stepped
      refine collected.skip fun other outside => ?_
      cases isVariable.symm.trans outside.1
      cases inside.symm.trans outside.2
    · next notInside =>
      cases stepped
      exact collected.note ⟨isVariable, by simpa using notInside⟩

theorem Collects.run {more : List Reference} (collected : Collects table block references set)
    (ran : more.foldlM (captureStep table block) set = .ok next) :
    Collects table block (references ++ more) next := by
  induction more generalizing references set with
  | nil =>
    cases ran
    rwa [append_nil]
  | cons first rest ih =>
    rw [foldlM_cons] at ran
    obtain ⟨middle, stepped, ran⟩ := bind_eq_ok.1 ran
    rw [append_cons]
    exact ih (collected.step stepped) ran

end CaptureSet

theorem captures_collects {block : ResolvedBlock} {set : CaptureSet}
    (found : captures table block = .ok set) : set.Collects table block.scope block.references :=
  (CaptureSet.collects_nil table block.scope).run found

variable {nodes : List ResolvedNode}

theorem mem_occurrences {occurrence : Occurrence} :
    occurrence ∈ occurrences nodes ↔ ∃ loc, .expr (.name loc occurrence) ∈ nodes := by
  constructor
  · intro member
    obtain ⟨node, there, found⟩ := mem_filterMap.1 member
    unfold Node.occurrence? at found
    split at found
    · cases found
      exact ⟨_, there⟩
    · cases found
  · rintro ⟨loc, there⟩
    exact mem_filterMap.2 ⟨_, there, rfl⟩

variable {scope : ScopeId}

theorem Node.At.variable {loc : Loc} {occurrence : Occurrence} {place : Layers}
    (stands : (Node.expr (.name loc occurrence)).At known table place)
    (leads : occurrence.target = some (.variable scope)) :
    place.find? occurrence.name = some scope ∨
      ∃ layer outer, place = layer :: outer ∧ scope = layer.scope := by
  rcases stands with (⟨other, seen, target⟩ | ⟨-, -, target⟩) | ⟨layer, outer, after, rfl, writes⟩
  · cases leads.symm.trans target
    exact .inl seen
  · cases leads.symm.trans target
  · rcases writes with ⟨other, seen, target, -⟩ | ⟨-, target, -, -⟩ <;>
      cases leads.symm.trans target
    · exact .inl seen
    · exact .inr ⟨layer, outer, rfl, rfl⟩

theorem Placed.occurrence {start : Layers} (placed : Placed known table start nodes)
    {occurrence : Occurrence} (member : occurrence ∈ occurrences nodes)
    (leads : occurrence.target = some (.variable scope)) :
    Layers.Around table start scope ∨ (∃ layer ∈ start.head?, scope = layer.scope) ∨
      start.find? occurrence.name = some scope := by
  obtain ⟨loc, there⟩ := mem_occurrences.1 member
  obtain ⟨place, way, standing⟩ := placed _ there
  rcases standing.variable leads with seen | ⟨layer, outer, rfl, rfl⟩
  · exact way.find? seen
  · exact way.innermost.imp_right .inl

theorem not_within {place : Layers} {id : ScopeId} {kind : ScopeKind}
    (enters : table.Enters place id kind) (ordered : Layers.Ordered table place)
    (around : scope ∈ place.path) : table.within scope id = false := by
  have below := enters.2 scope around
  rw [ScopeTable.within, Bool.or_eq_false_iff]
  refine ⟨beq_false_of_ne (Nat.ne_of_lt below), ?_⟩
  cases found : table.scope? scope with
  | none => rfl
  | some entry =>
    refine Bool.eq_false_iff.2 fun inside => ?_
    have above := ordered scope around entry found id (contains_iff_mem.1 inside)
    exact Nat.lt_asymm below above

section Block

variable {block : ResolvedBlock} {place : Layers} {set : CaptureSet}

theorem Node.ScopedAt.assigns {node : ResolvedNode} {written : Bool}
    (resolved : node.ScopedAt known table written place) : node.Assigns := by
  intro path last reaches child member
  obtain ⟨middle, -, -, _, there⟩ := resolved.reached reaches
  obtain ⟨next, -, standing, -⟩ := there.children _ member
  obtain ⟨tree, rfl⟩ : ∃ tree, child = .expr tree := by
    rcases last with tree | ⟨_, _, _⟩ | ⟨_, _, _, _⟩ | tree
    case expr | stmt =>
      cases tree <;> simp only [Node.children, Node.exprs, Node.opened, Node.stmts]
        at member <;> grind
    all_goals
      simp only [Node.children, Node.exprs, Node.opened, Node.stmts] at member
      grind
  have stands : (Node.expr tree).stands true := standing.stands
  cases tree with
  | param | stmt => cases stands
  | _ => exact stands

theorem references_map_occurrence (assigns : (Node.block block).Assigns) :
    block.references.map Reference.occurrence =
      occurrences (walkParams block.params ++ walkStmts block.body) := by
  have gathers : Node.Gathers (fun (_ : Unit) (_ : Step ScopeId) => ())
      (fun _ node => node.occurrence?.toList) (fun _ _ => True)
      fun _ (node : ResolvedNode) => occurrences node.walk := by
    refine fun _ node _ => ⟨fun _ _ => trivial, ?_⟩
    dsimp only
    rw [node.walk_eq, occurrences_append, occurrences, occurrences, filterMap_flatMap,
      filterMap_eq_flatMap_toList]
    rfl
  rw [Node.block_references, block.contents_eq, occurrences, map_flatMap, filterMap_flatMap]
  refine flatMap_congr fun child member => ?_
  refine Node.gathers_references.map gathers Reference.occurrence (fun _ => ()) (fun _ _ => rfl)
    (fun label node => ?_)
    ⟨fun path last reaches => assigns _ last (.step member reaches), nofun⟩ trivial
  cases node with
  | expr tree => cases tree <;> rfl
  | _ => rfl

theorem Block.ScopedAt.placed (rules : block.ScopedAt known table place) :
    table.Enters place block.scope .block ∧
      Placed known table (⟨block.scope, .block, []⟩ :: place)
        (walkParams block.params ++ walkStmts block.body) ∧
      block.references.map Reference.occurrence =
        occurrences (walkParams block.params ++ walkStmts block.body) := by
  have met := references_map_occurrence rules.assigns
  rw [block.contents_eq] at met ⊢
  obtain ⟨loc, scope, params, body⟩ := block
  obtain ⟨enters, stand⟩ := rules.opened rfl
  exact ⟨enters, stand.placed, met⟩

/-- A name inside a block that means a variable outside means what it would mean around the
block. -/
theorem Block.ScopedAt.outside (rules : block.ScopedAt known table place)
    {reference : Reference} (member : reference ∈ block.references)
    (outside : reference.Outside table block.scope scope) :
    place.find? reference.occurrence.name = some scope := by
  obtain ⟨-, placed, same⟩ := rules.placed
  obtain ⟨leads, notWithin⟩ := outside
  rcases placed.occurrence (same ▸ mem_map_of_mem member) leads with
    inside | ⟨layer, ⟨⟩, rfl⟩ | seen
  · cases (inside _ mem_cons_self).symm.trans notWithin
  · rw [ScopeTable.within, beq_self_eq_true, Bool.true_or] at notWithin
    cases notWithin
  · rwa [Layers.find?_cons, if_neg (Layer.not_has_of_new _ _ _)] at seen

theorem CaptureSet.Collects.seen (collected : set.Collects table block.scope block.references)
    (rules : block.ScopedAt known table place) {capture : Capture}
    (captured : capture ∈ set) : place.find? capture.name = some capture.scope := by
  obtain ⟨reference, member, named, outside⟩ := collected.sound capture captured
  rw [← named]
  exact rules.outside member outside

theorem CaptureSet.Collects.captured (collected : set.Collects table block.scope block.references)
    (rules : block.ScopedAt known table place) (ordered : Layers.Ordered table place)
    {occurrence : Occurrence}
    (member : occurrence ∈ occurrences (walkParams block.params ++ walkStmts block.body))
    (leads : occurrence.target = some (.variable scope)) (around : scope ∈ place.path) :
    ∃ capture ∈ set, capture.name = occurrence.name ∧ capture.scope = scope := by
  obtain ⟨enters, -, same⟩ := rules.placed
  obtain ⟨reference, met, rfl⟩ := mem_map.1 (same ▸ member)
  have outside : reference.Outside table block.scope scope :=
    ⟨leads, not_within enters ordered around⟩
  obtain ⟨capture, captured, named⟩ := collected.complete reference met scope outside
  have seen := collected.seen rules captured
  rw [named, rules.outside met outside] at seen
  exact ⟨capture, captured, named, (Option.some.inj seen).symm⟩

end Block

section Analysis

variable {resolution : Resolution} {hoisted : ScopeId → Bool} {analysis : CaptureAnalysis}

theorem mapM_captures_eq {blocks : List ResolvedBlock} {sets : List (ScopeId × CaptureSet)}
    (ran : blocks.mapM (fun block => do return (block.scope, ← captures table block)) = .ok sets) :
    ∃ found : ResolvedBlock → CaptureSet, sets =
    blocks.map (fun block => (block.scope, found block)) ∧
      ∀ block ∈ blocks, captures table block = .ok (found block) := by
  refine ⟨fun block => (captures table block).toOption.getD [], ?_⟩
  induction blocks generalizing sets with
  | nil =>
    cases ran
    exact ⟨rfl, fun _ member => absurd member not_mem_nil⟩
  | cons first rest ih =>
    rw [mapM_cons] at ran
    obtain ⟨entry, ranFirst, ran⟩ := bind_eq_ok.1 ran
    obtain ⟨others, ranRest, ran⟩ := bind_eq_ok.1 ran
    obtain ⟨set, captured, ranFirst⟩ := bind_eq_ok.1 ranFirst
    obtain ⟨same, every⟩ := ih ranRest
    cases ran
    cases ranFirst
    have foundFirst : (captures table first).toOption.getD [] = set := by
      rw [captured]
      rfl
    simp only [map_cons, forall_mem_cons, foundFirst]
    exact ⟨congrArg _ same, captured, every⟩

theorem analyzeCaptures_spec (analyzed : analyzeCaptures resolution hoisted = .ok analysis)
    (distinct : (resolution.blocks.map Block.scope).Nodup) :
    (∀ block ∈ resolution.blocks,
      captures resolution.table block = .ok (analysis.capturesOf block.scope)) ∧
    ∀ scope name, analysis.isCell scope name = true ↔ ∃ block ∈ resolution.blocks,
      hoisted block.scope = true ∧ ⟨name, scope, .byCell⟩ ∈ analysis.capturesOf block.scope := by
  obtain ⟨sets, ran, analyzed⟩ := bind_eq_ok.1 analyzed
  obtain ⟨found, rfl, every⟩ := mapM_captures_eq ran
  cases analyzed
  have entries : (resolution.blocks.map fun block => (block.scope, found block)) =
      resolution.blocks.filterMap fun block => (some (found block)).map (block.scope, ·) :=
    (congrFun filterMap_eq_map resolution.blocks).symm
  have lookup : ∀ block ∈ resolution.blocks, ((resolution.blocks.map fun block =>
      (block.scope, found block)).lookup block.scope).getD [] = found block := by
    intro block member
    rw [entries, lookup_filterMap distinct member, Option.getD_some]
  refine ⟨fun block member => ?_, fun scope name => ?_⟩
  · rw [every block member, CaptureAnalysis.capturesOf, lookup block member]
  · rw [CaptureAnalysis.isCell, contains_iff_mem, mem_eraseDups, flatMap_map,
      mem_flatMap]
    refine exists_congr fun block => and_congr_right fun member => ?_
    rw [CaptureAnalysis.capturesOf, lookup block member]
    dsimp only
    split
    · next isHoisted =>
      simp only [isHoisted, true_and, mem_map, mem_filter]
      constructor
      · rintro ⟨⟨_, _, _⟩, ⟨captured, byCell⟩, ⟨⟩⟩
        cases eq_of_beq byCell
        exact captured
      · exact fun captured => ⟨_, ⟨captured, rfl⟩, rfl⟩
    · next other => simp [other]

end Analysis

end Hoist
