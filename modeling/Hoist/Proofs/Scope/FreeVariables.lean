import Hoist.Proofs.Scope.Nested
import Hoist.Proofs.Scope.Numbered

/-!
Captures are free variables.  The scopes that a block opens, its own and those inside, are the ones
that the table has within the block, so a variable is captured when an occurrence in the block leads
to a scope that the block does not open.  The captures stand in the order in which a walk over the
block first meets them.
-/

namespace Hoist

open List

variable {known : String → Prop} {table : ScopeTable}

/-- The scopes that a block opens: its own and those of the blocks, lambdas and methods inside. -/
def Block.scopes (block : ResolvedBlock) : List ScopeId := marks block.walk

/-- The variable that an occurrence means, if it belongs to a scope that a block does not open. -/
def Block.free? (block : ResolvedBlock) (occurrence : Occurrence) : Option (ScopeId × String) :=
  match occurrence.target with
  | some (.variable scope) => if scope ∈ block.scopes then none else some (scope, occurrence.name)
  | _ => none

/-- The variables bound outside a block, one for each occurrence inside, in the order of a walk. -/
def Block.freeVariables (block : ResolvedBlock) : List (ScopeId × String) :=
  (occurrences (walkParams block.params ++ walkStmts block.body)).filterMap block.free?

section Scopes

variable {scope : ScopeId}

namespace Node

variable {node last : ResolvedNode} {path : List (Step ScopeId)}

theorem marks_walk (node : ResolvedNode) :
    marks node.walk = marks node.here ++ node.children.flatMap fun child => marks child.2.walk := by
  rw [node.walk_eq, marks_append, marks, marks, filterMap_flatMap]
  rfl

theorem mark?_eq (node : ResolvedNode) : node.mark? = node.opens?.map Prod.snd := by
  rcases node with tree | _ | ⟨_, _, _, _⟩ | tree
  case expr | stmt => cases tree <;> rfl
  all_goals rfl

theorem marks_of_around {child : Step ScopeId × ResolvedNode} {around : List ScopeId}
    (member : child ∈ node.children) (inside : scope ∈ child.1.around around) :
    scope ∈ around ∨ scope ∈ marks node.here := by
  rw [around_children _ member, ← mark?_eq, mem_append, Option.mem_toList] at inside
  refine inside.symm.imp_right fun opens => mem_filterMap.2 ⟨node, ?_, opens⟩
  unfold mark? at opens
  split at opens <;> first | exact mem_cons_self | cases opens

theorem Reaches.around (reaches : node.Reaches path last) {around : List ScopeId}
    (inside : scope ∈ path.foldl Step.around around) :
    scope ∈ around ∨ scope ∈ marks node.walk := by
  induction reaches generalizing around with
  | here => exact .inl inside
  | @step node child last step path member _ ih =>
    rw [marks_walk, mem_append, mem_flatMap]
    rcases ih inside with outside | opened
    · exact (marks_of_around member outside).imp_right .inl
    · exact .inr (.inr ⟨_, member, opened⟩)

end Node

variable {block : ResolvedBlock} {place : Layers}

theorem Block.mem_scopes : scope ∈ block.scopes ↔ scope = block.scope ∨
    ∃ node ∈ walkParams block.params ++ walkStmts block.body, node.mark? = some scope := by
  rw [scopes, walk, marks_cons, mem_append, marks, mem_filterMap]
  simp [Node.mark?]

/-- The scopes around a part of a block are around the block or opened by it. -/
theorem Block.mem_scopes_of_around {child : Step ScopeId × ResolvedNode} {node : ResolvedNode}
    (isChild : child ∈ (Node.block block).children) {path : List (Step ScopeId)}
    (reaches : child.2.Reaches path node) {around : List ScopeId}
    (inside : scope ∈ path.foldl Step.around (block.scope :: around)) :
    scope ∈ around ∨ scope ∈ block.scopes := by
  rcases reaches.around inside with outside | opened
  · refine (mem_cons.1 outside).symm.imp_right ?_
    rintro rfl
    exact Block.mem_scopes.2 (.inl rfl)
  · rw [Block.scopes, Block.walk, block.contents_eq, marks_cons, mem_append, marks,
      filterMap_flatMap]
    exact .inr (.inr (mem_flatMap.2 ⟨child, isChild, opened⟩))

theorem Block.ScopedAt.reached (rules : block.ScopedAt known table place)
    {node : ResolvedNode}
    (member : node ∈ walkParams block.params ++ walkStmts block.body) :
    ∃ inner written, node.ScopedAt known table written inner ∧ block.scope ∈ inner.path ∧
      ∀ scope ∈ inner.path, scope ∈ place.path ∨ scope ∈ block.scopes := by
  rw [block.contents_eq, mem_flatMap] at member
  obtain ⟨child, isChild, met⟩ := member
  obtain ⟨-, path, reaches⟩ := Node.mem_walk.1 met
  obtain ⟨middle, -, standsChild, around⟩ := rules.children child isChild
  obtain ⟨inner, leads, aroundInner, written, stands⟩ := standsChild.reached reaches
  have entered : middle.path = block.scope :: place.path := by
    obtain ⟨_, scope, params, body⟩ := block
    simp only [Node.children, Node.opened, Node.stmts, mem_append, mem_map] at isChild
    rcases isChild with ⟨_, -, rfl⟩ | ⟨_, -, rfl⟩ <;> exact around
  refine ⟨inner, written, stands, leads.path_subset (entered ▸ mem_cons_self),
    fun scope inside => ?_⟩
  rw [aroundInner, entered] at inside
  exact Block.mem_scopes_of_around isChild reaches inside

theorem within_of_scopes (rules : block.ScopedAt known table place)
    (opened : scope ∈ block.scopes) : table.within scope block.scope = true := by
  rcases Block.mem_scopes.1 opened with rfl | ⟨node, member, opens⟩
  · rw [ScopeTable.within, beq_self_eq_true, Bool.true_or]
  · obtain ⟨inner, written, stands, inside, -⟩ := rules.reached member
    rw [Node.mark?_eq] at opens
    obtain ⟨⟨kind, _⟩, opensHere, rfl⟩ := Option.map_eq_some_iff.1 opens
    exact Layers.around_of_enters (stands.opened opensHere).1 _ inside

theorem within_iff_scopes (rules : block.ScopedAt known table place)
    (ordered : Layers.Ordered table place) {occurrence : Occurrence}
    (member : occurrence ∈ occurrences (walkParams block.params ++ walkStmts block.body))
    (leads : occurrence.target = some (.variable scope)) :
    table.within scope block.scope = true ↔ scope ∈ block.scopes := by
  refine ⟨fun within => ?_, within_of_scopes rules⟩
  obtain ⟨loc, there⟩ := mem_occurrences.1 member
  obtain ⟨inner, written, stands, -, around⟩ := rules.reached there
  obtain ⟨enters, -, -⟩ := rules.placed
  have mentioned : scope ∈ inner.path := by
    rcases stands.at.variable leads with seen | ⟨layer, outer, rfl, rfl⟩
    · exact Layers.mem_path_of_find? seen
    · exact mem_cons_self
  refine (around scope mentioned).resolve_left fun outside => ?_
  cases within.symm.trans (not_within enters ordered outside)

theorem freeVariables_eq (rules : block.ScopedAt known table place)
    (ordered : Layers.Ordered table place) :
    block.freeVariables = ((block.references.filter (·.isOutside table block.scope)).map
      (·.occurrence.name)).map fun name => ((place.find? name).getD 0, name) := by
  obtain ⟨-, -, met⟩ := rules.placed
  rw [Block.freeVariables, ← met, filterMap_map, map_map, ← filterMap_eq_map, filterMap_filter]
  refine filterMap_congr fun reference member => ?_
  have occurs := met ▸ mem_map_of_mem member
  rw [Function.comp_apply, Block.free?, Reference.isOutside]
  rcases leads : reference.occurrence.target with _ | (scope | _)
  case some.variable =>
    have opened := within_iff_scopes rules ordered occurs leads
    by_cases inside : table.within scope block.scope = true
    · simp [inside, opened.1 inside]
    · have seen := rules.outside member ⟨leads, by simpa using inside⟩
      simp [inside, opened.not.1 inside, seen]
  all_goals rfl

end Scopes

theorem eraseDups_map {α β : Type} [BEq α] [LawfulBEq α] [BEq β] [LawfulBEq β] {f : α → β}
    (injective : Function.Injective f) (items : List α) :
    (items.map f).eraseDups = items.eraseDups.map f := by
  induction items using reverseRecOn with
  | nil => rfl
  | append_singleton items item ih =>
    rw [map_append, map_singleton, eraseDups_concat, eraseDups_concat, ih, apply_ite (map f),
      map_append, map_singleton]
    simp only [mem_map_of_injective injective]

variable {program : PlainProgram} {resolution : Resolution}

theorem resolve_top (resolved : resolve program = .ok resolution) :
    ∃ bindings, resolution.table.scope? 0 = some ⟨.top, [], bindings⟩ := by
  obtain ⟨-, last, rules, ⟨bindings, found, -⟩, -⟩ := resolve_scoped resolved
  obtain ⟨_, ⟨⟩, extended, -⟩ := (Node.stmts_balanced _).keeps rules
  rw [extended.scope, extended.kind] at found
  exact ⟨bindings, found⟩

theorem resolve_placed (resolved : resolve program = .ok resolution) {block : ResolvedBlock}
    (member : block ∈ resolution.blocks) :
    ∃ place, block.ScopedAt (Callable (definesIn program)) resolution.table place ∧
      Layers.Ordered resolution.table place := by
  obtain ⟨-, last, rules, -⟩ := resolve_scoped resolved
  obtain ⟨bindings, found⟩ := resolve_top resolved
  obtain ⟨place, leads, stands⟩ := walkStmts_placed _ rules _ (mem_blocks member)
  refine ⟨place, stands, leads.ordered fun id isTop scope isScope => ?_⟩
  cases mem_singleton.1 isTop
  cases found.symm.trans isScope
  exact fun _ around => absurd around not_mem_nil

theorem captures_eq_freeVariables (resolved : resolve program = .ok resolution) :
    ∀ block ∈ resolution.blocks, ∃ set, captures resolution.table block = .ok set ∧
      set.map (fun capture => (capture.scope, capture.name)) = block.freeVariables.eraseDups ∧
      (set.map Capture.name).Nodup ∧
      ∀ scope other name, (scope, name) ∈ block.freeVariables →
        (other, name) ∈ block.freeVariables → scope = other := by
  intro block member
  obtain ⟨place, rules, ordered⟩ := resolve_placed resolved member
  obtain ⟨set, captured, -⟩ := foldlM_captureStep resolution.table block.scope
    (rules.lead) (forall_mem_nil _)
  have collected := captures_collects captured
  rw [freeVariables_eq rules ordered]
  refine ⟨set, captured, ?_, collected.distinct, ?_⟩
  · rw [eraseDups_map fun _ _ same => (Prod.mk.inj same).2, ← collected.names, map_map]
    refine map_congr_left fun capture there => ?_
    rw [Function.comp_apply, collected.seen rules there]
    rfl
  · intro scope other name met metOther
    obtain ⟨_, -, ⟨⟩⟩ := mem_map.1 met
    obtain ⟨_, -, ⟨⟩⟩ := mem_map.1 metOther
    rfl

theorem captures_eq_freeVariables_shadowed : ∃ program resolution,
      parse (.ofString "x = y = 1\n[].map \x7b |a = y| [].map \x7b |y| x + y \x7d \x7d\n") =
        .ok program ∧
      resolve program = .ok resolution ∧ ∃ block ∈ resolution.blocks,
        block.freeVariables.eraseDups = [(0, "y"), (0, "x")] ∧
        ∃ set, captures resolution.table block = .ok set ∧
          set.map (fun capture => (capture.scope, capture.name)) = [(0, "y"), (0, "x")] := by
  have facts : (parse (.ofString
      "x = y = 1\n[].map \x7b |a = y| [].map \x7b |y| x + y \x7d \x7d\n")).toOption.any
        (fun program => (resolve program).toOption.any fun resolution =>
          resolution.blocks.any fun block =>
            decide (block.freeVariables.eraseDups = [(0, "y"), (0, "x")])) = true := by
    decide +kernel
  obtain ⟨program, parsed, facts⟩ := exists_ok_of_any facts
  obtain ⟨resolution, resolved, facts⟩ := exists_ok_of_any facts
  simp only [any_eq_true, decide_eq_true_eq] at facts
  obtain ⟨block, member, free⟩ := facts
  obtain ⟨set, captured, same, -⟩ := captures_eq_freeVariables resolved block member
  exact ⟨program, resolution, parsed, resolved, block, member, free, set, captured, same.trans free⟩

end Hoist
