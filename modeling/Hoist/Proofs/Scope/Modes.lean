import Hoist.Proofs.Scope.FreeVariables
import Hoist.Proofs.Scope.Lexical

/-!
How captured variables are passed.  The table counts the assignments that lead to a variable and
knows whether one of them stands in a closure.  So a block shares a variable through a cell exactly
if some closure assigns to it, or if it may hold more than one value and a closure inside the block
uses it.
-/

namespace Hoist

open List

open Resolve

variable {program : PlainProgram} {resolution : Resolution}

/-- Whether a step leads into a block or lambda. -/
def Step.entersClosure : Step ScopeId → Bool
  | .defaults kind _ | .body kind _ => kind.isClosure
  | _ => false

theorem Step.foldl_reference (path : List (Step ScopeId)) (label : Bool × Bool) :
    path.foldl Step.reference label =
      (path.foldl (fun _ step => step.isTarget) label.1, label.2 || path.any entersClosure) := by
  induction path generalizing label with
  | nil => simp
  | cons step rest ih =>
    rw [foldl_cons, ih, foldl_cons, any_cons]
    cases step <;> simp [Step.reference, isTarget, entersClosure, Bool.or_assoc]

theorem Step.mem_foldl_around (path : List (Step ScopeId)) (scope : ScopeId)
    (outer : List ScopeId) :
    path.foldl Step.scope scope ∈ path.foldl Step.around (scope :: outer) := by
  induction path generalizing scope outer with
  | nil => exact mem_cons_self
  | cons step rest ih => cases step <;> exact ih ..

/-- Each occurrence in a block is read as part of the program, in a scope that the block opens. -/
theorem mem_events_of_reference (resolved : resolve program = .ok resolution)
    {block : ResolvedBlock} (member : block ∈ resolution.blocks) {reference : Reference}
    (there : reference ∈ block.references) : ∃ inner ∈ block.scopes,
      .name reference.written inner reference.loc reference.occurrence ∈
        stmtsEvents 0 resolution.program := by
  obtain ⟨place, rules, -⟩ := resolve_placed resolved member
  obtain ⟨⟨step, child⟩, isChild, path, loc, occurrence, reaches, rfl⟩ :=
    (Node.mem_references rules.assigns).1 there
  have here := mem_blocks member
  rw [Node.walkStmts_eq, mem_flatMap] at here
  obtain ⟨tree, isTree, met⟩ := here
  obtain ⟨-, way, leads⟩ := Node.mem_walk.1 (show .block block ∈ (Node.stmt tree).walk from met)
  have faultless : (Node.stmt tree).Faultless 0 false := fun error fault =>
    resolve_faultless resolved error (by
      rw [Node.stmtsEvents_eq]
      exact mem_flatMap.2 ⟨tree, isTree, fault⟩)
  have read := faultless.name_mem (leads.trans (.step isChild reaches))
  have opens (scope : ScopeId) : step.scope scope = block.scope ∧ step.isTarget = false := by
    obtain ⟨_, inner, params, body⟩ := block
    simp only [Node.children, Node.opened, Node.stmts, mem_append, mem_map] at isChild
    rcases isChild with ⟨_, -, ⟨⟩⟩ | ⟨_, -, ⟨⟩⟩ <;> exact ⟨rfl, rfl⟩
  refine ⟨path.foldl Step.scope block.scope, ?_, ?_⟩
  · exact (Block.mem_scopes_of_around isChild reaches
      (Step.mem_foldl_around path block.scope [])).resolve_left not_mem_nil
  · rw [Node.stmtsEvents_eq, mem_flatMap]
    refine ⟨tree, isTree, ?_⟩
    rw [foldl_append, foldl_append, foldl_cons, foldl_cons, (opens _).1, (opens 0).2] at read
    rwa [Step.foldl_reference]

/-- Some assignment to the variable of a scope stands in a block or lambda below that scope. -/
def AssignedBelow (events : List (Event Occurrence ScopeId)) (scope : ScopeId) (word : String) :
    Prop :=
  ∃ before loc inner after kind outer,
    events = before ++ .name true inner loc ⟨word, some (.variable scope)⟩ :: after ∧
      scopesAfter before = (kind, inner) :: outer ∧ kind.isClosure = true ∧
      scope ∈ outer.map Prod.snd ∧ inner ≠ scope

/-- A block or lambda inside a block uses the variable of a scope. -/
def Block.UsesNested (block : ResolvedBlock) (scope : ScopeId) (word : String) : Prop :=
  ∃ child ∈ (Node.block block).children, ∃ path loc,
    child.2.Reaches path (.expr (.name loc ⟨word, some (.variable scope)⟩)) ∧
      path.any Step.entersClosure = true

theorem mem_of_nearest? {has : ScopeId → Bool} {scopes : List (ScopeKind × ScopeId)}
    {scope : ScopeId}
    (found : nearest? has scopes = some scope) : scope ∈ scopes.map Prod.snd := by
  induction scopes with
  | nil => cases found
  | cons entry outer ih =>
    rw [nearest?] at found
    split at found
    · cases found
      exact mem_cons_self
    · split at found
      · exact mem_cons_of_mem _ (ih found)
      · cases found

section Assigned

variable {events : List (Event Occurrence ScopeId)} {scope : ScopeId} {word : String}

/-- By the lexical rule, an assignment in another scope is one in a closure below. -/
theorem assignedBelow_iff {callable : String → Prop} (lawful : Lawful callable [] events) :
    AssignedBelow events scope word ↔ ∃ event ∈ events, event.assignsInside scope word = true := by
  constructor
  · rintro ⟨before, loc, inner, after, kind, outer, rfl, -, -, -, other⟩
    exact ⟨_, mem_append_right _ mem_cons_self, by simp [Event.assignsInside, other]⟩
  · rintro ⟨event, member, inside⟩
    unfold Event.assignsInside at inside
    split at inside
    case h_2 => cases inside
    next inner loc occurrence =>
    obtain ⟨other, leads⟩ := (Bool.and_eq_true _ _).mp inside
    cases of_decide_eq_true leads
    obtain ⟨before, after, rfl⟩ := mem_iff_append.1 member
    have other : inner ≠ scope := by simpa using other
    obtain ⟨isInner, means⟩ := lawful.split
    rw [nil_append] at isInner means
    split at means
    · next owner seen =>
      cases means
      rw [meaning?] at seen
      cases around : scopesAfter before with
      | nil =>
        rw [around] at seen
        cases seen
      | cons entry outer =>
        obtain ⟨kind, id⟩ := entry
        obtain rfl : inner = id := by
          rw [isInner, scopeAfter, around]
          rfl
        rw [around, nearest?] at seen
        split at seen
        · cases seen
          exact absurd rfl other
        · split at seen
          · next closure =>
            exact ⟨before, loc, inner, after, kind, outer, rfl, around, closure,
              mem_of_nearest? seen, other⟩
          · cases seen
    · rw [if_pos rfl] at means
      cases means
      exact absurd rfl other

end Assigned

theorem Binding.reassigned_iff {binding : Binding} : binding.reassigned = true ↔
    (if binding.kind = .parameter then 1 else 2) ≤ binding.assignments := by
  unfold reassigned
  split <;> simp [Nat.succ_le_iff]

theorem resolve_counts (resolved : resolve program = .ok resolution) {scope : ScopeId}
    {word : String} {binding : Binding}
    (found : resolution.table.binding? scope word = some binding) :
    binding.assignments = (stmtsEvents 0 resolution.program).countP (Event.assigns scope word) ∧
      (binding.writtenInClosure = true ↔ ∃ event ∈ stmtsEvents 0 resolution.program,
        event.assignsInside scope word = true) := by
  rw [(resolve_records resolved).2.bindings] at found
  obtain ⟨created, -, rfl⟩ := Option.map_eq_some_iff.1 found
  exact ⟨rfl, any_eq_true⟩

section Captured

variable {block : ResolvedBlock} {set : CaptureSet} {capture : Capture} {reference : Reference}
  {scope : ScopeId} (resolved : resolve program = .ok resolution)
  (member : block ∈ resolution.blocks)

include resolved member

/-- What a block assigns to, but does not bind, is assigned to by a closure. -/
theorem assigned_of_written (met : reference ∈ block.references)
    (outside : reference.Outside resolution.table block.scope scope)
    (written : reference.written = true) : ∃ event ∈ stmtsEvents 0 resolution.program,
      event.assignsInside scope reference.occurrence.name = true := by
  obtain ⟨place, rules, -⟩ := resolve_placed resolved member
  obtain ⟨inner, opened, read⟩ := mem_events_of_reference resolved member met
  refine ⟨_, read, ?_⟩
  have other : inner ≠ scope := by
    rintro rfl
    cases (within_of_scopes rules opened).symm.trans outside.2
  simp [Event.assignsInside, written, other, ← outside.1]

theorem byCell_iff (captured : captures resolution.table block = .ok set) (there : capture ∈ set) :
    ∃ binding, resolution.table.binding? capture.scope capture.name = some binding ∧
      (capture.mode = .byCell ↔ binding.writtenInClosure = true ∨
        binding.reassigned = true ∧ block.UsesNested capture.scope capture.name) := by
  obtain ⟨place, rules, -⟩ := resolve_placed resolved member
  have collected := captures_collects captured
  obtain ⟨reference, met, named, outside⟩ := collected.sound capture there
  obtain ⟨inner, -, read⟩ := mem_events_of_reference resolved member met
  obtain ⟨binding, found⟩ : ∃ binding,
      resolution.table.binding? capture.scope capture.name = some binding := by
    have known := (resolve_records resolved).2.meant _ _ _ _ read
    rw [ScopeTable.meant?, outside.1, named] at known
    exact Option.isSome_iff_exists.1 known
  refine ⟨binding, found, ?_⟩
  rw [collected.mode capture there]
  constructor
  · rintro ⟨sharing, metSharing, scope, sameName, beyond, shares⟩
    -- the name means one variable around the block
    obtain rfl : scope = capture.scope := by
      have seen := rules.outside metSharing beyond
      rw [sameName, collected.seen rules there] at seen
      exact (Option.some.inj seen).symm
    rw [Reference.shares, sameName, found] at shares
    simp only [Bool.or_eq_true, Bool.and_eq_true] at shares
    rcases shares with written | closure | ⟨nested, reassigned⟩
    · have assigned := assigned_of_written resolved member metSharing beyond written
      rw [sameName] at assigned
      exact .inl ((resolve_counts resolved found).2.2 assigned)
    · exact .inl closure
    · obtain ⟨child, isChild, path, loc, occurrence, reaches, rfl⟩ :=
        (Node.mem_references rules.assigns).1 metSharing
      obtain rfl : occurrence = ⟨capture.name, some (.variable capture.scope)⟩ := by
        rw [← sameName, ← beyond.1]
      rw [Step.foldl_reference] at nested
      exact .inr ⟨reassigned, child, isChild, path, loc, reaches, nested⟩
  · rintro (closure | ⟨reassigned, child, isChild, path, loc, reaches, nested⟩)
    · refine ⟨reference, met, capture.scope, named, outside, ?_⟩
      simp [Reference.shares, named, found, closure]
    · refine ⟨_, (Node.mem_references rules.assigns).2 ⟨child, isChild, path, loc, _, reaches, rfl⟩,
        capture.scope, rfl, ⟨rfl, outside.2⟩, ?_⟩
      simp [Reference.shares, found, Step.foldl_reference, nested, reassigned]

end Captured

/-- Assignments are counted for the variable or the global that they lead to, and a captured
variable is shared by a cell exactly if a closure below its scope assigns to it, or if it can hold
more than one value and a closure inside the block uses it. -/
theorem capture_modes (resolved : resolve program = .ok resolution) :
    (∀ scope word binding, resolution.table.binding? scope word = some binding →
      binding.assignments =
        (stmtsEvents 0 resolution.program).countP (Event.assigns scope word) ∧
      (binding.writtenInClosure = true ↔ ∃ event ∈ stmtsEvents 0 resolution.program,
        event.assignsInside scope word = true)) ∧
    (∀ word binding, resolution.table.globals.find? word = some binding →
      binding.assignments =
        (stmtsEvents 0 resolution.program).countP (Event.assignsGlobal word) ∧
      binding.writtenInClosure = false) ∧
    resolution.table.methods.Unassigned ∧
    ∀ block ∈ resolution.blocks, ∃ set, captures resolution.table block = .ok set ∧
      ∀ capture ∈ set, ∃ binding,
        resolution.table.binding? capture.scope capture.name = some binding ∧
        (capture.mode = .byCell ↔
          AssignedBelow (stmtsEvents 0 resolution.program) capture.scope capture.name ∨
          (if binding.kind = .parameter then 1 else 2) ≤ (stmtsEvents 0 resolution.program).countP
              (Event.assigns capture.scope capture.name) ∧
            block.UsesNested capture.scope capture.name) := by
  obtain ⟨lawful, records⟩ := resolve_records resolved
  refine ⟨fun scope word binding => resolve_counts resolved, fun word binding found => ?_,
    records.unassigned, fun block member => ?_⟩
  · rw [records.globals] at found
    obtain ⟨created, first, rfl⟩ := Option.map_eq_some_iff.1 found
    obtain ⟨event, -, isFirst⟩ := exists_of_findSome?_eq_some first
    exact ⟨rfl, (Event.global?_fresh isFirst :)⟩
  · obtain ⟨place, rules, -⟩ := resolve_placed resolved member
    obtain ⟨set, captured, -⟩ :=
      foldlM_captureStep resolution.table block.scope rules.lead (forall_mem_nil _)
    refine ⟨set, captured, fun capture there => ?_⟩
    obtain ⟨binding, found, byCell⟩ := byCell_iff resolved member captured there
    obtain ⟨counted, written⟩ := resolve_counts resolved found
    refine ⟨binding, found, ?_⟩
    rw [byCell, assignedBelow_iff lawful, ← written, ← counted, ← Binding.reassigned_iff]

theorem capture_modes_nested : ∃ program resolution, parse (.ofString
      "x = 0\nx = 1\n[2].map \x7b |a| -> \x7b x + a \x7d \x7d\n") = .ok program ∧
    resolve program = .ok resolution ∧ ∃ block ∈ resolution.blocks,
      captures resolution.table block = .ok [⟨"x", 0, .byCell⟩] ∧
      (AssignedBelow (stmtsEvents 0 resolution.program) 0 "x" ∨ ∃ binding,
        resolution.table.binding? 0 "x" = some binding ∧
        (if binding.kind = .parameter then 1 else 2) ≤
          (stmtsEvents 0 resolution.program).countP (Event.assigns 0 "x") ∧
        block.UsesNested 0 "x") := by
  have facts : (parse (.ofString
      "x = 0\nx = 1\n[2].map \x7b |a| -> \x7b x + a \x7d \x7d\n")).toOption.any
        (fun program => (resolve program).toOption.any fun resolution =>
          resolution.blocks.any fun block => (captures resolution.table block).toOption.any
            fun set => decide (set = [⟨"x", 0, .byCell⟩])) = true := by
    decide +kernel
  obtain ⟨program, parsed, facts⟩ := exists_ok_of_any facts
  obtain ⟨resolution, resolved, facts⟩ := exists_ok_of_any facts
  obtain ⟨block, member, facts⟩ := any_eq_true.1 facts
  obtain ⟨set, captured, isSet⟩ := exists_ok_of_any facts
  obtain ⟨_, same, modes⟩ := (capture_modes resolved).2.2.2 block member
  cases captured.symm.trans same
  cases of_decide_eq_true isSet
  obtain ⟨binding, found, byCell⟩ := modes _ mem_cons_self
  refine ⟨program, resolution, parsed, resolved, block, member, captured, ?_⟩
  exact (byCell.1 rfl).imp_right fun nested => ⟨binding, found, nested⟩

/-- An assignment to a global is no assignment to a name, but it is counted; and where it stands in
a block, the global is not said to be written in a closure. -/
theorem global_counted : ∃ program resolution,
    parse (.ofString "[1].each \x7b |e| $g = e \x7d\n") = .ok program ∧
      resolve program = .ok resolution ∧
      stmtsEvents 0 resolution.program = [.enter .block 1, .meet 1 "e" ⟨1, 13⟩,
        .declare 1 "e" ⟨1, 13⟩, .global true ⟨1, 16⟩ "g",
        .name false 1 ⟨1, 21⟩ ⟨"e", some (.variable 1)⟩, .leave] ∧
      resolution.table.globals = [⟨"g", .global, some ⟨1, 16⟩, 1, false⟩] := by
  have facts : (parse (.ofString "[1].each \x7b |e| $g = e \x7d\n")).toOption.any
      (fun program => (resolve program).toOption.any fun resolution =>
        decide (stmtsEvents 0 resolution.program = [.enter .block 1, .meet 1 "e" ⟨1, 13⟩,
          .declare 1 "e" ⟨1, 13⟩, .global true ⟨1, 16⟩ "g",
          .name false 1 ⟨1, 21⟩ ⟨"e", some (.variable 1)⟩, .leave] ∧
        resolution.table.globals = [⟨"g", .global, some ⟨1, 16⟩, 1, false⟩])) = true := by
    decide +kernel
  obtain ⟨program, parsed, facts⟩ := exists_ok_of_any facts
  obtain ⟨resolution, resolved, facts⟩ := exists_ok_of_any facts
  exact ⟨program, resolution, parsed, resolved, of_decide_eq_true facts⟩

end Hoist
