import Hoist.Conversion
import Hoist.Proofs.Scope.Collected
import Hoist.Proofs.Scope.Scoped

/-!
Captures of blocks inside blocks.  Each block is analysed for itself, but an occurrence inside an
inner block is also one inside the outer block, nested there.  So the outer block captures what the
inner one captures from beyond it, by cell if the inner one does, and has the cell to pass on.
-/

namespace Hoist

open List

variable {known : String → Prop} {table : ScopeTable} {outer inner : ResolvedBlock}

/-- Inside a closure an occurrence calls for a cell all the more. -/
theorem Reference.shares_nested {reference : Reference} {scope : ScopeId}
    (shares : reference.shares table scope = true) :
    ({ reference with nested := true } : Reference).shares table scope = true := by
  revert shares
  unfold Reference.shares
  cases table.binding? scope reference.occurrence.name with
  | none => exact id
  | some binding =>
    simp only [Bool.or_eq_true, Bool.and_eq_true]
    exact Or.imp_right (Or.imp_right fun both => ⟨trivial, both.2⟩)

theorem Node.Assigns.reached {node last : ResolvedNode} {path : List (Step ScopeId)}
    (assigns : node.Assigns) (reaches : node.Reaches path last) : last.Assigns :=
  fun _ _ further => assigns _ _ (reaches.trans further)

theorem CaptureSet.Collects.passes {place placeInner : Layers} {set setInner : CaptureSet}
    (collected : set.Collects table outer.scope outer.references)
    (collectedInner : setInner.Collects table inner.scope inner.references)
    (rules : outer.ScopedAt known table place)
    (rulesInner : inner.ScopedAt known table placeInner)
    (nested : ∀ reference ∈ inner.references, { reference with nested := true } ∈ outer.references)
    {capture : Capture} (captured : capture ∈ setInner)
    (beyond : table.within capture.scope outer.scope = false) :
    ∃ mode, ⟨capture.name, capture.scope, mode⟩ ∈ set ∧
    (capture.mode = .byCell → mode = .byCell) := by
  obtain ⟨reference, member, named, leads, -⟩ := collectedInner.sound capture captured
  obtain ⟨⟨name, scope, mode⟩, there, sameName⟩ :=
    collected.complete _ (nested reference member) capture.scope ⟨leads, beyond⟩
  -- a name means one variable around the outer block
  have seen := rules.outside (nested reference member) ⟨leads, beyond⟩
  have seenOuter := collected.seen rules there
  obtain rfl : name = capture.name := sameName.trans named
  obtain rfl : scope = capture.scope := by
    rw [named] at seen
    exact Option.some.inj (seenOuter.symm.trans seen)
  refine ⟨mode, there, fun byCell => ?_⟩
  obtain ⟨sharing, met, scope, isNamed, outside, shares⟩ :=
    (collectedInner.mode _ captured).1 byCell
  have seenInner := rulesInner.outside met outside
  obtain rfl : scope = capture.scope := by
    rw [isNamed, collectedInner.seen rulesInner captured] at seenInner
    exact (Option.some.inj seenInner).symm
  exact (collected.mode _ there).2 ⟨_, nested sharing met, _, isNamed, ⟨outside.1, beyond⟩,
    Reference.shares_nested shares⟩

theorem CaptureSet.Collects.forVariable?_eq_some {references : List Reference} {set : CaptureSet}
    {block : ScopeId} (collected : set.Collects table block references) {capture : Capture}
    {scope : ScopeId} {name : String} :
    set.forVariable? scope name = some capture ↔
      capture ∈ set ∧ capture.scope = scope ∧ capture.name = name := by
  rw [forVariable?, Option.filter_eq_some_iff, beq_iff_eq, CaptureSet.find?]
  constructor
  · rintro ⟨found, same⟩
    exact ⟨mem_of_find?_eq_some found, same, by simpa using find?_some found⟩
  · rintro ⟨captured, same, rfl⟩
    exact ⟨find?_eq_some_of_nodup collected.distinct captured, same⟩

theorem Block.ScopedAt.lead {place : Layers} (rules : outer.ScopedAt known table place) :
    AllLead (fun _ => True) outer.references := by
  intro reference member
  obtain ⟨-, placed, occurs⟩ := rules.placed
  obtain ⟨loc, there⟩ := mem_occurrences.1 (occurs ▸ mem_map_of_mem member)
  refine ⟨?_, trivial⟩
  obtain ⟨_, -, (⟨_, -, leads⟩ | ⟨-, -, leads⟩) | ⟨_, _, _, -, ⟨_, -, leads, -⟩ | ⟨-, leads, -⟩⟩⟩ :=
    placed _ there
  all_goals rw [leads, Option.isSome_some]

end Hoist
