import Hoist.Proofs.Conversion.Copied
import Hoist.Proofs.Scope.Collected
import Hoist.Proofs.Scope.Scoped
import Hoist.Proofs.Scope.Sight

/-!
Converted code is read with the layers of its source at hand.  Each scope that was copied has a
layer of its own on both sides; beyond the method of a hoisted block, the source sees on while the
copy sees the parameters of the method.  The layers agree on the names of the program but for cells,
which the copy has from the start of a scope and the source from the first assignment on.
-/

namespace Hoist

open List

open Resolve (Resolving)

variable {α β : Type}

/-- A scope begins with a cell for a variable. -/
def ConversionInput.Allocates (input : ConversionInput) (scope : ScopeId) (name : String) : Prop :=
  input.analysis.isCell scope name = true ∧ ∃ kind, input.table.Binds scope name kind

/-- The layers of a scope and of its copy; `ready` tells whether the copy has its cells. -/
structure Pairing where
  source : Layer
  copy : Layer
  ready : Bool

/-- What stays the same while the code of a method is read, in the source and in the copy. -/
structure Region where
  input : ConversionInput
  naming : Naming
  /-- The methods that the source defines. -/
  defined : String → Bool
  /-- The methods that the converted program defines. -/
  definedCopy : String → Bool
  /-- The names of the source. -/
  own : String → Prop
  /-- The layers around the block that became the method. -/
  rest : Layers
  /-- The layers of the method and around it. -/
  restCopy : Layers
  method : Option ScopeId
  /-- The names that the method has as parameters. -/
  carries : String → Prop

namespace Region

variable (region : Region)

def sources (pairs : List Pairing) : Layers := pairs.map Pairing.source ++ region.rest

def copies (pairs : List Pairing) : Layers := pairs.map Pairing.copy ++ region.restCopy

def carrying (pairs : List Pairing) : Carrying :=
  ⟨pairs.map fun pair => (pair.source.scope, pair.copy.scope), region.method⟩

/-- The layers of a scope and of its copy agree, but for cells. -/
structure Matches (pair : Pairing) : Prop where
  kind : pair.copy.kind.isClosure = pair.source.kind.isClosure
  names : ∀ name, region.own name → (pair.copy.has name ↔ pair.source.has name ∨
    (pair.ready = true ∧ region.input.Allocates pair.source.scope name))

/-- A cell that the copy has before the source has the variable: the name means nothing yet. -/
def Pending (source : Layer) (others : List Pairing) : Prop :=
  ∀ name, region.own name → region.input.Allocates source.scope name →
    source.has name ∨ Layers.find? name (source :: region.sources others) = none

/-- The layers on both sides agree. -/
def Aligned : List Pairing → Prop
  | [] => True
  | pair :: others => region.Matches pair ∧
      (pair.ready = true → region.Pending pair.source others) ∧
      region.input.table.Enters (region.sources others) pair.source.scope pair.source.kind ∧
      Aligned others

/-- A new variable of one scope is not taken for a cell of another. -/
def Apart (owner scope : ScopeId) (name : String) : Prop :=
  owner = scope ∨ region.input.table.sees owner scope = false ∨
    ¬ region.input.table.Binds owner name .localVariable

/-- What a name may be that stands in a scope of the region. -/
structure AllowsName (inner : ScopeId) (occurrence : Occurrence) : Prop where
  own : region.own occurrence.name
  carried : ∀ scope, occurrence.target = some (.variable scope) → scope ∈ region.rest.path →
    region.carries occurrence.name
  /-- In sight of a cell its name means no method, and no variable that is new in a scope inside. -/
  clear : ∀ scope, region.input.analysis.isCell scope occurrence.name = true →
    (occurrence.target = some .method → region.input.table.sees inner scope = false) ∧
      ∀ owner, occurrence.target = some (.variable owner) → region.Apart owner scope occurrence.name

/-- What holds of a region. -/
structure Sound : Prop where
  callable : ∀ name, region.own name → Callable region.defined name →
    Callable region.definedCopy name
  carried : ∀ name, region.carries name →
    ∃ method, region.method = some method ∧ region.restCopy.find? name = some method
  unseen : ∀ name, region.own name → region.rest.find? name = none →
    region.restCopy.find? name = none
  /-- No two cells of one name are in sight of each other, unless the inner one is a parameter. -/
  clear : ∀ name scope owner, region.input.Allocates owner name →
    region.input.analysis.isCell scope name = true →
      region.own name ∧ region.Apart owner scope name

variable {region} {pairs others : List Pairing} {pair : Pairing} {name : String} {scope : ScopeId}

@[simp] theorem sources_cons (pair : Pairing) (others : List Pairing) :
    region.sources (pair :: others) = pair.source :: region.sources others := rfl

@[simp] theorem copies_cons (pair : Pairing) (others : List Pairing) :
    region.copies (pair :: others) = pair.copy :: region.copies others := rfl

theorem Aligned.not_mem (aligned : region.Aligned pairs) (around : scope ∈ region.rest.path) :
    scope ∉ pairs.map fun pair => pair.source.scope := by
  induction pairs with
  | nil => exact not_mem_nil
  | cons pair others ih =>
    obtain ⟨-, -, ⟨-, above⟩, aligned⟩ := aligned
    intro member
    rcases mem_cons.1 member with rfl | member
    · refine Nat.lt_irrefl _ (above _ ?_)
      rw [sources, Layers.path, map_append]
      exact mem_append_right _ around
    · exact ih aligned member

/-- A cell that is there too early: the copy has it, the source sees nothing. -/
def Early (region : Region) (pair : Pairing) (name : String) : Prop :=
  pair.ready = true ∧ region.input.Allocates pair.source.scope name ∧ ¬ pair.source.has name

/-- A name that means a variable is found on both sides. -/
theorem Aligned.find?_eq_some (aligned : region.Aligned pairs) (own : region.own name)
    (seen : Layers.find? name (region.sources pairs) = some scope) :
    (∃ pair ∈ pairs, pair.source.scope = scope ∧
      Layers.find? name (region.copies pairs) = some pair.copy.scope) ∨
    (region.rest.find? name = some scope ∧
      Layers.find? name (region.copies pairs) = region.restCopy.find? name) := by
  induction pairs with
  | nil => exact .inr ⟨seen, rfl⟩
  | cons pair others ih =>
    obtain ⟨agree, pending, -, aligned⟩ := aligned
    rw [sources_cons] at seen
    rw [copies_cons, Layers.find?_cons]
    by_cases has : pair.source.has name
    · rw [Layers.find?_cons_of_has _ has] at seen
      cases seen
      rw [if_pos ((agree.names name own).2 (.inl has))]
      exact .inl ⟨pair, mem_cons_self, rfl, rfl⟩
    · have noCopy : ¬ pair.copy.has name := by
        intro there
        rcases (agree.names name own).1 there with there | ⟨ready, allocates⟩
        · exact has there
        · rcases pending ready name own allocates with there | unseen
          · exact has there
          · cases seen.symm.trans unseen
      rw [Layers.find?_cons, if_neg has] at seen
      rw [if_neg noCopy, agree.kind]
      split at seen
      · next isClosure =>
        rw [if_pos isClosure]
        rcases ih aligned seen with ⟨found, member, same, copy⟩ | outside
        · exact .inl ⟨found, mem_cons_of_mem _ member, same, copy⟩
        · exact .inr outside
      · cases seen

/-- A name that means nothing is found on neither side, unless a cell in sight is there too early.
-/
theorem Aligned.find?_eq_none (sound : region.Sound) (aligned : region.Aligned pairs)
    (own : region.own name) (unseen : Layers.find? name (region.sources pairs) = none) :
    Layers.find? name (region.copies pairs) = none ∨
      ∃ pair ∈ pairs, region.Early pair name ∧
        pair.source.scope ∈ region.input.table.sight (region.sources pairs).path := by
  induction pairs with
  | nil => exact .inl (sound.unseen name own unseen)
  | cons pair others ih =>
    obtain ⟨agree, -, enters, aligned⟩ := aligned
    rw [sources_cons] at unseen
    have noSource := Layers.not_has_of_find? unseen
    rw [copies_cons, Layers.find?_cons]
    by_cases there : pair.copy.has name
    · rcases (agree.names name own).1 there with has | ⟨ready, allocates⟩
      · exact absurd has noSource
      · exact .inr ⟨pair, mem_cons_self, ⟨ready, allocates, noSource⟩, mem_cons_self⟩
    · rw [if_neg there, agree.kind]
      rw [Layers.find?_cons, if_neg noSource] at unseen
      split at unseen
      · next isClosure =>
        rw [if_pos isClosure]
        rcases ih aligned unseen with nothing | ⟨early, member, isEarly, inSight⟩
        · exact .inl nothing
        · refine .inr ⟨early, mem_cons_of_mem _ member, isEarly, ?_⟩
          rw [sources_cons, Layers.path_cons, ScopeTable.sight, enters.isClosure, if_pos isClosure]
          exact mem_cons_of_mem _ inSight
      · next notClosure =>
        rw [if_neg notClosure]
        exact .inl rfl

theorem Aligned.finds (sound : region.Sound) (aligned : region.Aligned pairs)
    (own : region.own name) (seen : Layers.find? name (region.sources pairs) = some scope)
    (carried : scope ∈ region.rest.path → region.carries name) :
    ∃ carrier, Layers.find? name (region.copies pairs) = some carrier ∧
      (region.carrying pairs).Finds scope carrier := by
  rcases aligned.find?_eq_some own seen with ⟨pair, member, rfl, copy⟩ | ⟨outside, copy⟩
  · exact ⟨_, copy, .inl (mem_map.2 ⟨pair, member, rfl⟩)⟩
  · have around := Layers.mem_path_of_find? outside
    obtain ⟨method, isMethod, found⟩ := sound.carried name (carried around)
    refine ⟨method, copy.trans found, .inr ⟨?_, isMethod⟩⟩
    rw [carrying, map_map]
    exact aligned.not_mem around

/-- What is in sight of the innermost layer is seen from its scope. -/
theorem Aligned.sees (aligned : region.Aligned (pair :: others))
    (inSight : scope ∈ region.input.table.sight (region.sources (pair :: others)).path) :
    region.input.table.sees pair.source.scope scope = true := by
  obtain ⟨-, -, ⟨⟨bindings, found⟩, -⟩, -⟩ := aligned
  rw [ScopeTable.sees, found]
  exact contains_iff_mem.2 inSight

theorem Aligned.scope_ne (aligned : region.Aligned (pair :: others)) {outer : Pairing}
    (member : outer ∈ others) : pair.source.scope ≠ outer.source.scope := by
  obtain ⟨-, -, ⟨-, above⟩, -⟩ := aligned
  refine Ne.symm (Nat.ne_of_lt (above _ ?_))
  rw [sources, Layers.path, map_append, map_map]
  exact mem_append_left _ (mem_map.2 ⟨outer, member, rfl⟩)

/-- A layer that has taken up names still agrees, when its copy does. -/
theorem Aligned.past {before after copy copyAfter : Layer} {ready : Bool}
    (aligned : region.Aligned (⟨before, copy, ready⟩ :: others))
    (grown : before.Grown (region.sources others) after)
    (agree : region.Matches ⟨after, copyAfter, ready⟩) :
    region.Aligned (⟨after, copyAfter, ready⟩ :: others) := by
  obtain ⟨-, pending, enters, aligned⟩ := aligned
  refine ⟨agree, fun isReady name own allocates => ?_, ?_, aligned⟩
  · dsimp only at allocates ⊢
    rw [grown.scope] at allocates
    rcases pending isReady name own allocates with has | unseen
    · exact .inl (grown.has has)
    · by_cases has : after.has name
      · exact .inl has
      · refine .inr ?_
        rw [Layers.find?_cons, if_neg has, grown.kind]
        rwa [Layers.find?_cons, if_neg (Layers.not_has_of_find? unseen)] at unseen
  · dsimp only
    rw [grown.scope, grown.kind]
    exact enters

end Region

end Hoist
