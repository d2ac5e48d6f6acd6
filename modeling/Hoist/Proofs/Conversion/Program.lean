import Hoist.Proofs.Conversion.Converts
import Hoist.Proofs.Scope.Numbered

/-!
The conversion of a whole program.  Its hoisted blocks have different scopes, so the names that they
were given make one naming, under which the converted program is the image of the resolved one.
-/

namespace Hoist

open List

open Lexeme

theorem hoistedBlocks_scopes (input : ConversionInput) (parts : List Part) :
    ((hoistedBlocks input parts).map HoistedBlock.scope).Sublist (marks (parts.map Part.node)) := by
  induction parts with
  | nil => exact .slnil
  | cons first rest ih =>
    rw [map_cons, marks_cons]
    obtain ⟨site, node⟩ := first
    cases hoisted : Part.hoisted? input ⟨site, node⟩ with
    | none =>
      rw [hoistedBlocks, filterMap_cons_none hoisted]
      exact ih.trans (sublist_append_right _ _)
    | some found =>
      rw [hoistedBlocks, filterMap_cons_some hoisted]
      cases node with
      | block tree =>
        obtain ⟨helper, -, rfl⟩ := Option.map_eq_some_iff.1 hoisted
        exact ih.cons_cons _
      | expr | param | stmt => cases hoisted

theorem Given.getD_mem_names (given : Given) : given.argument.getD given.closure ∈ given.names := by
  rw [Given.names]
  cases given.argument <;> simp

namespace Naming

/-- Names that can be written. -/
structure Valid (naming : Naming) : Prop where
  stop : isName naming.stop = true
  helper : ∀ base, isName (naming.helper base) = true
  closure : ∀ scope, isName (naming.closure scope) = true
  argument : ∀ scope, isName (naming.argument scope) = true

/-- A name for what was given none. -/
def spare : String := "_lift_none"

/-- The names that were given. -/
def ofGiven (state : ConversionState) (given : List Given) : Naming where
  stop := state.stop.getD spare
  helper base := ((state.helpers.find? (·.base == base)).map UsedHelper.name).getD spare
  closure scope := ((given.find? (·.scope == scope)).map Given.closure).getD spare
  argument scope :=
    ((given.find? (·.scope == scope)).map fun entry => entry.argument.getD entry.closure).getD spare

variable {reserved : List String} {state : ConversionState} {given : List Given}

theorem agrees_ofGiven (bases : (state.helpers.map UsedHelper.base).Nodup)
    (scopes : (given.map Given.scope).Nodup) : (ofGiven state given).Agrees state given where
  stop marker known := by rw [ofGiven, Option.mem_def.1 known, Option.getD_some]
  helpers used there := by
    simp only [ofGiven, find?_eq_some_of_nodup bases there, Option.map_some, Option.getD_some]
  given entry there := by
    simp only [ofGiven, find?_eq_some_of_nodup scopes there, Option.map_some, Option.getD_some,
      true_and]
    intro name known
    rw [Option.mem_def.1 known, Option.getD_some]

theorem isName_getD {name : Option String} (valid : ∀ given ∈ name, isName given = true) :
    isName (name.getD spare) = true := by
  cases name with
  | none =>
    rw [Option.getD_none]
    decide +kernel
  | some given => exact valid given rfl

theorem valid_ofGiven (ready : state.Ready reserved (given.flatMap Given.names)) :
    (ofGiven state given).Valid := by
  have issued : ∀ name ∈ state.stop.toList ++ state.helpers.map UsedHelper.name ++
      given.flatMap Given.names, isName name = true :=
    fun name member => ready.named name (ready.issued.mem_iff.2 member)
  rw [forall_mem_append, forall_mem_append] at issued
  obtain ⟨⟨stop, helpers⟩, givenNames⟩ := issued
  constructor
  · exact isName_getD fun marker known => stop marker (by simpa using known)
  · intro base
    refine isName_getD fun name known => ?_
    obtain ⟨used, found, rfl⟩ := Option.map_eq_some_iff.1 (Option.mem_def.1 known)
    exact helpers _ (mem_map_of_mem (mem_of_find?_eq_some found))
  · intro scope
    refine isName_getD fun name known => ?_
    obtain ⟨entry, found, rfl⟩ := Option.map_eq_some_iff.1 (Option.mem_def.1 known)
    exact givenNames _ (mem_flatMap.2
      ⟨entry, mem_of_find?_eq_some found, mem_cons_self⟩)
  · intro scope
    refine isName_getD fun name known => ?_
    obtain ⟨entry, found, rfl⟩ := Option.map_eq_some_iff.1 (Option.mem_def.1 known)
    exact givenNames _ (mem_flatMap.2 ⟨entry, mem_of_find?_eq_some found,
      entry.getD_mem_names⟩)

end Naming

def ConversionInput.hoisted (input : ConversionInput) (program : ResolvedProgram) :
    List HoistedBlock :=
  hoistedBlocks input (stmtsParts input Site.top program)

/-- A program and the state after its conversion. -/
structure Converted (input : ConversionInput) (program : ResolvedProgram) (reserved : List String)
    (naming : Naming) (body : PlainProgram) (state : ConversionState) : Prop where
  valid : naming.Valid
  body : body = Conversion.cellPrelude input 0 ++ Image.stmts input naming Site.top program
  closures : state.closures.Perm ((input.hoisted program).map (·.closure input naming))
  helpers : ∀ used ∈ state.helpers, ∃ helper iteration, (helper, iteration) ∈ Helper.iterations ∧
    used.base = helper.base ∧ used.name = naming.helper helper.base ∧
    helper.instantiate used.name naming.stop = .ok used.definition
  bases : (state.helpers.map UsedHelper.base).Nodup
  helped : ∀ hoisted ∈ input.hoisted program, ∃ used ∈ state.helpers,
    used.base = hoisted.helper.base
  needed : ∀ used ∈ state.helpers, ∃ hoisted ∈ input.hoisted program,
    used.base = hoisted.helper.base
  distinct : state.names.issued.Nodup
  unreserved : ∀ name ∈ state.names.issued, name ∉ reserved
  argument : ∀ hoisted ∈ input.hoisted program, naming.argument hoisted.scope ∈ state.names.issued
  generated : (state.helpers.map UsedHelper.name ++
    (input.hoisted program).map fun hoisted => naming.closure hoisted.scope).Subperm
      state.names.issued

theorem given_closures {naming : Naming} {state : ConversionState} {given : List Given}
    (agrees : naming.Agrees state given) :
    (given.map fun entry => naming.closure entry.scope).Sublist (given.flatMap Given.names) := by
  have same : (given.map fun entry => naming.closure entry.scope) =
      given.flatMap fun entry => [entry.closure] := by
    rw [← map_eq_flatMap]
    exact map_congr_left fun entry member => (agrees.given entry member).1
  rw [same]
  exact List.Sublist.flatMap_right _ fun entry _ =>
    (nil_sublist entry.argument.toList).cons_cons entry.closure

theorem ConversionState.ready_initial {names : NameSupply} (ready : names.Ready)
    (none : names.issued = []) : ({ names } : ConversionState).Ready names.reserved [] where
  names := ready
  reserved := rfl
  named := by
    rw [none]
    exact nofun
  issued := .of_eq none
  made := nofun
  bases := .nil

theorem program_converted {wording : Wording Occurrence} {input : ConversionInput}
    {program : ResolvedProgram} {names : NameSupply} (standard : input.Standard)
    (wellFormed : stmtsWellFormed wording false program)
    (scopes : (marks (walkStmts program)).Nodup) (ready : names.Ready) (none : names.issued = []) :
    ∃ body state naming, (Conversion.program input program).run.run { names } = (.ok body, state) ∧
      Converted input program names.reserved naming body state := by
  have converts := (Conversion.converts_stmts standard Site.top program wellFormed).map
    fun statements => Conversion.cellPrelude input 0 ++ statements
  obtain ⟨body, state, given, ran, reaches⟩ := converts (ConversionState.ready_initial ready none)
  have readyLast : state.Ready names.reserved (given.flatMap Given.names) := reaches.ready
  have given_scopes : (given.map Given.scope).Nodup := by
    have sublist := hoistedBlocks_scopes input (stmtsParts input Site.top program)
    rw [stmtsParts_map_node Site.top program _ wellFormed] at sublist
    exact reaches.scopes.nodup_iff.2 (sublist.nodup scopes)
  let naming := Naming.ofGiven state given
  have agrees : naming.Agrees state given := Naming.agrees_ofGiven readyLast.bases given_scopes
  refine ⟨body, state, naming, ran, ?_⟩
  exact {
    valid := Naming.valid_ofGiven readyLast
    body := reaches.value naming agrees
    closures := reaches.closures naming agrees
    helpers := fun used member => by
      obtain ⟨helper, iteration, there, same, marker, known, instantiated⟩ :=
        readyLast.made used member
      refine ⟨helper, iteration, there, same, ?_, ?_⟩
      · rw [← same]
        exact (agrees.helpers used member).symm
      · rwa [agrees.stop marker known]
    bases := readyLast.bases
    helped := reaches.helpers
    needed := fun used known => (reaches.used used known).resolve_left not_mem_nil
    argument := fun hoisted member => by
      have isScope := reaches.scopes.mem_iff.2 (mem_map_of_mem member)
      obtain ⟨entry, there, same⟩ := mem_map.1 isScope
      refine readyLast.issued.mem_iff.2 (mem_append_right _ (mem_flatMap.2
        ⟨entry, there, ?_⟩))
      rw [← same]
      simp only [naming, Naming.ofGiven, find?_eq_some_of_nodup given_scopes there,
        Option.map_some, Option.getD_some]
      exact entry.getD_mem_names
    distinct := readyLast.names.sound.distinct
    unreserved := readyLast.reserved ▸ readyLast.names.sound.unreserved
    generated := by
      have closures : ((input.hoisted program).map fun hoisted => naming.closure hoisted.scope).Perm
          (given.map fun entry => naming.closure entry.scope) := by
        have same := reaches.scopes.symm.map naming.closure
        rwa [map_map, map_map] at same
      refine (closures.append_left _).subperm.trans (.trans ?_ readyLast.issued.symm.subperm)
      rw [append_assoc]
      exact (((given_closures agrees).append_left _).trans
        (sublist_append_right _ _)).subperm }

end Hoist
