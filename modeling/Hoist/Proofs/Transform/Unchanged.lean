import Hoist.Proofs.Conversion.Idle
import Hoist.Proofs.Conversion.TakenNames
import Hoist.Proofs.Scope.Collected
import Hoist.Proofs.Transform.Soundness

/-!
Transforming a program of which no block is hoisted, under any configuration.  Conversion then takes
nothing from its state and adds nothing to it, and gives back the program that was resolved, so the
text is that of the program as it was read.
-/

namespace Hoist

open List

namespace Conversion

variable {input : ConversionInput}

/-- A run that takes nothing from its state and leaves it as it is. -/
def Steady (α : Type) (run : Converting α) : Prop := ∃ result, ∀ state, run state = (result, state)

theorem closed_steady (idle : input.Idle) : Closed input Site.Outside Steady where
  pure value := ⟨.ok value, fun _ => rfl⟩
  bind := by
    rintro α β first next ⟨result, ran⟩ step
    cases result with
    | error error => exact ⟨.error error, fun state => steps_bind_error (ran state)⟩
    | ok value =>
      obtain ⟨result, ranNext⟩ := step value
      exact ⟨result, fun state => (steps_bind (ran state)).trans (ranNext state)⟩
  throw {_ error} _ := ⟨.error error, fun _ => rfl⟩
  step outside step := outside.step idle step
  jump outside loc kind value := by
    unfold jump
    rw [if_pos outside.construct]
    exact ⟨_, fun _ => rfl⟩
  hoistedCall _ _ _ planned := nomatch (idle.plan _).symm.trans planned

/-- With nothing to do, conversion gives back the program and keeps its state as it is. -/
theorem program_idle (idle : input.Idle) {wording : Wording Occurrence} {program : ResolvedProgram}
    (valid : stmtsWellFormed wording false program) (scopes : (marks (walkStmts program)).Nodup) :
    Conversion.program input program = pure (relabelStmts erasing program) := by
  have standard : input.Standard :=
    fun scope _ planned => nomatch (idle.plan scope).symm.trans planned
  obtain ⟨result, steady⟩ := (closed_steady idle).program Site.outside_top program
  obtain ⟨body, state, naming, ran, converted⟩ := program_converted standard valid scopes
    (show ({ start := "_lift_" } : NameSupply).Ready from ⟨rfl, nofun, nodup_nil⟩) rfl
  cases (steady _).symm.trans ran
  refine funext fun state => (steady state).trans ?_
  rw [converted.body, cellPrelude_idle idle, Image.stmts_idle naming idle
    Site.outside_top _ _ valid]
  rfl

end Conversion

variable {analysis : CaptureAnalysis} {resolution : Resolution}

namespace Transforming

variable {α β ε : Type} {names left : NameSupply} {result : β}

/-- A run that starts with some names, succeeds, and leaves some names, whatever is reported. -/
def Ends (names : NameSupply) (run : Transforming α) (result : α) (left : NameSupply) : Prop :=
  ∀ log, ∃ after, run ⟨names, log⟩ = (.ok result, ⟨left, after⟩)

theorem ends_pure (value : α) : Ends names (pure value) value names := fun log => ⟨log, rfl⟩

theorem ends_report (events : List LogEvent) {next : Unit → Transforming β}
    (ends : Ends names (next ()) result left) : Ends names (report events >>= next) result left :=
  fun log => ends (log ++ events)

theorem ends_settle {wrap : ε → TransformError} {first : Except ε α} {value : α}
    (settled : first = .ok value) {next : α → Transforming β}
    (ends : Ends names (next value) result left) :
    Ends names (settle wrap first >>= next) result left := by
  cases settled
  exact ends

theorem ends_reset (reserved : List String) {next : Unit → Transforming β}
    (ends : Ends (names.reset reserved) (next ()) result left) :
    Ends names ((modify fun transformer => { transformer with
      names := transformer.names.reset reserved }) >>= next) result left :=
  ends

theorem ends_convert {input : ConversionInput} {program : ResolvedProgram} {body : PlainProgram}
    (converted : Conversion.program input program = pure body)
    {next : PlainProgram × ConversionState → Transforming β}
    (ends : Ends names (next (body, { names })) result left) :
    Ends names (convert input program >>= next) result left := by
  intro log
  have ran := run_convert input program ⟨names, log⟩ (by rw [converted]; rfl)
  rw [steps_bind ran]
  exact ends _

theorem ends_transformText {config : TransformConfig} {text : Text} {program : PlainProgram}
    {printed : Text} (parsed : parse text = .ok program)
    (resolved : resolve program = .ok resolution)
    (analyzed : analyzeCaptures resolution (planCalls resolution config.helpers).isHoisted =
      .ok analysis) (converted : Conversion.program
      ⟨resolution.table, analysis, planCalls resolution config.helpers⟩ resolution.program =
        pure program) (isPrinted : print program = .ok printed) :
    Ends names (transformText config text)
      ⟨printed, [], (planCalls resolution config.helpers).warnings⟩
      (names.reset (identifiers program)) := by
  refine ends_report _ (ends_settle parsed (ends_reset _ (ends_report _ (ends_settle resolved ?_))))
  refine ends_report _ (ends_report _ (ends_report _ (ends_report _ (ends_settle analyzed ?_))))
  refine ends_report _ (ends_report _ (ends_convert converted (ends_report _ ?_)))
  refine ends_settle rfl (ends_report _ (ends_settle ?_ (ends_report _ (ends_pure _))))
  cases config.emitHelpers <;> exact isPrinted

end Transforming

theorem Plan.helper?_idle {plan : Plan} (nothing : plan.hoisted = []) (scope : ScopeId) :
    plan.helper? scope = none := by
  rw [Plan.helper?, nothing]
  rfl

theorem idle_of_analyzed {program : PlainProgram} {plan : Plan}
    (resolved : resolve program = .ok resolution) (nothing : plan.hoisted = [])
    (analyzed : analyzeCaptures resolution plan.isHoisted = .ok analysis) :
    (ConversionInput.mk resolution.table analysis plan).Idle := by
  have unplanned := Plan.helper?_idle nothing
  obtain ⟨-, cells⟩ := analyzeCaptures_spec analyzed (resolve_scopes_nodup resolved)
  refine ⟨unplanned, fun scope name => Bool.eq_false_iff.2 fun isCell => ?_⟩
  obtain ⟨block, -, isHoisted, -⟩ := (cells scope name).1 isCell
  rw [Plan.isHoisted, unplanned] at isHoisted
  cases isHoisted

/-- A program of which no block is hoisted stays as it is, under every configuration: no variable
becomes a cell, conversion gives back the program that was read and leaves its state alone, no name
is issued, and the text is that of the program. -/
theorem transform_unchanged (config : TransformConfig) {text : Text} {program : PlainProgram}
    {resolution : Resolution} (parsed : parse text = .ok program)
    (resolved : resolve program = .ok resolution)
    (nothing : (planCalls resolution config.helpers).hoisted = []) :
    ∃ analysis printed,
      analyzeCaptures resolution (planCalls resolution config.helpers).isHoisted = .ok analysis ∧
      (∀ scope name, analysis.isCell scope name = false) ∧
      Conversion.program ⟨resolution.table, analysis, planCalls resolution config.helpers⟩
        resolution.program = pure program ∧
      (∀ names : NameSupply,
        ({ names } : ConversionState).assemble config.emitHelpers program = program) ∧
      print program = .ok printed ∧
      transform config text =
        .ok ⟨printed, [], (planCalls resolution config.helpers).warnings⟩ ∧
      ((Transforming.transformText config text).run.run
        (Transformer.new config)).2.names.issued = [] := by
  have valid := wellFormed_of_parse parsed
  obtain ⟨source, -⟩ := resolve_resolvesTo valid resolved
  obtain ⟨analysis, analyzed, -⟩ :=
    analyzeCaptures_named (planCalls resolution config.helpers).isHoisted source.wellFormed
  have idle := idle_of_analyzed resolved nothing analyzed
  have converted := Conversion.program_idle idle source.wellFormed (resolve_marks_nodup resolved)
  rw [source.erased] at converted
  have isPrinted := print_eq_render valid
  have ends : Transforming.Ends { start := config.nameStart } _ _ _ :=
    Transforming.ends_transformText parsed resolved analyzed converted isPrinted
  obtain ⟨log, ran⟩ := ends []
  refine ⟨analysis, _, analyzed, idle.cells, converted, fun names => ?_, isPrinted, ?_, ?_⟩
  · cases config.emitHelpers <;> rfl
  · exact congrArg Prod.fst ran
  · exact congrArg (fun final => final.2.names.issued) ran

theorem transform_unchanged_without_helpers : ∃ program resolution printed,
      parse (.ofString "x = 0\n[1].each { |a| x += a if !x }\n") = .ok program ∧
      resolve program = .ok resolution ∧ (planCalls resolution []).hoisted = [] ∧
      print program = .ok printed ∧
      transform { nameStart := "x", helpers := [] }
        (.ofString "x = 0\n[1].each { |a| x += a if !x }\n") =
          .ok ⟨printed, [], (planCalls resolution []).warnings⟩ := by
  obtain ⟨program, resolution, parsed, resolved⟩ := accepted_iff.1
    (show accepted (.ofString "x = 0\n[1].each { |a| x += a if !x }\n") = true by decide +kernel)
  have nothing :
      (parse (.ofString "x = 0\n[1].each { |a| x += a if !x }\n")).toOption.all (fun program =>
        (resolve program).toOption.all fun resolution =>
          (planCalls resolution []).hoisted.isEmpty) = true := by decide +kernel
  rw [parsed, Except.toOption, Option.all_some, resolved, Except.toOption, Option.all_some,
    List.isEmpty_iff] at nothing
  obtain ⟨-, printed, -, -, -, -, isPrinted, transformed, -⟩ :=
    transform_unchanged { nameStart := "x", helpers := [] } parsed resolved nothing
  exact ⟨program, resolution, printed, parsed, resolved, nothing, isPrinted, transformed⟩

end Hoist
