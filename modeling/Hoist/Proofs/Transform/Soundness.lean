import Hoist.Proofs.Planned
import Hoist.Proofs.Transform.Rewriting

/-!
Nothing fails after scope resolution.  A program that is read and resolved is rewritten, its
generated names do not collide, and the rewritten program is well-formed, so it is printed; what is
printed is read as the same program again.
-/

namespace Hoist

open Lexeme

variable {floats : Float → Prop}

def Rewriting.input (rewriting : Rewriting) : ConversionInput :=
  ⟨rewriting.resolution.table, rewriting.analysis, rewriting.plan⟩

/-- What the stages of a rewriting establish. -/
structure Rewriting.Sound (program : PlainProgram) (rewriting : Rewriting) (naming : Naming) :
    Prop where
  resolved : resolve program = .ok rewriting.resolution
  planned : rewriting.plan = planCalls rewriting.resolution standardHelpers
  analyzed : analyzeCaptures rewriting.resolution rewriting.plan.isHoisted = .ok rewriting.analysis
  named : rewriting.input.Named
  converted : Converted rewriting.input rewriting.resolution.program (identifiers program) naming
    rewriting.body rewriting.state

/-- A check of what the conversion of a program is given. -/
def checksInput (program : PlainProgram) (check : ConversionInput → ResolvedProgram → Bool) :
    Bool :=
  (resolve program).toOption.all fun resolution =>
    let plan := planCalls resolution standardHelpers
    (analyzeCaptures resolution plan.isHoisted).toOption.all fun analysis =>
      check ⟨resolution.table, analysis, plan⟩ resolution.program

theorem Rewriting.Sound.checked {program : PlainProgram} {rewriting : Rewriting} {naming : Naming}
    {check : ConversionInput → ResolvedProgram → Bool} (sound : rewriting.Sound program naming)
    (checked : checksInput program check = true) :
    check rewriting.input rewriting.resolution.program = true := by
  simpa [checksInput, sound.resolved, ← sound.planned, sound.analyzed, Except.toOption,
    Rewriting.input] using checked

variable {program : PlainProgram} {resolution : Resolution} {text : Text}

theorem rewrite_sound (valid : stmtsWellFormed (.plain floats) false program)
    (resolved : resolve program = .ok resolution) :
    ∃ rewriting naming, rewrite program = .ok rewriting ∧ rewriting.Sound program naming := by
  obtain ⟨source, tableNamed⟩ := resolve_resolvesTo valid resolved
  let plan := planCalls resolution standardHelpers
  obtain ⟨analysis, analyzed, capturesNamed⟩ :=
    analyzeCaptures_named plan.isHoisted source.wellFormed
  let input : ConversionInput := ⟨resolution.table, analysis, plan⟩
  have standard : input.Standard := by
    intro scope helper known
    obtain ⟨method, member⟩ := helper?_mem known
    exact Helper.mem_iterations member
  let names : NameSupply := { start := "_lift_", reserved := identifiers program }
  have ready : names.Ready := ⟨rfl, nofun, List.nodup_nil⟩
  obtain ⟨body, state, naming, ran, converted⟩ := program_converted standard source.wellFormed
    (resolve_marks_nodup resolved) ready rfl
  refine ⟨⟨resolution, plan, analysis, body, state⟩, naming, ?_, ?_⟩
  · exact rewrite_of_stages resolved analyzed ran
  · exact ⟨resolved, rfl, analyzed, ⟨tableNamed, capturesNamed⟩, converted⟩

theorem rewrite_eq_ok {rewriting : Rewriting}
    (valid : stmtsWellFormed (.plain floats) false program)
    (rewritten : rewrite program = .ok rewriting) : ∃ naming, rewriting.Sound program naming := by
  cases resolved : resolve program with
  | error error =>
    simp only [rewrite, resolved, Except.mapError, error_bind] at rewritten
    cases rewritten
  | ok resolution =>
    obtain ⟨other, naming, same, sound⟩ := rewrite_sound valid resolved
    rw [rewritten] at same
    cases same
    exact ⟨naming, sound⟩

section Sound

variable {program : PlainProgram} {rewriting : Rewriting} {naming : Naming}
  (sound : rewriting.Sound program naming)
include sound

theorem Rewriting.Sound.source (valid : stmtsWellFormed (.plain floats) false program) :
    StmtsResolveTo floats false program rewriting.resolution.program :=
  (resolve_resolvesTo valid sound.resolved).1

/-- The generated names do not collide. -/
theorem Rewriting.Sound.verifyNames :
    verifyNames [] (identifiers program) rewriting.issued = .ok () :=
  verifyNames_ok sound.converted.unreserved (fun _ _ => List.not_mem_nil) sound.converted.distinct

theorem Rewriting.Sound.helpers_wellFormed : stmtsWellFormed (.plain floats) false
      (rewriting.state.helpers.map UsedHelper.definition) := by
  refine stmtsWellFormed_iff.2 (List.forall_mem_map.2 fun used member => ?_)
  obtain ⟨helper, iteration, there, -, named, instantiated⟩ := sound.converted.helpers used member
  have valid := sound.converted.valid
  rw [named] at instantiated
  obtain ⟨definition, made, reparsed⟩ :=
    Helper.instantiate_reparsed there (valid.helper helper.base) valid.stop floats
  rw [instantiated] at made
  cases made
  exact reparsed.wellFormed.1

theorem Rewriting.Sound.hoisted_wellFormed
    (valid : stmtsWellFormed (.plain floats) false program) {hoisted : HoistedBlock}
    (member : hoisted ∈ rewriting.input.hoisted rewriting.resolution.program) :
    paramsWellFormed (.resolved floats) hoisted.block.params ∧
      stmtsWellFormed (.resolved floats) false hoisted.block.body := by
  have source := (sound.source valid).wellFormed
  have there := List.mem_map_of_mem (f := Part.node) (mem_hoistedBlocks.1 member).1
  rw [stmtsParts_map_node _ _ _ source] at there
  exact walkStmts_wellFormed _ _ source _ there

theorem Rewriting.Sound.closures_wellFormed
    (valid : stmtsWellFormed (.plain floats) false program) :
    stmtsWellFormed (.plain floats) false
      (rewriting.state.closures.map HoistedClosure.definition) := by
  have source := (sound.source valid).wellFormed
  refine stmtsWellFormed_iff.2 (List.forall_mem_map.2 fun closure member => ?_)
  obtain ⟨hoisted, there, rfl⟩ := List.mem_map.1 (sound.converted.closures.mem_iff.1 member)
  obtain ⟨paramsValid, bodyValid⟩ := Image.block_wellFormed sound.named sound.converted.valid
    (some hoisted.block) (by
      rintro _ ⟨⟩
      exact sound.hoisted_wellFormed valid there) hoisted.block rfl
  exact Image.closure_wellFormed (sound.converted.valid.closure _)
    (sound.converted.valid.argument _) (sound.named.captures _) _ paramsValid bodyValid

theorem Rewriting.Sound.wellFormed (valid : stmtsWellFormed (.plain floats) false program) :
    stmtsWellFormed (.plain floats) false rewriting.program := by
  have source := (sound.source valid).wellFormed
  refine stmtsWellFormed_append.2 ⟨stmtsWellFormed_append.2
    ⟨sound.helpers_wellFormed, sound.closures_wellFormed valid⟩, ?_⟩
  rw [sound.converted.body]
  exact stmtsWellFormed_append.2 ⟨Conversion.cellPrelude_wellFormed sound.named 0,
    Image.stmts_wellFormed sound.named sound.converted.valid _ source⟩

end Sound

theorem transform_of_resolve (parsed : parse text = .ok program)
    (resolved : resolve program = .ok resolution) :
    ∃ result, transform {} text = .ok result := by
  have valid := wellFormed_of_parse parsed
  obtain ⟨rewriting, naming, rewritten, sound⟩ := rewrite_sound valid resolved
  refine ⟨⟨Row.render (Row.program rewriting.program), rewriting.hoisted,
    rewriting.plan.warnings⟩, ?_⟩
  rw [transform_eq, parsed]
  simp only [Except.mapError, ok_bind, rewritten, Rewriting.finish, sound.verifyNames,
    print_eq_render (sound.wellFormed valid)]
  rfl

/-- Whether a text can be read and its names can be resolved. -/
def accepted (text : Text) : Bool :=
  match parse text with
  | .error _ => false
  | .ok program => (resolve program).isOk

theorem accepted_iff : accepted text = true ↔
      ∃ program resolution, parse text = .ok program ∧ resolve program = .ok resolution := by
  unfold accepted
  split
  · next isError => simp [isError]
  · next program isOk =>
    rw [isOk]
    cases resolved : resolve program <;> simp [Except.isOk, Except.toBool, resolved]

theorem transform_stages {result : TransformResult} (transformed : transform {} text = .ok result) :
    ∃ program rewriting, parse text = .ok program ∧ rewrite program = .ok rewriting ∧
      print rewriting.program = .ok result.text ∧ result.hoisted = rewriting.hoisted ∧
      result.warnings = rewriting.plan.warnings := by
  rw [transform_eq] at transformed
  cases parsed : parse text with
  | error error =>
    rw [parsed] at transformed
    cases transformed
  | ok program =>
    simp only [parsed, Except.mapError, ok_bind] at transformed
    obtain ⟨rewriting, rewritten, finished⟩ := bind_eq_ok.1 transformed
    refine ⟨program, rewriting, rfl, rewritten, ?_⟩
    obtain ⟨_, -, finished⟩ := bind_eq_ok.1 finished
    obtain ⟨printed, isPrinted, finished⟩ := bind_eq_ok.1 finished
    cases finished
    refine ⟨?_, rfl, rfl⟩
    cases written : print rewriting.program with
    | error error =>
      rw [written] at isPrinted
      cases isPrinted
    | ok other =>
      rw [written] at isPrinted
      cases isPrinted
      rfl

theorem transform_succeeds_iff (text : Text) : (∃ result, transform {} text = .ok result) ↔
      ∃ program resolution, parse text = .ok program ∧ resolve program = .ok resolution := by
  constructor
  · rintro ⟨result, transformed⟩
    obtain ⟨program, rewriting, parsed, rewritten, -⟩ := transform_stages transformed
    have valid := wellFormed_of_parse parsed
    obtain ⟨naming, sound⟩ := rewrite_eq_ok valid rewritten
    exact ⟨program, rewriting.resolution, parsed, sound.resolved⟩
  · rintro ⟨program, resolution, parsed, resolved⟩
    exact transform_of_resolve parsed resolved

/-- A program that is printed, read again as the same program, and printed as the same text. -/
def RoundTrips (program : PlainProgram) : Prop :=
  ∃ text again, print program = .ok text ∧ parse text = .ok again ∧ SameProgram again program ∧
    print again = .ok text

/-- The float literals of a text are finite, and their shortest decimals, in the bare notation,
denote them. -/
def FloatsReadBack (text : Text) : Prop :=
  ∀ tokens, scan text = .ok tokens → ∀ token ∈ tokens, token.kind = .float →
    Decimal.ReadsBack (floatValue token)

theorem floatText_ne_inf {x : Float} (readsBack : Decimal.ReadsBack x) :
    Decimal.floatText Decimal.literalStyle x ≠ "inf" := by
  obtain ⟨⟨mantissa, exponent, finite⟩, -⟩ := readsBack
  obtain ⟨whole, fraction, raised, spelled, nonempty, digits, -⟩ :=
    Decimal.isFloat_floatText finite
  intro infinite
  rw [infinite] at spelled
  cases whole with
  | nil => exact nonempty rfl
  | cons first rest =>
    have isFirst : 'i' = first := (List.cons.inj spelled).1
    exact absurd (digits first List.mem_cons_self) (isFirst ▸ by decide)

theorem roundTrips_of_wellFormed (words : stmtsWellFormed (.plain IsFloatWord) false program)
    (finite : stmtsWellFormed (.plain Decimal.ReadsBack) false program) : RoundTrips program := by
  obtain ⟨again, parsed, reparsed⟩ := parse_render words
  have printed := print_eq_render words
  exact ⟨_, again, printed, parsed, reparsed.sameProgram (fun _ => floatText_ne_inf) finite,
    (reparsed.print_eq words).trans printed⟩

/-- What is read, and what is rewritten from it, is printed and read again as the same program. -/
theorem parsed_and_rewritten_roundTrip {text : Text} {program : PlainProgram}
    (parsed : parse text = .ok program) (floats : FloatsReadBack text) :
    RoundTrips program ∧ ∀ rewriting, rewrite program = .ok rewriting →
      RoundTrips rewriting.program := by
  have words : stmtsWellFormed (.plain IsFloatWord) false program :=
    parse_wellFormed (fun tokens scanned token member isFloat =>
      .inl (floats tokens scanned token member isFloat)) parsed
  have finite : stmtsWellFormed (.plain Decimal.ReadsBack) false program :=
    parse_wellFormed floats parsed
  refine ⟨roundTrips_of_wellFormed words finite, fun rewriting rewritten => ?_⟩
  obtain ⟨naming, sound⟩ := rewrite_eq_ok words rewritten
  exact roundTrips_of_wellFormed (sound.wellFormed words) (sound.wellFormed finite)

/-- The float of the text has a mantissa of a single digit. -/
theorem floatsReadBack_nested :
    FloatsReadBack (.ofString "x = 1.0e16\n[2].each { |a, b| x -= -a if a }\n") := by
  intro tokens scanned token member isFloat
  have only : (scan (.ofString "x = 1.0e16\n[2].each { |a, b| x -= -a if a }\n")).toOption.all
      (fun tokens => tokens.all fun token => token.kind != .float || floatValue token = 1.0e16) =
        true := by decide +kernel
  rw [scanned] at only
  have either := List.all_eq_true.1 only token member
  rw [isFloat] at either
  have same : floatValue token = 1.0e16 := of_decide_eq_true either
  rw [same]
  exact ⟨⟨5000000000000000, 1, by decide +kernel⟩, by decide +kernel⟩

theorem parsed_and_rewritten_roundTrip_nested : ∃ program rewriting,
      parse (.ofString "x = 1.0e16\n[2].each { |a, b| x -= -a if a }\n") = .ok program ∧
      FloatsReadBack (.ofString "x = 1.0e16\n[2].each { |a, b| x -= -a if a }\n") ∧
      RoundTrips program ∧ rewrite program = .ok rewriting ∧ RoundTrips rewriting.program := by
  obtain ⟨program, resolution, parsed, resolved⟩ := accepted_iff.1
    (show accepted (.ofString "x = 1.0e16\n[2].each { |a, b| x -= -a if a }\n") = true by
      decide +kernel)
  have valid := wellFormed_of_parse parsed
  obtain ⟨rewriting, naming, rewritten, -⟩ := rewrite_sound valid resolved
  obtain ⟨source, every⟩ := parsed_and_rewritten_roundTrip parsed floatsReadBack_nested
  exact ⟨program, rewriting, parsed, floatsReadBack_nested, source, rewritten,
    every rewriting rewritten⟩

end Hoist
