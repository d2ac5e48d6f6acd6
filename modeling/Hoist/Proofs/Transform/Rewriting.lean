import Hoist.Transform
import Hoist.Proofs.Conversion.WellFormed

/-!
The stages of a transformation.  What a run reports does not change its result: the transformation
of a text is reading, rewriting, the check of the generated names, and printing.
-/

namespace Hoist

/-- A program with what the stages of its transformation found out and made. -/
structure Rewriting where
  resolution : Resolution
  plan : Plan
  analysis : CaptureAnalysis
  body : PlainProgram
  state : ConversionState

namespace Rewriting

variable (rewriting : Rewriting)

def added : PlainProgram :=
  rewriting.state.helpers.map UsedHelper.definition ++
    rewriting.state.closures.map HoistedClosure.definition

def program : PlainProgram := rewriting.added ++ rewriting.body

/-- The names of generated code. -/
def issued : List String := rewriting.state.names.issued

/-- The names of the hoisted closures. -/
def hoisted : List String := rewriting.state.closures.map HoistedClosure.name

end Rewriting

/-- Resolves a program, plans its calls and hoists the blocks. -/
def rewrite (program : PlainProgram) : Except TransformError Rewriting := do
  let resolution ← (resolve program).mapError .scope
  let plan := planCalls resolution standardHelpers
  let analysis ← (analyzeCaptures resolution plan.isHoisted).mapError .unresolved
  let names : NameSupply := { start := "_lift_", reserved := identifiers program }
  match (Conversion.program ⟨resolution.table, analysis, plan⟩ resolution.program).run.run
      { names } with
  | (.error error, _) => .error error
  | (.ok body, state) => .ok ⟨resolution, plan, analysis, body, state⟩

/-- Checks the generated names of a rewritten program and prints it. -/
def Rewriting.finish (rewriting : Rewriting) (program : PlainProgram) :
    Except TransformError TransformResult := do
  (verifyNames [] (identifiers program) rewriting.issued).mapError .collision
  let text ← (print rewriting.program).mapError .print
  return { text, hoisted := rewriting.hoisted, warnings := rewriting.plan.warnings }

theorem rewrite_of_stages {program : PlainProgram} {resolution : Resolution}
    {analysis : CaptureAnalysis} {body : PlainProgram} {state : ConversionState}
    (resolved : resolve program = .ok resolution)
    (analyzed : analyzeCaptures resolution (planCalls resolution standardHelpers).isHoisted =
      .ok analysis)
    (ran : (Conversion.program ⟨resolution.table, analysis, planCalls resolution standardHelpers⟩
      resolution.program).run.run
        { names := { start := "_lift_", reserved := identifiers program } } = (.ok body, state)) :
    rewrite program =
      .ok ⟨resolution, planCalls resolution standardHelpers, analysis, body, state⟩ := by
  simp only [rewrite, resolved, Except.mapError, ok_bind, analyzed, ran]

namespace Transforming

variable {α β ε : Type}

/-- A run that ends with a certain result whenever the transformer has certain names. -/
def Gives (names : NameSupply) (run : Transforming α) (result : Except TransformError α) : Prop :=
  ∀ transformer : Transformer, transformer.names = names → (run transformer).1 = result

variable {names : NameSupply} {result : Except TransformError β}

theorem Gives.congr {run : Transforming β} {other : Except TransformError β} (same : result = other)
    (gives : Gives names run result) : Gives names run other := same ▸ gives

theorem gives_pure (value : α) : Gives names (pure value) (.ok value) := fun _ _ => rfl

theorem gives_report (events : List LogEvent) {next : Unit → Transforming β}
    (gives : Gives names (next ()) result) : Gives names (report events >>= next) result :=
  fun transformer same => gives { transformer with log := transformer.log ++ events } same

theorem gives_settle (wrap : ε → TransformError) (first : Except ε α) {next : α → Transforming β}
    {more : α → Except TransformError β} (gives : ∀ value, Gives names (next value) (more value)) :
    Gives names (settle wrap first >>= next) (first.mapError wrap >>= more) := by
  cases first with
  | error error => exact fun _ _ => rfl
  | ok value => exact gives value

theorem gives_reset (reserved : List String) {next : Unit → Transforming β}
    (gives : Gives (names.reset reserved) (next ()) result) :
    Gives names ((modify fun transformer => { transformer with
      names := transformer.names.reset reserved }) >>= next) result :=
  fun transformer same =>
    gives { transformer with names := transformer.names.reset reserved } (by rw [same])

theorem run_convert (input : ConversionInput) (program : ResolvedProgram)
    (transformer : Transformer) {body : Except TransformError PlainProgram}
    {state : ConversionState}
    (ran : (Conversion.program input program).run.run { names := transformer.names } =
      (body, state)) :
    convert input program transformer =
      (body.map (·, state), ⟨state.names, transformer.log ++ state.log⟩) := by
  rw [convert, steps_get, ran]
  cases body <;> rfl

theorem gives_convert (input : ConversionInput) (program : ResolvedProgram)
    {next : PlainProgram × ConversionState → Transforming β}
    (more : PlainProgram → ConversionState → Except TransformError β)
    (gives : ∀ body state, Gives state.names (next (body, state)) (more body state)) :
    Gives names (convert input program >>= next)
      (match (Conversion.program input program).run.run { names } with
        | (.error error, _) => .error error
        | (.ok body, state) => more body state) := by
  rintro transformer rfl
  rcases ran : (Conversion.program input program).run.run { names := transformer.names } with
    ⟨error | body, state⟩
  · exact congrArg Prod.fst (steps_bind_error (run_convert input program transformer ran))
  · rw [steps_bind (run_convert input program transformer ran)]
    exact gives body state _ rfl

theorem gives_transformProgram (program : PlainProgram) (start : names.start = "_lift_") :
    Gives names (transformProgram {} program) (do (← rewrite program).finish program) := by
  unfold transformProgram
  refine gives_reset _ (gives_report _ ?_)
  rw [rewrite, bind_assoc]
  refine gives_settle _ _ fun resolution => gives_report _ (gives_report _ (gives_report _
    (gives_report _ ?_)))
  rw [bind_assoc]
  refine gives_settle _ _ fun analysis => gives_report _ (gives_report _ ?_)
  have reset : names.reset (identifiers program) =
      { start := "_lift_", reserved := identifiers program } := by
    rw [NameSupply.reset, start]
  rw [reset]
  let rewriting (body : PlainProgram) (state : ConversionState) : Rewriting :=
    ⟨resolution, planCalls resolution standardHelpers, analysis, body, state⟩
  refine Gives.congr ?_ (gives_convert _ _ (fun body state => (rewriting body state).finish program)
    fun body state => ?_)
  · dsimp only
    generalize (Conversion.program _ _).run.run _ = final
    obtain ⟨_ | _, _⟩ := final <;> rfl
  · refine gives_report _ (gives_settle _ _ fun _ => gives_report _ ?_)
    exact gives_settle _ _ fun text => gives_report _ (gives_pure _)

end Transforming

theorem transform_eq (text : Text) : transform {} text = (do
      let program ← (parse text).mapError .parse
      (← rewrite program).finish program) := by
  refine Transforming.gives_report _ (Transforming.gives_settle _ _ fun program => ?_) _ rfl
  exact Transforming.gives_transformProgram program rfl

end Hoist
