import Hoist.Conversion

/-!
The transformation of Ruby programs as a whole: read, resolve, plan, analyse captures, convert,
check the generated names, print.  One transformer may run many programs; each run starts with a
fresh supply of names.
-/

namespace Hoist

structure TransformConfig where
  /-- What generated names start with. -/
  nameStart : String := "_lift_"
  emitHelpers : Bool := true
  helpers : HelperTable := standardHelpers

structure TransformResult where
  text : Text
  /-- The names of the hoisted closures. -/
  hoisted : List String
  warnings : List Warning
deriving DecidableEq, Repr

/-- What a transformer keeps between runs and what the runs have reported. -/
structure Transformer where
  names : NameSupply
  log : List LogEvent := []

def Transformer.new (config : TransformConfig) : Transformer :=
  { names := { start := config.nameStart } }

abbrev Transforming := ExceptT TransformError (StateM Transformer)

namespace Transforming

def report (events : List LogEvent) : Transforming Unit :=
  modify fun transformer => { transformer with log := transformer.log ++ events }

def settle {ε α : Type} (wrap : ε → TransformError) : Except ε α → Transforming α
  | .ok value => return value
  | .error error => throw (wrap error)

def convert (input : ConversionInput) (program : ResolvedProgram) :
    Transforming (PlainProgram × ConversionState) := do
  let transformer ← get
  let (body, state) :=
    (Conversion.program input program).run.run { names := transformer.names }
  set ({ names := state.names, log := transformer.log ++ state.log } : Transformer)
  return (← settle id body, state)

def transformProgram (config : TransformConfig) (program : PlainProgram) :
    Transforming TransformResult := do
  let reserved := identifiers program
  modify fun transformer => { transformer with names := transformer.names.reset reserved }
  report [.resolving]
  let resolution ← settle .scope (resolve program)
  report [.resolved resolution.table.scopes.length resolution.table.methods.length
    resolution.blocks.length]
  report [.planning]
  let plan := planCalls resolution config.helpers
  report (plan.warnings.map .leftAsIs)
  report [.capturing]
  let analysis ← settle .unresolved (analyzeCaptures resolution plan.isHoisted)
  report [.captured analysis.captures.length analysis.cellNames]
  report [.hoisting]
  let (body, state) ← convert ⟨resolution.table, analysis, plan⟩ resolution.program
  report [.verifying state.names.issued.length]
  settle .collision (verifyNames [] reserved state.names.issued)
  report [.printing]
  let text ← settle .print (print (state.assemble config.emitHelpers body))
  report [.finished state.closures.length plan.warnings.length]
  return { text, hoisted := state.closures.map HoistedClosure.name, warnings := plan.warnings }

def transformText (config : TransformConfig) (text : Text) : Transforming TransformResult := do
  report [.reading text.length]
  let program ← settle .parse (parse text)
  transformProgram config program

end Transforming

def transform (config : TransformConfig) (text : Text) : Except TransformError TransformResult :=
  ((Transforming.transformText config text).run.run (Transformer.new config)).1

end Hoist
