import Hoist.Eval.Evaluate
import Hoist.Syntax.Parser

/-!
Running programs, as an observer sees it: what they print and how they end.
-/

namespace Hoist

/-- The store before a program runs: one frame for the top level. -/
def Store.initial : Store := { frames := #[[]] }

namespace Session

/-- Runs a program; a `return` at the top level ends it. -/
def start (limits : Limits) (program : PlainProgram) : Run Value :=
  Evaluate.catchReturn (Evaluate.stmts limits.context [0] .nil program)

def call (limits : Limits) (name : String) (args : List Value) : Run Value :=
  Evaluate.callFunction limits.context name args none

end Session

/-- How a run ends: with a value, shown with its class, or with an error. -/
inductive Ending where
  | value (className : String) (text : Text)
  | raised (className : String) (message : Text)
deriving DecidableEq, Repr

/-- What can be seen of a run. -/
structure Observation where
  output : Text
  ending : Ending
deriving DecidableEq, Repr

def Signal.raised? : Signal → Option (String × Text)
  | .raised className message => some (className, message)
  | .jump .breakJump _ | .jump .nextJump _ => some ("LocalJumpError", "break from proc-closure")
  | .tooDeep => some ("SystemStackError", "stack level too deep")
  | .jump .returnJump _ | .fault _ | .endless => none

def observe (limits : Limits) (program : PlainProgram) : Except Signal Observation :=
  let (result, store) := (Session.start limits program).run.run Store.initial
  match result with
  | .ok value => do
    let text ← value.inspect store.arrays limits.nesting
    return ⟨store.output, .value value.className text⟩
  | .error signal =>
    match signal.raised? with
    | some (className, message) => .ok ⟨store.output, .raised className message⟩
    | none => .error signal

/-- Why a program text cannot be observed. -/
inductive RunError where
  | parse (error : ParseError)
  | stopped (signal : Signal)

def run (limits : Limits) (text : Text) : Except RunError Observation :=
  match parse text with
  | .error error => .error (.parse error)
  | .ok program => (observe limits program).mapError .stopped

end Hoist
