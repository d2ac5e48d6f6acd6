import Hoist.Capture
import Hoist.Plan

/-!
What a transformation reports while it runs.
-/

namespace Hoist

/-- The steps worth reporting. -/
inductive LogEvent where
  | reading (length : Nat)
  | resolving
  | resolved (scopes methods blocks : Nat)
  | planning
  | leftAsIs (warning : Warning)
  | capturing
  | captured (blocks : Nat) (cells : List String)
  | hoisting
  | hoisted (name : String) (loc : Loc) (captures : CaptureSet)
  | verifying (issued : Nat)
  | printing
  | finished (closures warnings : Nat)
  | wrote (path : String)
deriving DecidableEq, Repr

namespace LogEvent

/-- Warnings are reported always, the other steps only on demand. -/
def isWarning : LogEvent → Bool
  | .leftAsIs _ => true
  | _ => false

def origin : LogEvent → String
  | .resolved .. => "scope"
  | .captured .. => "captures"
  | .leftAsIs _ | .hoisted .. => "rewrite"
  | .wrote _ => "cli"
  | _ => "transformer"

def orDash (items : List String) : String :=
  if items.isEmpty then "-" else String.intercalate ", " items

def sortNames (names : List String) : List String := names.mergeSort fun a b => !(b < a)

def captureText (capture : Capture) : String :=
  capture.name ++ (if capture.mode = .byCell then ":cell" else ":value")

def text : LogEvent → String
  | .reading length => "transformer: parse (" ++ toString length ++ " bytes)"
  | .resolving => "transformer: scopes"
  | .resolved scopes methods blocks =>
    "scope: " ++ toString scopes ++ " scopes, " ++ toString methods ++ " methods, " ++
      toString blocks ++ " blocks"
  | .planning => "transformer: plan call sites"
  | .leftAsIs warning => warning.loc.text ++ ": " ++ warning.message
  | .capturing => "transformer: captures"
  | .captured blocks cells =>
    "captures: " ++ toString blocks ++ " blocks analyzed, cells: " ++ orDash (sortNames cells)
  | .hoisting => "transformer: lift and rewrite"
  | .hoisted name loc captures =>
    "lift: " ++ name ++ " <- block at " ++ loc.text ++ " (" ++
      (if captures.isEmpty then "no captures"
        else String.intercalate ", " (captures.map captureText)) ++ ")"
  | .verifying issued => "transformer: verify names (" ++ toString issued ++ " issued)"
  | .printing => "transformer: generate"
  | .finished closures warnings =>
    "transformer: done, " ++ toString closures ++ " lifted, " ++ toString warnings ++ " warnings"
  | .wrote path => "cli: wrote " ++ path

def line (event : LogEvent) : String :=
  (if event.isWarning then "WARNING" else "DEBUG") ++ " blocklift." ++ event.origin ++ ": " ++
    event.text

end LogEvent

end Hoist
