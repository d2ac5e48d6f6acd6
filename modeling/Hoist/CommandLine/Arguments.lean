import Hoist.Transform

/-!
The arguments of the command line: one source file and options.  A long option may be shortened as
long as it is the only one that starts so; its value may follow an equals sign.  Short options may
be written together.  After `--` nothing is an option.
-/

namespace Hoist.CommandLine

/-- What the options ask for. -/
inductive Switch where
  | help
  | output
  | json
  | nameStart
  | noHelpers
  | verbose
deriving DecidableEq, Repr

def Switch.takesValue : Switch → Bool
  | .output | .nameStart => true
  | _ => false

def switchNames : List (String × Switch) := [
  ("-h", .help), ("--help", .help), ("-o", .output), ("--output", .output), ("--json", .json),
  ("--prefix", .nameStart), ("--no-helpers", .noHelpers), ("-v", .verbose),
  ("--verbose", .verbose)]

/-- What a run is asked to do. -/
structure Options where
  source : String
  output : Option String := none
  json : Bool := false
  nameStart : String := "_lift_"
  emitHelpers : Bool := true
  verbose : Bool := false
deriving DecidableEq, Repr

/-- Why there is nothing to run. -/
inductive Refusal where
  /-- The arguments make no sense. -/
  | usage
  /-- Only help is asked for. -/
  | help
deriving DecidableEq, Repr

/-- How a value is attached to its option. -/
structure Attached where
  value : String
  /-- Whether an equals sign stands between them. -/
  byEquals : Bool
deriving DecidableEq, Repr

/-- What an argument is. -/
inductive Token where
  | plain (text : String)
  /-- The mark after which nothing is an option. -/
  | separator
  /-- An option; `isLong` tells whether it starts with two dashes. -/
  | option (switch : Switch) (isLong : Bool) (attached : Option Attached)
  | unknown
deriving DecidableEq, Repr

def cutAtEquals (text : String) : String × Option String :=
  let name := text.toList.takeWhile (· != '=')
  match text.toList.drop name.length with
  | [] => (text, none)
  | _ :: value => (String.ofList name, some (String.ofList value))

/-- Whether a text is a negative decimal number such as `-1` or `-.5`. -/
def isNegativeNumber (text : String) : Bool :=
  match text.toList with
  | '-' :: rest =>
    let whole := rest.takeWhile Text.isDigit
    match rest.drop whole.length with
    | [] => !whole.isEmpty
    | '.' :: fraction => !fraction.isEmpty && fraction.all Text.isDigit
    | _ => false
  | _ => false

def candidates (text : String) : List Token :=
  if text.startsWith "--" then
    let (name, value) := cutAtEquals text
    (switchNames.filter fun (spelling, _) => spelling.startsWith name).map fun (_, switch) =>
      .option switch true (value.map fun value => ⟨value, true⟩)
  else
    let short := String.ofList (text.toList.take 2)
    (switchNames.filter fun (spelling, _) => spelling == short).map fun (_, switch) =>
      .option switch false (some ⟨String.ofList (text.toList.drop 2), false⟩)

def classify (text : String) : Except Refusal Token :=
  if !text.startsWith "-" || text == "-" then .ok (.plain text)
  else
    let (name, value) := cutAtEquals text
    match switchNames.lookup text, switchNames.lookup name, value with
    | some switch, _, _ => .ok (.option switch (text.startsWith "--") none)
    | none, some switch, some value =>
      .ok (.option switch (name.startsWith "--") (some ⟨value, true⟩))
    | none, _, _ =>
      match candidates text with
      | [token] => .ok token
      | _ :: _ => .error .usage
      | [] =>
        if isNegativeNumber text || text.contains ' ' then .ok (.plain text) else .ok .unknown

def tokens : List String → Except Refusal (List Token)
  | [] => .ok []
  | "--" :: rest => .ok (.separator :: rest.map .plain)
  | text :: rest => return (← classify text) :: (← tokens rest)

/-- What has been read of the arguments. -/
structure Reading where
  source : Option String := none
  options : Options := { source := "" }
  /-- Whether something was left over. -/
  extra : Bool := false

/-- Does what a switch asks for; `value` is its value, if it takes one. -/
def Reading.apply (reading : Reading) (switch : Switch) (value : String) :
    Except Refusal Reading :=
  match switch with
  | .help => .error .help
  | .output => .ok { reading with options := { reading.options with output := some value } }
  | .json => .ok { reading with options := { reading.options with json := true } }
  | .nameStart => .ok { reading with options := { reading.options with nameStart := value } }
  | .noHelpers => .ok { reading with options := { reading.options with emitHelpers := false } }
  | .verbose => .ok { reading with options := { reading.options with verbose := true } }

/-- Splits short options that are written together.  The result holds the switches without a value,
then perhaps one that still needs its value, and whether something was left over. -/
def cluster : List Char → Except Refusal (List Switch × Option (Switch × Option String) × Bool)
  | [] => .ok ([], none, false)
  | '-' :: _ => .error .usage
  | letter :: rest =>
    match switchNames.lookup (String.ofList ['-', letter]) with
    | none => .ok ([], none, true)
    | some switch =>
      if switch.takesValue then
        match rest with
        | [] => .ok ([], some (switch, none), false)
        | '=' :: value => .ok ([], some (switch, some (String.ofList value)), false)
        | value => .ok ([], some (switch, some (String.ofList value)), false)
      else match rest with
        | '=' :: _ => .error .usage
        | _ => do
          let (switches, last, extra) ← cluster rest
          return (switch :: switches, last, extra)

def Reading.applyAll (reading : Reading) (switches : List Switch) : Except Refusal Reading :=
  switches.foldlM (fun reading switch => reading.apply switch "") reading

def readOption (reading : Reading) (switch : Switch) (isLong : Bool) (attached : Option Attached)
    (rest : List Token) : Except Refusal (Reading × List Token) := do
  let withNext (reading : Reading) (switch : Switch) : Except Refusal (Reading × List Token) :=
    match rest with
    | .plain value :: rest => return (← reading.apply switch value, rest)
    | _ => .error .usage
  match attached with
  | none =>
    if switch.takesValue then withNext reading switch
    else return (← reading.apply switch "", rest)
  | some attached =>
    if switch.takesValue then return (← reading.apply switch attached.value, rest)
    else if isLong || attached.byEquals || attached.value.isEmpty then throw .usage
    else
      let (switches, last, extra) ← cluster attached.value.toList
      match last with
      | none =>
        let reading ← reading.applyAll (switch :: switches)
        return ({ reading with extra := reading.extra || extra }, rest)
      | some (last, some value) =>
        let reading ← reading.applyAll (switch :: switches)
        return (← reading.apply last value, rest)
      | some (last, none) =>
        match rest with
        | .plain _ :: _ => withNext (← reading.applyAll (switch :: switches)) last
        | _ => throw .usage

/-- Reads all tokens; `fuel` bounds their number. -/
def readTokens : (fuel : Nat) → Reading → List Token → Except Refusal Reading
  | 0, reading, _ => .ok reading
  | _ + 1, reading, [] => .ok reading
  | fuel + 1, reading, token :: rest =>
    let leftOver := readTokens fuel { reading with extra := true } rest
    match token, reading.source with
    | .option switch isLong attached, _ => do
      let (reading, rest) ← readOption reading switch isLong attached rest
      readTokens fuel reading rest
    | .plain text, none =>
      let rest := match rest with
        | .separator :: rest => rest
        | rest => rest
      readTokens fuel { reading with source := some text } rest
    | .separator, none =>
      match rest with
      | .plain text :: rest => readTokens fuel { reading with source := some text } rest
      | _ => leftOver
    | _, _ => leftOver

def readArguments (arguments : List String) : Except Refusal Options := do
  let tokens ← tokens arguments
  let reading ← readTokens tokens.length {} tokens
  match reading.source, reading.extra with
  | some source, false => return { reading.options with source }
  | _, _ => throw .usage

end Hoist.CommandLine
