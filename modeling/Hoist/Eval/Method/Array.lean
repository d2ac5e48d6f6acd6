import Hoist.Eval.Index
import Hoist.Eval.Operator
import Hoist.Sorting

/-!
Methods of arrays.  Most of those with a block walk over the elements that the array has when the
method is called; `each`, `index`, `sum` and the sorts with a key look at the array anew for every
element.
-/

namespace Hoist

namespace ArrayMethod

def list (address : Address) : Run (List Value) := return (← Run.items address).toList

/-- The elements of an argument that can be walked over: an array, or the characters of a string. -/
def elements (value : Value) : Run (List Value) :=
  match value with
  | .array address => list address
  | .str object => object.text.toList.mapM fun code => Run.newString (.piece (.single code))
  | _ => Run.fault .notIterable

def index : Builtin Address := fun _ address args _ => do
  let items ← Run.items address
  match ← Index.select items.size args with
  | .nothing => return .nil
  | .item place => return items.getD place .nil
  | .part start stop => Run.newArray (items.extract start stop)

def store : Builtin Address := fun context address args _ => do
  Run.checkArity args 2 2
  let index ← Run.intArg (← Run.arg args 0)
  let value ← Run.arg args 1
  let size ← Run.size address
  if index + size < 0 then
    Run.raise "IndexError"
      ("index " ++ (← Run.ofExcept (intText index)) ++ " too small for array")
  context.checkSize (index + 1 - size).toNat
  Run.modifyArray address fun items => (Index.store? items index value).getD items
  return value

def first : Builtin Address := fun _ address args _ => do
  let items ← Run.items address
  match args with
  | count :: _ => Run.newArray (items.take (Index.cut items.size (← Run.intArg count)))
  | [] => return items.getD 0 .nil

def last : Builtin Address := fun _ address args _ => do
  let items ← Run.items address
  match args with
  | count :: _ =>
    let count ← Run.intArg count
    if count = 0 then Run.newArray #[]
    else Run.newArray (items.drop (Index.cut items.size (-count)))
  | [] => return items.back?.getD .nil

def take : Builtin Address := fun _ address args _ => do
  let items ← Run.items address
  Run.newArray (items.take (Index.cut items.size (← Run.intArg (← Run.arg args 0))))

def drop : Builtin Address := fun _ address args _ => do
  let items ← Run.items address
  Run.newArray (items.drop (Index.cut items.size (← Run.intArg (← Run.arg args 0))))

def push : Builtin Address := fun _ address args _ => do
  Run.modifyArray address fun items => items.appendList args
  return .array address

def pop : Builtin Address := fun _ address _ _ => do
  let last := (← Run.items address).back?
  Run.modifyArray address Array.pop
  return last.getD .nil

def shift : Builtin Address := fun _ address _ _ => do
  let first := (← Run.items address)[0]?
  Run.modifyArray address fun items => items.drop 1
  return first.getD .nil

def unshift : Builtin Address := fun _ address args _ => do
  Run.modifyArray address fun items => args.toArray ++ items
  return .array address

/-- Appends the elements of the arguments, one argument after the other. -/
def concatAll (address : Address) : List Value → Run Unit
  | [] => return ()
  | other :: rest => do
    let others ← elements other
    Run.modifyArray address fun items => items.appendList others
    concatAll address rest

def concat : Builtin Address := fun _ address args _ => do
  concatAll address args
  return .array address

def each : Builtin Address := fun context address _ block =>
  Run.overLive address
    (fun _ _ item => do
      let _ ← context.yield block [item]
      return .inl ())
    (fun _ => .array address) context.rounds 0 ()

def yieldNumbered (context : Context) (block : Option Address) (number : Nat) :
    List Value → Run Unit
  | [] => return ()
  | item :: rest => do
    let _ ← context.yield block [item, ← Run.newInt number]
    yieldNumbered context block (number + 1) rest

def eachWithIndex : Builtin Address := fun context address _ block => do
  yieldNumbered context block 0 (← list address)
  return .array address

def yieldSlices (context : Context) (block : Option Address) (address : Address) (size : Nat) :
    (remaining start : Nat) → Run Unit
  | 0, _ => return ()
  | remaining + 1, start => do
    let part ← Run.newArray ((← Run.items address).extract start (start + size))
    let _ ← context.yield block [part]
    yieldSlices context block address size remaining (start + size)

def eachSlice : Builtin Address := fun context address args block => do
  let size ← Run.intArg (← Run.arg args 0)
  if size ≤ 0 then Run.raise "ArgumentError" "invalid slice size"
  let size := size.toNat
  yieldSlices context block address size (((← Run.size address) + size - 1) / size) 0
  return .array address

def map : Builtin Address := fun context address _ block => do
  Run.newList (← (← list address).mapM fun item => context.yield block [item])

/-- The elements that the block gives for an element: those of an array, or the value itself. -/
def spread (value : Value) : Run (List Value) :=
  match value with
  | .array address => list address
  | _ => return [value]

def flatMap : Builtin Address := fun context address _ block => do
  let parts ← (← list address).mapM fun item => do spread (← context.yield block [item])
  Run.newList parts.flatten

/-- The elements for which the block's answer is `wanted`. -/
def filter (wanted : Bool) : Builtin Address := fun context address _ block => do
  Run.newList (← (← list address).filterM fun item =>
    return (← context.test block [item]) == wanted)

def partition : Builtin Address := fun context address _ block => do
  let marked ← (← list address).mapM fun item =>
    return (item, ← context.test block [item])
  let selected ← Run.newList ((marked.filter fun entry => entry.2).map Prod.fst)
  let rejected ← Run.newList ((marked.filter fun entry => !entry.2).map Prod.fst)
  Run.newList [selected, rejected]

def find : Builtin Address := fun context address _ block => do
  return (← Run.firstPassing? (fun item => context.test block [item]) (← list address)).getD .nil

/-- What `any?` and `all?` ask of an element: the block's answer, or whether it holds itself. -/
def asks (context : Context) (block : Option Address) (item : Value) : Run Bool :=
  match block with
  | none => return item.truthy
  | some _ => context.test block [item]

def anyPasses (context : Context) (address : Address) (block : Option Address) : Run Bool := do
  return (← Run.firstPassing? (asks context block) (← list address)).isSome

def anyHold : Builtin Address := fun context address _ block =>
  return .bool (← anyPasses context address block)

def noneHold : Builtin Address := fun context address _ block =>
  return .bool !(← anyPasses context address block)

def allHold : Builtin Address := fun context address _ block => do
  let failing ← Run.firstPassing? (fun item => return !(← asks context block item)) (← list address)
  return .bool failing.isNone

def count : Builtin Address := fun context address args block => do
  let items ← list address
  match args, block with
  | wanted :: _, _ => Run.newInt (← items.filterM fun item => context.equal item wanted).length
  | [], some _ => Run.newInt (← items.filterM fun item => context.test block [item]).length
  | [], none => Run.newInt items.length

/-- Where the first element stands that equals the argument or passes the block. -/
def findIndex : Builtin Address := fun context address args block =>
  Run.overLive address
    (fun _ place item => do
      let found ← match args, block with
        | wanted :: _, _ => context.equal item wanted
        | [], some _ => context.test block [item]
        | [], none => pure false
      if found then return .inr (← Run.newInt place) else return .inl ())
    (fun _ => .nil) context.rounds 0 ()

def foldBlock (context : Context) (block : Option Address) (result : Value) :
    List Value → Run Value
  | [] => return result
  | item :: rest => do
    foldBlock context block (← context.yield block [result, item]) rest

def inject : Builtin Address := fun context address args block => do
  match args, ← list address with
  | start :: _, items => foldBlock context block start items
  | [], start :: items => foldBlock context block start items
  | [], [] => return .nil

def sum : Builtin Address := fun context address args block =>
  Run.overLive address
    (fun total _ item => do
      let value ← match block with
        | some _ => context.yield block [item]
        | none => pure item
      return .inl (← Operator.binary context .add total value))
    id context.rounds 0 (args.headD (.int 0 .shared))

def sorted (context : Context) (items : List Value) : Run (List Value) :=
  Run.reading fun heap => Sorting.sort (Value.less heap context.nesting) items

def keyed (context : Context) (address : Address) (block : Option Address) :
    Run (List (Value × Value)) :=
  Run.overLive address
    (fun entries _ item => do
      let key ← context.yield block [item]
      return .inl ((key, item) :: entries))
    List.reverse context.rounds 0 []

/-- The elements of an array in ascending order of the block's values. -/
def sortedBy (context : Context) (address : Address) (block : Option Address) :
    Run (List Value) := do
  let entries ← keyed context address block
  let ordered ← Run.reading fun heap =>
    Sorting.sort (fun left right => Value.less heap context.nesting left.1 right.1) entries
  return ordered.map Prod.snd

def distinct (heap : Heap) (nesting : Nat) (items : List Value) : Except Signal (List Value) :=
  items.foldlM
    (fun seen item => do
      if ← seen.anyM fun other => Value.equal heap nesting item other then return seen
      else return seen ++ [item])
    []

def includes : Builtin Address := fun context address args _ => do
  Run.checkArity args 1 1
  let wanted ← Run.arg args 0
  let found ← Run.firstPassing? (fun item => context.equal item wanted) (← list address)
  return .bool found.isSome

def zip : Builtin Address := fun _ address args _ => do
  let others ← args.mapM elements
  let rows ← (← list address).zipIdx.mapM fun (item, place) =>
    Run.newList (item :: others.map fun other => other.getD place .nil)
  Run.newList rows

def join : Builtin Address := fun context address args _ => do
  let separator ← match args with
    | separator :: _ => context.toText separator
    | [] => pure ""
  let items ← list address
  Run.newString (← Run.reading fun heap => Value.joined heap separator context.nesting items)

def isNil : Value → Bool
  | .nil => true
  | _ => false

def table : BuiltinTable Address := [
  ("length", fun _ address _ _ => do Run.newInt (← Run.size address)),
  ("size", fun _ address _ _ => do Run.newInt (← Run.size address)),
  ("empty?", fun _ address _ _ => return .bool ((← Run.size address) == 0)),
  ("[]", index),
  ("[]=", store),
  ("first", first),
  ("last", last),
  ("push", push),
  ("append", push),
  ("pop", pop),
  ("shift", shift),
  ("unshift", unshift),
  ("concat", concat),
  ("each", each),
  ("each_with_index", eachWithIndex),
  ("each_slice", eachSlice),
  ("map", map),
  ("collect", map),
  ("flat_map", flatMap),
  ("select", filter true),
  ("filter", filter true),
  ("find_all", filter true),
  ("reject", filter false),
  ("partition", partition),
  ("find", find),
  ("detect", find),
  ("any?", anyHold),
  ("all?", allHold),
  ("none?", noneHold),
  ("count", count),
  ("index", findIndex),
  ("find_index", findIndex),
  ("inject", inject),
  ("reduce", inject),
  ("sum", sum),
  ("min", fun context address _ _ => do
    return (← sorted context (← list address)).head?.getD .nil),
  ("max", fun context address _ _ => do
    return (← sorted context (← list address)).getLast?.getD .nil),
  ("min_by", fun context address _ block => do
    return (← sortedBy context address block).head?.getD .nil),
  ("max_by", fun context address _ block => do
    return (← sortedBy context address block).getLast?.getD .nil),
  ("sort", fun context address _ _ => do
    Run.newList (← sorted context (← list address))),
  ("sort_by", fun context address _ block => do
    Run.newList (← sortedBy context address block)),
  ("reverse", fun _ address _ _ => do Run.newArray (← Run.items address).reverse),
  ("uniq", fun context address _ _ => do
    let items ← list address
    Run.newList (← Run.reading fun heap => distinct heap context.nesting items)),
  ("flatten", fun context address _ _ => do
    let items ← list address
    Run.newList (← Run.reading fun heap => Value.flattened heap context.nesting items)),
  ("compact", fun _ address _ _ => do
    Run.newList ((← list address).filter fun item => !isNil item)),
  ("include?", includes),
  ("join", join),
  ("take", take),
  ("drop", drop),
  ("zip", zip),
  ("to_a", fun _ address _ _ => return .array address)]

end ArrayMethod

end Hoist
