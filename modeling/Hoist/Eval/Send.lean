import Hoist.Eval.Method.Number
import Hoist.Eval.Method.Object
import Hoist.Eval.Method.Range
import Hoist.Eval.Method.Text

/-!
Method calls on values.  The methods of a value's own kind come before those of all values, and the
operators can be called like methods.
-/

namespace Hoist

def operatorMethod? (name : String) : Option BinaryOp :=
  match BinaryOp.ofSpelling name with
  | .add => some .add
  | .subtract => some .subtract
  | .multiply => some .multiply
  | .divide => some .divide
  | .modulo => some .modulo
  | .power => some .power
  | .less => some .less
  | .greater => some .greater
  | .lessEqual => some .lessEqual
  | .greaterEqual => some .greaterEqual
  | _ => none

abbrev BoundMethod := Context → List Value → Option Address → Run Value

def BuiltinTable.bind? {ρ : Type} (table : BuiltinTable ρ) (name : String) (receiver : ρ) :
    Option BoundMethod :=
  (table.lookup name).map fun method context args block => method context receiver args block

def Value.ownMethod? (receiver : Value) (name : String) : Option BoundMethod :=
  match receiver with
  | .nil => NilMethod.table.bind? name ()
  | .int value id =>
    IntegerMethod.table.bind? name ⟨value, id⟩ <|> NumberMethod.table.bind? name ⟨.int value, id⟩
  | .float value id =>
    FloatMethod.table.bind? name value <|> NumberMethod.table.bind? name ⟨.float value, id⟩
  | .str object => TextMethod.table.bind? name object
  | .array address => ArrayMethod.table.bind? name address
  | .range start stop exclusive id => RangeMethod.table.bind? name ⟨start, stop, exclusive, id⟩
  | .proc address isLambda => ProcMethod.table.bind? name (address, isLambda)
  | .symbol text id => SymbolMethod.table.bind? name (text, id)
  | .classRef className _ => ClassMethod.table.bind? name className
  | .error _ message _ => ErrorMethod.table.bind? name message
  | .bool _ | .complex .. => none

def Value.method? (receiver : Value) (name : String) : Option BoundMethod :=
  receiver.ownMethod? name <|> ObjectMethod.table.bind? name receiver

def send (context : Context) (receiver : Value) (name : String) (args : List Value)
    (block : Option Address) : Run Value :=
  match receiver.method? name with
  | some method => method context args block
  | none =>
    match operatorMethod? name, args with
    | some op, [arg] => Operator.binary context op receiver arg
    | _, _ => Operator.undefined name receiver

end Hoist
