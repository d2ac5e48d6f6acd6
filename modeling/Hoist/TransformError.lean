import Hoist.Capture
import Hoist.Helper.Basic
import Hoist.NameSupply
import Hoist.Syntax.Printer

/-!
Why a program cannot be transformed.
-/

namespace Hoist

inductive TransformError where
  | parse (error : ParseError)
  | scope (error : ScopeError)
  | unresolved (name : UnresolvedName)
  | helper (error : HelperError)
  | collision (error : NameCollision)
  /-- A part that stands where an expression belongs. -/
  | expressionKind (label : String)
  /-- A part that stands where a statement belongs. -/
  | statementKind (label : String)
  | print (error : PrintError)
deriving DecidableEq, Repr

end Hoist
