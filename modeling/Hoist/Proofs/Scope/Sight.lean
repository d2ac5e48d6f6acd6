import Hoist.Proofs.Planned

/-!
In which scopes the parts of a program stand, and which scopes are in sight there.  A scope is in
sight of the scopes inside it up to the next method: what stands in a method sees nothing beyond.
-/

namespace Hoist

namespace ScopeTable

/-- The scopes of a path that are in sight from its start. -/
def sight (table : ScopeTable) : List ScopeId → List ScopeId
  | [] => []
  | id :: outer => id :: if table.isClosure id then table.sight outer else []

/-- Whether a scope is in sight of what stands in another one. -/
def sees (table : ScopeTable) (inner outer : ScopeId) : Bool :=
  (table.sight (inner :: (table.scope? inner).elim [] Scope.enclosing)).contains outer

end ScopeTable

end Hoist
