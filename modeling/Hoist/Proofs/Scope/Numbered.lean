import Hoist.Proofs.Scope.Reading

/-!
The numbers of scopes.  Scopes are numbered as they open, and they open in the order in which a walk
over the resolved program meets them.  So the walk meets the numbers one after another, and no two
methods, blocks or lambdas share one.
-/

namespace Hoist

open Resolve

variable {ν σ : Type}

/-- The mark of the scope that a part of a tree opens. -/
def Node.mark? : Node ν σ → Option σ
  | .expr (.lambda _ scope _ _) | .stmt (.define _ scope _ _ _) => some scope
  | .block tree => some tree.scope
  | _ => none

/-- The marks of all scopes that open in some parts of a tree. -/
def marks (nodes : List (Node ν σ)) : List σ := nodes.filterMap Node.mark?

@[simp] theorem marks_nil : marks ([] : List (Node ν σ)) = [] := rfl

@[simp] theorem marks_append (left right : List (Node ν σ)) :
    marks (left ++ right) = marks left ++ marks right := List.filterMap_append

@[simp] theorem marks_cons (first : Node ν σ) (rest : List (Node ν σ)) :
    marks (first :: rest) = first.mark?.toList ++ marks rest := by
  rw [marks, List.filterMap_cons]
  cases first.mark? <;> rfl

namespace ScopeTable

@[simp] theorem nextId_updateScope (table : ScopeTable) (id : ScopeId) (change : Scope → Scope) :
    (table.updateScope id change).nextId = table.nextId := by
  simp [nextId, updateScope]

@[simp] theorem nextId_addBinding (table : ScopeTable) (id : ScopeId) (binding : Binding) :
    (table.addBinding id binding).nextId = table.nextId := nextId_updateScope ..

@[simp] theorem nextId_updateBinding (table : ScopeTable) (id : ScopeId) (name : String)
    (change : Binding → Binding) : (table.updateBinding id name change).nextId = table.nextId :=
  nextId_updateScope ..

@[simp] theorem nextId_openScope (table : ScopeTable) (kind : ScopeKind) (path : List ScopeId) :
    (table.openScope kind path).nextId = table.nextId + 1 := by
  simp [nextId, openScope]

end ScopeTable

def Event.entered? : Event ν σ → Option σ
  | .enter _ scope => some scope
  | _ => none

/-- A walk over a resolved program meets the scopes that open in the order in which they are
entered. -/
theorem marks_walkStmts {scope : σ} {trees : List (Stmt ν σ)}
    (faultless : ∀ error, .fault error ∉ stmtsEvents scope trees) :
    marks (walkStmts trees) = (stmtsEvents scope trees).filterMap Event.entered? := by
  have silent (scope : σ) (node : Node ν σ) :
      (node.closing scope).filterMap Event.entered? = [] := by
    unfold Node.closing
    split <;> rfl
  have told (scope : σ) (written : Bool) (node : Node ν σ) :
      (node.opening scope written).filterMap Event.entered? =
        (node.here.map (scope, ·)).filterMap fun part => part.2.mark? := by
    rcases node with tree | ⟨_, _, _⟩ | ⟨_, _, _, _⟩ | tree
    case expr | stmt => cases tree <;> rfl
    all_goals rfl
  rw [Node.filterMap_stmtsEvents silent told faultless, marks, ← walkStmtsIn_map_snd scope,
    List.filterMap_map]
  rfl

theorem Event.Takes.numbered {path : List ScopeId} {table : ScopeTable} {event : Event String Unit}
    {result : Event Occurrence ScopeId} {next : Reading}
    (takes : event.Takes path table result next) :
    ∃ count, next.table.nextId = table.nextId + count ∧
      result.entered?.toList = List.range' table.nextId count := by
  cases takes with
  | enter kind => exact ⟨1, by simp, rfl⟩
  | write | create | declare => exact ⟨0, by simp, rfl⟩
  | _ => exact ⟨0, rfl, rfl⟩

theorem readAll_numbered {events : List (Event String Unit)} {state : Reading}
    {result : List (Event Occurrence ScopeId) × Reading} (ran : readAll events state = .ok result) :
    ∃ count, result.1.filterMap Event.entered? = List.range' state.table.nextId count := by
  induction events generalizing state result with
  | nil =>
    cases ran
    exact ⟨0, rfl⟩
  | cons event rest ih =>
    obtain ⟨first, read, ran⟩ := bind_eq_ok.1 ran
    obtain ⟨others, readOthers, ⟨⟩⟩ := bind_eq_ok.1 ran
    obtain ⟨here, counted, entered⟩ := (Event.takes_of_read read).numbered
    obtain ⟨more, enteredMore⟩ := ih readOthers
    refine ⟨here + more, ?_⟩
    rw [counted] at enteredMore
    rw [← List.range'_append_1, ← entered, ← enteredMore, List.filterMap_cons]
    cases first.1.entered? <;> rfl

/-- No two parts of a resolved program open scopes with the same number. -/
theorem resolve_marks_nodup {program : PlainProgram} {resolution : Resolution}
    (resolved : resolve program = .ok resolution) :
    (marks (walkStmts resolution.program)).Nodup := by
  obtain ⟨count, numbered⟩ := readAll_numbered (resolve_ok resolved).1
  rw [marks_walkStmts (resolve_faultless resolved), numbered]
  exact List.nodup_range'

end Hoist
