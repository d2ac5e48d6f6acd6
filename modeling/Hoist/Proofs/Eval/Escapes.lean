import Hoist.Proofs.Eval.Confinement

/-!
No `break` and no `next` escapes.  In a program that does not mention `proc`, blocks are reached
only by the calls that carry them, so what a `break` or `next` is to leave is always there to be
left.
-/

namespace Hoist

open Run

/-- Every `break` and `next` of a program has a loop, a block or a lambda to leave, and the program
does not mention `proc`. -/
def Program.Contained (program : PlainProgram) : Prop :=
  ∀ tree ∈ program, ∀ path last, (Node.stmt tree).Reaches path last →
    last.Tame (path.foldl Step.catches false)

/-- Only blocks are hidden. -/
def Hidden.onlyBlocks : Hidden := ⟨fun _ => False, fun _ => False, True⟩

/-- A store whose values lead to lambdas only and whose code is contained. -/
abbrev Store.Tame (store : Store) : Prop := store.Guards .onlyBlocks

/-- A run that ends in a tame store; a `break` or `next` gets out of it only if it is to be caught.
-/
structure EndsTamely (caught : Bool) (result : Except Signal Value × Store) : Prop where
  store : result.2.Tame
  jump : ∀ kind value, result.1 = .error (.jump kind value) → kind.Free caught

theorem endsTamely {caught : Bool} {store : Store} {run : Run Value}
    (knows : Run.Knows .onlyBlocks (JumpKind.Free caught) store run) (tame : store.Tame) :
    EndsTamely caught (run store) := by
  obtain ⟨-, guards, outcome⟩ := knows tame
  refine ⟨guards, fun kind value jumps => ?_⟩
  rw [jumps] at outcome
  exact outcome.2 trivial

theorem known_topLevel : Environment.Known .onlyBlocks Store.initial [0] :=
  List.forall_mem_singleton.2 ⟨by decide, id⟩

/-- No jump gets out of a contained program.  Its run starts and ends in a tame store.  Wherever a
store is tame, running a statement of the program keeps it so and lets a `break` or `next` out only
within a loop, block or lambda, and no call of a method or a lambda lets one out. -/
theorem no_jump_escapes (limits : Limits) {program : PlainProgram}
    (contained : Program.Contained program) :
    (∀ kind value, (Session.start limits program Store.initial).1 ≠ .error (.jump kind value)) ∧
    Store.initial.Tame ∧ (Session.start limits program Store.initial).2.Tame ∧
    ∀ depth store, store.Tame →
      (∀ tree ∈ program, ∀ path part, (Node.stmt tree).Reaches path (.stmt part) →
        ∀ env, Environment.Known .onlyBlocks store env →
          EndsTamely (path.foldl Step.catches false)
            (Evaluate.stmt (Evaluate.contextAt limits depth) env part store)) ∧
      (∀ name method args, store.methods.lookup name = some method →
        AllKnown .onlyBlocks store args →
          EndsTamely false ((Evaluate.contextAt limits depth).callMethod method args store)) ∧
      ∀ address isLambda args, (Value.proc address isLambda).Known .onlyBlocks store →
        AllKnown .onlyBlocks store args →
          EndsTamely false ((Evaluate.contextAt limits depth).callProc address args store) := by
  have held (tree : PlainStmt) (member : tree ∈ program) :
      (Node.stmt tree).Contained Hidden.onlyBlocks.blocks false := fun _ => contained tree member
  have starts := Store.guards_initial True
  have ran : Run.Knows .onlyBlocks (fun _ => False) Store.initial (Session.start limits program) :=
    Evaluate.confined_catchReturn (Evaluate.confined_stmts
      (Evaluate.guarded_contextAt _ limits limits.calls) known_topLevel .nil trivial program held)
  obtain ⟨-, guards, outcome⟩ := ran starts
  refine ⟨fun kind value jumps => ?_, starts, guards, fun depth store tame => ?_⟩
  · rw [jumps] at outcome
    exact outcome.2 trivial
  · have guarded := Evaluate.guarded_contextAt .onlyBlocks limits depth
    refine ⟨fun tree member path part reaches env known => ?_,
      fun name method args found known => ?_,
      fun address isLambda args isKnown known => ?_⟩
    · exact endsTamely (Evaluate.confined_stmt guarded known part
        ((held tree member).reached reaches)) tame
    · have code := tame.methods _ (mem_of_lookup found)
      exact endsTamely ((guarded.method code known).widen fun _ _ => .inr) tame
    · exact endsTamely ((guarded.lambda isKnown known).widen fun _ _ => .inr) tame

/-- A loop that is left by `break`, in a block that is left by `next`. -/
def leavingProgram : PlainProgram :=
  [.expression default (.call default (some (.array default [])) "each" [] (some (.mk default () []
    [.whileLoop default (.literal default (.bool true)) [.jump default .breakJump none],
      .jump default .nextJump none])) false)]

theorem no_jump_escapes_leavingProgram : Program.Contained leavingProgram ∧
    (Session.start {} leavingProgram Store.initial).2.Tame := by
  have contained : Program.Contained leavingProgram := by
    have leaf {node : Node String Unit} {caught : Bool} (none : node.children = [])
        (tame : node.Tame caught) : node.Contained True caught :=
      Node.contained_iff.2 ⟨fun _ => tame, by rw [none]; exact List.forall_mem_nil _⟩
    have held : ∀ tree ∈ leavingProgram, (Node.stmt tree).Contained True false := by
      refine List.forall_mem_singleton.2 (Node.contained_iff.2 ⟨fun _ => trivial,
        List.forall_mem_singleton.2 (Node.contained_iff.2 ⟨fun _ => trivial, ?_⟩)⟩)
      refine List.forall_mem_cons.2 ⟨leaf rfl trivial, List.forall_mem_singleton.2
        (Node.contained_iff.2 ⟨fun _ => trivial, ?_⟩)⟩
      refine List.forall_mem_cons.2 ⟨Node.contained_iff.2 ⟨fun _ => trivial, ?_⟩,
        List.forall_mem_singleton.2 (leaf rfl (.inl rfl))⟩
      exact List.forall_mem_cons.2 ⟨leaf rfl trivial, List.forall_mem_singleton.2
        (leaf rfl (.inl rfl))⟩
    exact fun tree member => held tree member trivial
  exact ⟨contained, (no_jump_escapes {} contained).2.2.1⟩

end Hoist
