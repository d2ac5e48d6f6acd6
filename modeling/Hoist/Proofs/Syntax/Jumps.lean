import Hoist.Proofs.Syntax.Node

/-!
Where a `break` or a `next` leads.  It leaves the innermost body of a loop, block or lambda around
it, unless a method stands in between.  In code that is contained each one has such a body to leave.
-/

namespace Hoist

variable {σ : Type} {strict : Prop} {caught : Bool}

/-- Whether a `break` or `next` beyond a step has something to leave. -/
def Step.catches (caught : Bool) : Step σ → Bool
  | .loop => true
  | .defaults kind _ | .body kind _ => kind.isClosure
  | .part | .target => caught

/-- The jumps that get out of a body that may hold a `break` or `next`, and of any other. -/
def JumpKind.Free (caught : Bool) (kind : JumpKind) : Prop := caught = true ∨ kind = .returnJump

namespace Node

/-- A node taken by itself: if it is a `break` or `next`, it has something to leave, and it does not
mention `proc`. -/
def Tame (caught : Bool) : Node String σ → Prop
  | .stmt (.jump _ kind _) => kind.Free caught
  | .expr (.call _ none name _ _ _) | .expr (.name _ name) => name ≠ "proc"
  | _ => True

/-- All parts of a node are tame, if this is asked for. -/
def Contained (strict : Prop) (caught : Bool) (node : Node String σ) : Prop :=
  strict → ∀ path last, node.Reaches path last → last.Tame (path.foldl Step.catches caught)

variable {node : Node String σ} (contained : node.Contained strict caught)
include contained

theorem Contained.tame (isStrict : strict) :
    node.Tame caught := contained isStrict [] node (.here node)

theorem Contained.child (step : Step σ) {child : Node String σ}
    (member : (step, child) ∈ node.children) : child.Contained strict (step.catches caught) :=
  fun isStrict path last reaches => contained isStrict (step :: path) last (.step member reaches)

theorem Contained.part {child : Node String σ} (member : (.part, child) ∈ node.children) :
    child.Contained strict caught := contained.child .part member

theorem Contained.reached {path : List (Step σ)} {last : Node String σ}
    (reaches : node.Reaches path last) :
    last.Contained strict (path.foldl Step.catches caught) := by
  intro isStrict more final further
  rw [← List.foldl_append]
  exact contained isStrict (path ++ more) final (reaches.trans further)

end Node

theorem Node.contained_iff {node : Node String σ} : node.Contained strict caught ↔
    (strict → node.Tame caught) ∧
      ∀ child ∈ node.children, child.2.Contained strict (child.1.catches caught) := by
  refine ⟨fun contained => ⟨contained.tame, fun child member => contained.child child.1 member⟩, ?_⟩
  rintro ⟨tame, others⟩ isStrict path last reaches
  cases reaches with
  | here => exact tame isStrict
  | step member reaches => exact others _ member isStrict _ last reaches

/-- The parameters and the statements of code are contained. -/
structure CodeContained (strict : Prop) (caught : Bool) (params : List (Param String σ))
    (body : List (Stmt String σ)) : Prop where
  params : ∀ param ∈ params, (Node.param param).Contained strict caught
  body : ∀ tree ∈ body, (Node.stmt tree).Contained strict caught

theorem Node.Contained.code {node : Node String σ} (contained : node.Contained strict caught)
    {kind : ScopeKind} {scope : σ} {params : List (Param String σ)} {body : List (Stmt String σ)}
    (opens : node.children = Node.opened kind scope params body) :
    CodeContained strict kind.isClosure params body where
  params param member := contained.child (.defaults kind scope) (by
    rw [opens]
    exact List.mem_append_left _ (List.mem_map_of_mem member))
  body tree member := contained.child (.body kind scope) (by
    rw [opens]
    exact List.mem_append_right _ (List.mem_map_of_mem member))

theorem Node.Contained.block {loc inner : Loc} {receiver : Option (Expr String σ)} {method : String}
    {args : List (Expr String σ)} {scope : σ} {params : List (Param String σ)}
    {body : List (Stmt String σ)} {parens : Bool}
    (contained : (Node.expr (.call loc receiver method args (some (.mk inner scope params body))
      parens)).Contained strict caught) : CodeContained strict true params body := by
  have isPart : (.part, .block (.mk inner scope params body)) ∈ (Node.expr
    (.call loc receiver method
      args (some (.mk inner scope params body)) parens)).children := by simp [Node.children]
  exact (contained.part isPart).code rfl

end Hoist
