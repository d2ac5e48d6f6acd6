import Hoist.Scope.Basic
import Hoist.Proofs.Syntax.WellFormed

/-!
Trees as nodes with children.  One gets from a tree to any of its parts by steps, each from a node
to one of its children; a step says whether it enters a scope.  What a traversal meets at a part is
decided by the steps that lead to it, so facts about traversals are proved by induction on nodes.
-/

namespace Hoist

open List

variable {ν σ α β ι κ : Type}

/-- What is read off a list of trees one by one. -/
theorem eq_flatMap {walk : List α → List β} {each : α → List β} (start : walk [] = [])
    (step : ∀ first rest, walk (first :: rest) = each first ++ walk rest) (trees : List α) :
    walk trees = trees.flatMap each := by
  induction trees with
  | nil => exact start
  | cons first rest ih => rw [step, ih, flatMap_cons]

theorem eq_map {walk : List α → List β} {each : α → β} (start : walk [] = [])
    (step : ∀ first rest, walk (first :: rest) = each first :: walk rest) (trees : List α) :
    walk trees = trees.map each := by
  induction trees with
  | nil => exact start
  | cons first rest ih => rw [step, ih, map_cons]

/-- How one gets from a node to one of its children. -/
inductive Step (σ : Type) where
  | part
  /-- To what is assigned to. -/
  | target
  /-- Into the body of a loop. -/
  | loop
  /-- To a parameter of a scope. -/
  | defaults (kind : ScopeKind) (scope : σ)
  /-- To a statement of the body of a scope. -/
  | body (kind : ScopeKind) (scope : σ)

namespace Node

def exprs (step : Step σ) (trees : List (Expr ν σ)) : List (Step σ × Node ν σ) :=
  trees.map (step, .expr ·)

def stmts (step : Step σ) (trees : List (Stmt ν σ)) : List (Step σ × Node ν σ) :=
  trees.map (step, .stmt ·)

/-- The parameters and the body of a scope. -/
def opened (kind : ScopeKind) (scope : σ) (params : List (Param ν σ)) (body : List (Stmt ν σ)) :
    List (Step σ × Node ν σ) :=
  params.map (.defaults kind scope, .param ·) ++ stmts (.body kind scope) body

/-- The children of a node, in reading order. -/
def children : Node ν σ → List (Step σ × Node ν σ)
  | .expr tree => match tree with
    | .literal .. | .symbol .. | .name .. | .global .. | .constant .. => []
    | .array _ trees => exprs .part trees
    | .splat _ tree | .unary _ _ tree => exprs .part [tree]
    | .range _ first second _ | .binary _ _ first second => exprs .part [first, second]
    | .assign _ first second | .opAssign _ first _ second => exprs .target [first] ++
        exprs .part [second]
    | .ternary _ first second third => exprs .part [first, second, third]
    | .lambda _ scope params body => opened .lambda scope params body
    | .call _ receiver _ args tree _ =>
      exprs .part receiver.toList ++ exprs .part args ++ tree.toList.map (.part, .block ·)
    | .index _ value args => exprs .part (value :: args)
    | .multiAssign _ firsts values => exprs .target firsts ++ exprs .part values
    | .block tree => [(.part, .block tree)]
    | .param tree => [(.part, .param tree)]
    | .stmt tree => [(.part, .stmt tree)]
  | .param (.mk _ _ default) => exprs .part default.toList
  | .block (.mk _ scope params body) => opened .block scope params body
  | .stmt tree => match tree with
    | .define _ scope _ params body => opened .function scope params body
    | .expression _ value => exprs .part [value]
    | .conditional _ condition thenBody elseBody _ true _ =>
      stmts .part thenBody ++ exprs .part [condition] ++ stmts .part elseBody
    | .conditional _ condition thenBody elseBody _ false _ =>
      exprs .part [condition] ++ stmts .part thenBody ++ stmts .part elseBody
    | .whileLoop _ condition body => exprs .part [condition] ++ stmts .loop body
    | .jump _ _ value => exprs .part value.toList
    | .bare tree => exprs .part [tree]

/-- The node itself, unless it only wraps another. -/
def here : Node ν σ → List (Node ν σ)
  | .expr (.block _) | .expr (.param _) | .expr (.stmt _) | .stmt (.bare _) => []
  | node => [node]

theorem sizeOf_children {node : Node ν σ} {child : Step σ × Node ν σ}
    (member : child ∈ node.children) : sizeOf child.2 < sizeOf node := by
  have listed {τ : Type} [SizeOf τ] {trees : List τ} {tree : τ} (member : tree ∈ trees) :=
    sizeOf_lt_of_mem member
  obtain ⟨step, child⟩ := child
  rcases node with tree | ⟨_, _, _ | _⟩ | ⟨_, _, _, _⟩ | tree
  case expr | stmt =>
    rcases tree <;> simp only [children, exprs, opened, stmts] at member <;> grind
  all_goals simp only [children, exprs, opened, stmts] at member; grind

theorem induct {motive : Node ν σ → Prop}
    (step : ∀ node, (∀ child ∈ node.children, motive child.2) → motive node) (node : Node ν σ) :
    motive node :=
  step node fun child _ => induct step child.2
termination_by sizeOf node
decreasing_by exact sizeOf_children ‹_›

/-- A path from a node to a part of it. -/
inductive Reaches : Node ν σ → List (Step σ) → Node ν σ → Prop
  | here (node : Node ν σ) : Reaches node [] node
  | step {node child last : Node ν σ} {step : Step σ} {path : List (Step σ)} :
      (step, child) ∈ node.children → Reaches child path last → Reaches node (step :: path) last

theorem Reaches.trans {node middle last : Node ν σ} {path more : List (Step σ)}
    (reaches : node.Reaches path middle) (further : middle.Reaches more last) :
    node.Reaches (path ++ more) last := by
  induction reaches with
  | here => exact further
  | step member _ ih => exact .step member (ih further)

/-- A traversal that keeps a label, changed by each step, and gathers items at the parts. -/
def Gathers (next : α → Step σ → α) (items : α → Node ν σ → List ι) (valid : α → Node ν σ → Prop)
    (walk : α → Node ν σ → List ι) : Prop :=
  ∀ label node, valid label node →
    (∀ child ∈ node.children, valid (next label child.1) child.2) ∧
    walk label node = node.here.flatMap (items label) ++
      node.children.flatMap fun child => walk (next label child.1) child.2

section Gathers

variable {next : α → Step σ → α} {items : α → Node ν σ → List ι} {valid : α → Node ν σ → Prop}
  {walk : α → Node ν σ → List ι}

theorem Gathers.mem_iff (gathers : Gathers next items valid walk) {label : α} (node : Node ν σ)
    (ok : valid label node) {item : ι} :
    item ∈ walk label node ↔ ∃ path last, node.Reaches path last ∧ last ∈ last.here ∧
      item ∈ items (path.foldl next label) last := by
  induction node using induct generalizing label with
  | step node ih =>
    obtain ⟨okChildren, unfolded⟩ := gathers label node ok
    rw [unfolded, mem_append, mem_flatMap, mem_flatMap]
    constructor
    · rintro (⟨last, isHere, found⟩ | ⟨child, member, found⟩)
      · obtain rfl : last = node := by
          unfold here at isHere
          split at isHere <;> simp_all
        exact ⟨[], last, .here last, isHere, found⟩
      · obtain ⟨path, last, reaches, isHere, found⟩ :=
          (ih child member (okChildren child member)).1 found
        exact ⟨child.1 :: path, last, .step member reaches, isHere, found⟩
    · rintro ⟨path, last, reaches, isHere, found⟩
      cases reaches with
      | here => exact .inl ⟨node, isHere, found⟩
      | step member reaches =>
        exact .inr ⟨_, member, (ih _ member (okChildren _ member)).2
          ⟨_, last, reaches, isHere, found⟩⟩

theorem Gathers.reached (gathers : Gathers next items valid walk) {node last : Node ν σ}
    {path : List (Step σ)} (reaches : node.Reaches path last) {label : α} (ok : valid label node) :
    walk (path.foldl next label) last ⊆ walk label node := by
  induction reaches generalizing label with
  | here => exact List.Subset.refl _
  | @step node child last step path member _ ih =>
    obtain ⟨okChildren, unfolded⟩ := gathers label node ok
    intro item there
    rw [unfolded, mem_append]
    exact .inr (mem_flatMap.2 ⟨_, member, ih (okChildren _ member) there⟩)

/-- Two traversals meet the same parts. -/
theorem Gathers.map {next' : β → Step σ → β} {items' : β → Node ν σ → List κ}
    {valid' : β → Node ν σ → Prop} {walk' : β → Node ν σ → List κ}
    (gathers : Gathers next items valid walk) (gathers' : Gathers next' items' valid' walk')
    (change : ι → κ) (relabel : α → β)
    (steps : ∀ label step, relabel (next label step) = next' (relabel label) step)
    (same : ∀ label node, (items label node).map change = items' (relabel label) node)
    {label : α} {node : Node ν σ} (ok : valid label node) (ok' : valid' (relabel label) node) :
    (walk label node).map change = walk' (relabel label) node := by
  induction node using induct generalizing label with
  | step node ih =>
    obtain ⟨okChildren, unfolded⟩ := gathers label node ok
    obtain ⟨okChildren', unfolded'⟩ := gathers' _ node ok'
    rw [unfolded, unfolded', map_append, map_flatMap, map_flatMap]
    congr 1
    · simp only [same]
    · refine flatMap_congr fun child member => ?_
      rw [← steps]
      exact ih child member (okChildren child member) (steps _ _ ▸ okChildren' child member)

end Gathers

def walk : Node ν σ → List (Node ν σ)
  | .expr tree => tree.walk
  | .param tree => walkParams [tree]
  | .block tree => (Expr.block tree).walk
  | .stmt tree => tree.walk

theorem walkExprs_eq (trees : List (Expr ν σ)) : walkExprs trees = trees.flatMap Expr.walk :=
  eq_flatMap rfl (fun _ _ => rfl) trees

theorem walkStmts_eq (trees : List (Stmt ν σ)) : walkStmts trees = trees.flatMap Stmt.walk :=
  eq_flatMap rfl (fun _ _ => rfl) trees

theorem walkParams_eq (trees : List (Param ν σ)) :
    walkParams trees = trees.flatMap fun tree => walkParams [tree] := by
  induction trees with
  | nil => rfl
  | cons first rest ih =>
    rw [flatMap_cons, ← ih]
    rcases first with ⟨_, _, _ | _⟩ <;> simp [walkParams]

section

attribute [local simp] here children exprs stmts opened walk Expr.walk Stmt.walk walkExprs_eq
  walkStmts_eq flatMap_map

theorem walk_eq (node : Node ν σ) : node.walk = node.here ++ node.children.flatMap (·.2.walk) := by
  match node with
  | .expr tree =>
    cases tree with
    | call _ receiver _ _ block _ =>
      rcases receiver with _ | receiver <;> rcases block with _ | ⟨_, _, _, _⟩ <;> simp
    | param param => rcases param with ⟨_, _, _ | _⟩ <;> simp [walkParams]
    | lambda _ _ params _ => simp [walkParams_eq params]
    | _ => simp
  | .param (.mk _ _ default) => cases default <;> simp [walkParams]
  | .block (.mk _ _ params _) => simp [walkParams_eq params]
  | .stmt tree =>
    cases tree with
    | define _ _ _ params _ => simp [walkParams_eq params]
    | conditional _ _ _ _ _ modifier _ => cases modifier <;> simp
    | jump _ _ value => cases value <;> simp
    | _ => simp

end

theorem gathers_walk : Gathers (fun (_ : Unit) (_ : Step σ) => ()) (fun _ node => [node])
    (fun _ _ => True) fun _ (node : Node ν σ) => node.walk :=
  fun _ node _ => ⟨fun _ _ => trivial, by simpa using node.walk_eq⟩

theorem mem_walk {node part : Node ν σ} :
    part ∈ node.walk ↔ part ∈ part.here ∧ ∃ path, node.Reaches path part := by
  have met := @Gathers.mem_iff _ _ _ _ _ _ _ _ gathers_walk () node trivial part
  simpa [and_comm] using met

/-- A part of a tree that stands where it may. -/
def WellFormed (wording : Wording ν) : Node ν σ → Prop
  | .expr tree => ∃ position, tree.WellFormed wording position
  | .param tree => paramsWellFormed wording [tree]
  | .block tree => paramsWellFormed wording tree.params ∧ stmtsWellFormed wording false tree.body
  | .stmt tree => ∃ chain, tree.WellFormed wording chain

def isTarget : Node ν σ → Bool
  | .expr tree => tree.isTarget
  | _ => false

/-- Only variables and elements are assigned to in a tree. -/
def Assigns (node : Node ν σ) : Prop :=
  ∀ path last, node.Reaches path last →
    ∀ child, (Step.target, child) ∈ last.children → child.isTarget = true

section WellFormed

variable {wording : Wording ν} {position : Position} {chain : Bool}

theorem wellFormed_stmts {trees : List (Stmt ν σ)} (valid : stmtsWellFormed wording chain trees) :
    ∀ tree ∈ trees, (Node.stmt tree).WellFormed wording := by
  obtain _ | ⟨first, rest⟩ := trees
  · exact fun _ member => absurd member not_mem_nil
  · exact forall_mem_cons.2
      ⟨⟨_, valid.1⟩, fun tree member => ⟨_, stmtsWellFormed_iff.1 valid.2 tree member⟩⟩

theorem wellFormed_params {params : List (Param ν σ)} (valid : paramsWellFormed wording params) :
    ∀ param ∈ params, paramsWellFormed wording [param] := by
  induction params with
  | nil => exact fun _ member => absurd member not_mem_nil
  | cons first rest ih => rcases first with ⟨_, _, _ | _⟩ <;> simp_all [paramsWellFormed]

theorem WellFormed.children {node : Node ν σ} (valid : node.WellFormed wording) :
    ∀ child ∈ node.children, child.2.WellFormed wording := by
  rintro ⟨step, child⟩ member
  rcases node with tree | ⟨_, _, _ | _⟩ | ⟨_, _, _, _⟩ | tree <;> unfold Node.WellFormed at valid
  · obtain ⟨position, valid⟩ := valid
    rcases tree <;> simp only [Node.children, exprs, opened, stmts] at member
    case call =>
      rw [Expr.wellFormed_call] at valid
      grind [exprsWellFormed_iff, Node.WellFormed]
    all_goals grind [Expr.WellFormed, exprsWellFormed_iff, wellFormed_params, wellFormed_stmts,
      Node.WellFormed]
  · cases member
  · simp only [Node.children, exprs] at member
    grind [paramsWellFormed, Node.WellFormed]
  · simp only [Node.children, opened, stmts] at member
    grind [wellFormed_params, wellFormed_stmts, Node.WellFormed, Block.params, Block.body]
  · obtain ⟨chain, valid⟩ := valid
    rcases tree <;> simp only [Node.children, exprs, opened, stmts] at member
    all_goals grind [Stmt.WellFormed, wellFormed_params, wellFormed_stmts, Node.WellFormed]

theorem WellFormed.here {node : Node ν σ} (valid : node.WellFormed wording) :
    node.here = [node] := by
  rcases node with tree | _ | _ | tree
  · obtain ⟨_, valid⟩ := valid
    cases tree with
    | block | param | stmt => exact False.elim valid
    | _ => rfl
  · rfl
  · rfl
  · obtain ⟨_, valid⟩ := valid
    cases tree with
    | bare => exact False.elim valid
    | _ => rfl

theorem WellFormed.reached {node last : Node ν σ} {path : List (Step σ)}
    (valid : node.WellFormed wording) (reaches : node.Reaches path last) :
    last.WellFormed wording := by
  induction reaches with
  | here => exact valid
  | step member _ ih => exact ih (valid.children _ member)

theorem WellFormed.target {node child : Node ν σ} (valid : node.WellFormed wording)
    (member : (Step.target, child) ∈ node.children) : child.isTarget = true := by
  rcases node with tree | ⟨_, _, _ | _⟩ | ⟨_, _, _, _⟩ | tree <;> unfold Node.WellFormed at valid
  case expr =>
    obtain ⟨position, valid⟩ := valid
    rcases tree <;> simp only [Node.children, exprs, opened, stmts] at member <;>
      grind [Expr.WellFormed, isTarget]
  case stmt =>
    rcases tree <;> simp only [Node.children, exprs, opened, stmts] at member <;> grind
  all_goals simp only [Node.children, exprs, opened, stmts] at member; grind

theorem WellFormed.assigns {node : Node ν σ} (valid : node.WellFormed wording) : node.Assigns :=
  fun _ _ reaches _ member => (valid.reached reaches).target member

end WellFormed

end Node

end Hoist
