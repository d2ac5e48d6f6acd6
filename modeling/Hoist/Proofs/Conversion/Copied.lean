import Hoist.Proofs.Conversion.Image

/-!
What hygiene asks of converted code.  When converted code is resolved, each name that was copied
means what it meant: a method stays a method, and a variable is found in the copy of its scope or,
where the code moved to the method of a hoisted block and the scope did not, in the parameter of
that method.  What the call passes for such a parameter is the captured variable.
-/

namespace Hoist

/-- Where the variables of the source are found in converted code. -/
structure Carrying where
  /-- The scopes around the code that were copied with it, and their copies. -/
  scopes : List (ScopeId × ScopeId)
  /-- The scope of the method that the innermost hoisted block around the code became. -/
  method : Option ScopeId

namespace Carrying

/-- The code of a scope, from the code around it. -/
def enter (carrying : Carrying) (scope copy : ScopeId) : Carrying :=
  { carrying with scopes := (scope, copy) :: carrying.scopes }

/-- A variable is carried by one in the copy of its scope, or by a parameter of the method. -/
def Finds (carrying : Carrying) (scope copy : ScopeId) : Prop :=
  (scope, copy) ∈ carrying.scopes ∨
    (scope ∉ carrying.scopes.map Prod.fst ∧ carrying.method = some copy)

/-- A copied name means what it meant. -/
def Keeps (carrying : Carrying) (source copy : Occurrence) : Prop :=
  copy.name = source.name ∧
    ((source.target = some .method ∧ copy.target = some .method) ∨
      ∃ scope carrier, source.target = some (.variable scope) ∧
        copy.target = some (.variable carrier) ∧ carrying.Finds scope carrier)

/-- A copied name, or the content of the cell that it holds now. -/
def KeepsName (carrying : Carrying) (loc : Loc) (source : Occurrence) (copy : ResolvedExpr) :
    Prop :=
  ∃ occurrence, carrying.Keeps source occurrence ∧
    (copy = .name loc occurrence ∨
      copy = .index loc (.name loc occurrence) [.literal loc (.int 0)])

def Passes (carrying : Carrying) (loc : Loc) (capture : Capture) (copy : ResolvedExpr) : Prop :=
  carrying.KeepsName loc ⟨capture.name, some (.variable capture.scope)⟩ copy

end Carrying

/-- A statement that allocates a cell of a scope. -/
def Stmt.Allocates (scope : ScopeId) (tree : ResolvedStmt) : Prop :=
  ∃ loc name content, tree = .expression loc (.assign loc (.name loc ⟨name, some (.variable scope)⟩)
      (.array loc [content])) ∧
    (content = .literal loc .nil ∨ content = .name loc ⟨name, some (.variable scope)⟩)

section Copied

variable (input : ConversionInput)

mutual

def Expr.Copied : ResolvedExpr → Carrying → ResolvedExpr → Prop
  | .literal loc value, _, copy => copy = .literal loc value
  | .symbol loc symbol, _, copy => copy = .symbol loc symbol
  | .name loc occurrence, carrying, copy => carrying.KeepsName loc occurrence copy
  | .global loc name, _, copy => copy = .global loc name
  | .constant loc name, _, copy => copy = .constant loc name
  | .array loc elements, carrying, copy =>
    ∃ copies, copy = .array loc copies ∧ exprsCopied elements carrying copies
  | .splat loc value, carrying, copy => ∃ inner, copy = .splat loc inner ∧
      value.Copied carrying inner
  | .range loc start stop exclusive, carrying, copy =>
    ∃ first second, copy = .range loc first second exclusive ∧ start.Copied carrying first ∧
      stop.Copied carrying second
  | .binary loc op left right, carrying, copy =>
    ∃ first second, copy = .binary loc op first second ∧ left.Copied carrying first ∧
      right.Copied carrying second
  | .unary loc op operand, carrying, copy =>
    ∃ inner, copy = .unary loc op inner ∧ operand.Copied carrying inner
  | .ternary loc condition thenValue elseValue, carrying, copy =>
    ∃ first second third, copy = .ternary loc first second third ∧
      condition.Copied carrying first ∧ thenValue.Copied carrying second ∧
      elseValue.Copied carrying third
  | .lambda loc scope params body, carrying, copy =>
    ∃ id inner cells others, copy = .lambda loc id inner (cells ++ others) ∧
      paramsCopied params (carrying.enter scope id) inner ∧ (∀ cell ∈ cells, cell.Allocates id) ∧
      stmtsCopied body (carrying.enter scope id) others
  | .call loc receiver method args none parens, carrying, copy =>
    ∃ first second, copy = .call loc first method second none parens ∧
      optionCopied receiver carrying first ∧ exprsCopied args carrying second
  | .call loc receiver method args (some (.mk blockLoc scope params body)) parens, carrying, copy =>
    if (input.plan.helper? scope).isSome then
      ∃ first helper closure passed, copy = .call loc none helper (first.toList ++
          [.call blockLoc none closure passed none true]) none true ∧
        optionCopied receiver carrying first ∧
        List.Forall₂ (carrying.Passes blockLoc) (input.analysis.capturesOf scope) passed
    else
      ∃ first second id inner cells others, copy = .call loc first method second
          (some (.mk blockLoc id inner (cells ++ others))) parens ∧
        optionCopied receiver carrying first ∧ exprsCopied args carrying second ∧
        paramsCopied params (carrying.enter scope id) inner ∧ (∀ cell ∈ cells, cell.Allocates id) ∧
        stmtsCopied body (carrying.enter scope id) others
  | .index loc value args, carrying, copy =>
    ∃ first second, copy = .index loc first second ∧ value.Copied carrying first ∧
      exprsCopied args carrying second
  | .assign loc target value, carrying, copy =>
    ∃ first second, copy = .assign loc first second ∧ target.Copied carrying first ∧
      value.Copied carrying second
  | .opAssign loc target op value, carrying, copy =>
    ∃ first second, copy = .opAssign loc first op second ∧ target.Copied carrying first ∧
      value.Copied carrying second
  | .multiAssign loc targets values, carrying, copy =>
    ∃ first second, copy = .multiAssign loc first second ∧ exprsCopied targets carrying first ∧
      exprsCopied values carrying second
  -- no program has these
  | .block _, _, copy | .param _, _, copy | .stmt _, _, copy => copy = default
termination_by structural tree => tree

def optionCopied : Option ResolvedExpr → Carrying → Option ResolvedExpr → Prop
  | none, _, copy => copy = none
  | some tree, carrying, copy => ∃ inner, copy = some inner ∧ tree.Copied carrying inner
termination_by structural tree => tree

def exprsCopied : List ResolvedExpr → Carrying → List ResolvedExpr → Prop
  | [], _, copies => copies = []
  | first :: rest, carrying, copies =>
    ∃ copy others, copies = copy :: others ∧ first.Copied carrying copy ∧
      exprsCopied rest carrying others
termination_by structural trees => trees

def paramsCopied : List ResolvedParam → Carrying → List ResolvedParam → Prop
  | [], _, copies => copies = []
  | .mk name loc value :: rest, carrying, copies =>
    ∃ copy others, copies = .mk name loc copy :: others ∧ optionCopied value carrying copy ∧
      paramsCopied rest carrying others
termination_by structural trees => trees

/-- The second statement is the resolved copy of the first.  A jump out of a hoisted block leaves
the lambda of its method, with a marker if it stops the iteration. -/
def Stmt.Copied : ResolvedStmt → Carrying → ResolvedStmt → Prop
  | .define loc scope name params body, carrying, copy =>
    ∃ id inner cells others, copy = .define loc id name inner (cells ++ others) ∧
      paramsCopied params (carrying.enter scope id) inner ∧ (∀ cell ∈ cells, cell.Allocates id) ∧
      stmtsCopied body (carrying.enter scope id) others
  | .expression loc value, carrying, copy =>
    ∃ inner, copy = .expression loc inner ∧ value.Copied carrying inner
  | .conditional loc condition thenBody elseBody negated modifier elsif, carrying, copy =>
    ∃ first second third, copy = .conditional loc first second third negated modifier elsif ∧
      condition.Copied carrying first ∧ stmtsCopied thenBody carrying second ∧
      stmtsCopied elseBody carrying third
  | .whileLoop loc condition body, carrying, copy =>
    ∃ first second, copy = .whileLoop loc first second ∧ condition.Copied carrying first ∧
      stmtsCopied body carrying second
  | .jump loc _ value, carrying, copy =>
    ∃ inner, optionCopied value carrying inner ∧
      ((∃ left, copy = .jump loc left inner) ∨
        ∃ marker, copy = .jump loc .returnJump
          (some (.array loc [.symbol loc marker, inner.getD (.literal loc .nil)])))
  | .bare _, _, _ => False
termination_by structural tree => tree

def stmtsCopied : List ResolvedStmt → Carrying → List ResolvedStmt → Prop
  | [], _, copies => copies = []
  | first :: rest, carrying, copies =>
    ∃ copy others, copies = copy :: others ∧ first.Copied carrying copy ∧
      stmtsCopied rest carrying others
termination_by structural trees => trees

end

def BodyCopied (body : List ResolvedStmt) (carrying : Carrying) (scope : ScopeId)
    (copy : List ResolvedStmt) : Prop :=
  ∃ cells others, copy = cells ++ others ∧ (∀ cell ∈ cells, cell.Allocates scope) ∧
    stmtsCopied input body carrying others

/-- A method is what a hoisted block became: its parameters are the captured variables, and the
lambda that it makes has a copy of the block's body. -/
def HoistedBlock.Copied (hoisted : HoistedBlock) (copy : ResolvedStmt) : Prop :=
  ∃ name method id inner front body,
    copy = .define hoisted.block.loc method name
        ((input.analysis.capturesOf hoisted.scope).map fun capture =>
          .mk capture.name hoisted.block.loc none)
        [.expression hoisted.block.loc (.lambda hoisted.block.loc id inner (front ++ body))] ∧
      BodyCopied input hoisted.block.body ⟨[(hoisted.scope, id)], some method⟩ id body

end Copied

end Hoist
