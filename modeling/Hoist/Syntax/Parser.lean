import Hoist.Syntax.Tree
import Hoist.Syntax.ParseError
import Hoist.Syntax.StringLiteral
import Hoist.Syntax.Token.Scan
import Hoist.Syntax.Token.Layout
import Hoist.Decimal.Reading

/-!
Program text to trees.  The grammar is read from left to right with one token of lookahead, so the
token that an error names is the first one that no program can have in its place.

Faults inside a token, and targets that cannot be assigned to, are reported only when all tokens fit
the grammar.  A parse therefore yields a tree in waiting: either the tree or its first such fault.
-/

namespace Hoist

/-- A tree, or the first fault among its literals and assignment targets. -/
abbrev Waiting (α : Type) := Except ParseError α

/-- Reads from a list of tokens; a failure keeps the tokens that could not be read. -/
abbrev Reader := StateT (List Token) (Except (List Token))

namespace Reader

def stuck {α : Type} : Reader α := do throw (← get)

def peek : Reader (Option TokenKind) := do return (← get).head?.map Token.kind

def nextIs (kind : TokenKind) : Reader Bool := do return (← peek) == some kind

def expect (kind : TokenKind) : Reader Token := do
  match ← get with
  | token :: rest => if token.kind == kind then set rest; return token else stuck
  | [] => stuck

def advance : Reader Token := do
  match ← get with
  | token :: rest => set rest; return token
  | [] => stuck

def accept (kind : TokenKind) : Reader Bool := do
  if ← nextIs kind then discard advance; return true else return false

def skipTerminators : Reader Unit := modify (·.dropWhile (·.kind == .terminator))

def terminators : Reader Unit := do
  discard (expect .terminator)
  skipTerminators

def thenMark : Reader Unit := do
  if ← accept .kwThen then return
  else
    terminators
    discard (accept .kwThen)

end Reader

/-- An expression in waiting and the place of its first token. -/
structure Phrase where
  start : Loc
  tree : Waiting PlainExpr

namespace TokenKind

def startsExpression : TokenKind → Bool
  | .name | .constant | .global | .int | .float | .string | .symbol | .kwNil | .kwTrue | .kwFalse
  | .leftBracket | .leftParen | .arrow | .kwNot | .minus | .bang => true
  | _ => false

def startsStatement : TokenKind → Bool
  | .kwDef | .kwIf | .kwUnless | .kwWhile | .kwReturn | .kwBreak | .kwNext | .command => true
  | kind => kind.startsExpression

def binaryAt (level : Nat) (kind : TokenKind) : Option BinaryOp :=
  let op : Option BinaryOp := match kind with
    | .kwAnd => some .keywordAnd
    | .kwOr => some .keywordOr
    | .orOr => some .logicalOr
    | .andAnd => some .logicalAnd
    | .eqEq => some .equal
    | .notEq => some .notEqual
    | .less => some .less
    | .greater => some .greater
    | .lessEq => some .lessEqual
    | .greaterEq => some .greaterEqual
    | .plus => some .add
    | .minus => some .subtract
    | .star => some .multiply
    | .slash => some .divide
    | .percent => some .modulo
    | .pow => some .power
    | _ => none
  op.filter (·.level? == some level)

end TokenKind

/-- What may follow the expression at the head of a statement: an assignment to it, an assignment to
it and others, or the argument of a command call. -/
structure HeadForms where
  assignment : Bool
  severalTargets : Bool

def HeadForms.statement : HeadForms := ⟨true, true⟩
def HeadForms.assigned : HeadForms := ⟨true, false⟩
/-- The condition of `if`, `unless` and `while`. -/
def HeadForms.condition : HeadForms := ⟨false, false⟩

def assignable : PlainExpr → Waiting PlainExpr
  | target@(.name ..) | target@(.global ..) | target@(.index ..) => .ok target
  | target => .error (.assignmentTarget target.loc)

/-- The operator of a token such as `+=`. -/
def assignOperator (token : Token) : BinaryOp :=
  BinaryOp.ofSpelling (String.ofList token.text.chars.dropLast)

def intLiteral (token : Token) : Waiting PlainExpr :=
  match Decimal.readNat? (token.text.chars.filter (· != '_')) with
  | some value => .ok (.literal token.loc (.int value))
  | none => .error .integerTooLong

def floatValue (token : Token) : Float :=
  match Decimal.takeDecimal? token.text.chars with
  | some (parts, _) => parts.toFloat
  | none => 0.0

def floatLiteral (token : Token) : Waiting PlainExpr :=
  .ok (.literal token.loc (.float (floatValue token)))

/-- An interpolation is reported in the column it has when the literal is on one line. -/
def stringLiteral (token : Token) : Waiting PlainExpr :=
  match StringLiteral.read token.text with
  | .ok text => .ok (.literal token.loc (.str text))
  | .error offset => .error (.interpolation ⟨token.loc.line, token.loc.column + 1 + offset⟩)

def waitAll {α : Type} (items : List (Waiting α)) : Waiting (List α) := items.mapM id

def waitOption {α : Type} : Option (Waiting α) → Waiting (Option α)
  | none => .ok none
  | some item => item.map some

open Reader

mutual

/-- An expression whose operators bind at least as tightly as `level`. -/
def readExpr : (fuel : Nat) → (level : Nat) → Reader Phrase
  | 0, _ => stuck
  | fuel + 1, level => do
    match ← peek with
    | some .kwNot =>
      if Level.negation < level then stuck else
      let token ← advance
      let operand ← readExpr fuel Level.negation
      climb fuel Level.keyword level
        ⟨token.loc, do return .unary token.loc .keywordNot (← operand.tree)⟩
    | some .minus => readUnary fuel level .negate
    | some .bang => readUnary fuel level .bang
    | _ => climb fuel Level.power level (← readPostfix fuel false)
termination_by structural fuel => fuel

def readUnary : (fuel : Nat) → (level : Nat) → UnaryOp → Reader Phrase
  | 0, _, _ => stuck
  | fuel + 1, level, op => do
    if Level.unary < level then stuck else
    let token ← advance
    let operand ← readExpr fuel Level.unary
    climb fuel Level.term level ⟨token.loc, do return .unary token.loc op (← operand.tree)⟩
termination_by structural fuel => fuel

/-- The operators after an operand, of the levels from `level` down to `floor`. -/
def climb : (fuel : Nat) → (level floor : Nat) → Phrase → Reader Phrase
  | 0, _, _, _ => stuck
  | fuel + 1, level, floor, left => do
    if level < floor then return left
    else if level == Level.ternary then
      if ← accept .question then
        let thenValue ← readExpr fuel Level.ternary
        discard (expect .colon)
        let elseValue ← readExpr fuel Level.ternary
        climb fuel (level - 1) floor ⟨left.start, do
          return .ternary left.start (← left.tree) (← thenValue.tree) (← elseValue.tree)⟩
      else climb fuel (level - 1) floor left
    else if level == Level.range then
      let kind ← peek
      if kind == some .dot2 || kind == some .dot3 then
        discard advance
        let stop ← readExpr fuel Level.disjunction
        climb fuel (level - 1) floor ⟨left.start, do
          return .range left.start (← left.tree) (← stop.tree) (kind == some .dot3)⟩
      else climb fuel (level - 1) floor left
    else
      match (← peek).bind (TokenKind.binaryAt level) with
      | none => climb fuel (level - 1) floor left
      | some op =>
        let token ← advance
        if level == Level.power then
          let right ← readExpr fuel Level.unary
          climb fuel (level - 1) floor ⟨left.start, do
            return .binary left.start op (← left.tree) (← right.tree)⟩
        else
          let right ← readExpr fuel (level + 1)
          let joined : Phrase := ⟨left.start, do
            return .binary token.loc op (← left.tree) (← right.tree)⟩
          climb fuel (if level == Level.equality then level - 1 else level) floor joined
termination_by structural fuel => fuel

/-- A primary expression with its calls and indices.  With `commands` a command call on it is left
for the caller to read. -/
def readPostfix : (fuel : Nat) → (commands : Bool) → Reader Phrase
  | 0, _ => stuck
  | fuel + 1, commands => do readSuffixes fuel commands (← readPrimary fuel)
termination_by structural fuel => fuel

def readSuffixes : (fuel : Nat) → (commands : Bool) → Phrase → Reader Phrase
  | 0, _, _ => stuck
  | fuel + 1, commands, value => do
    match ← get with
    | ⟨.dot, _, _, _, _⟩ :: ⟨.command, _, _, _, _⟩ :: _ =>
      if commands then return value else discard advance; stuck
    | ⟨.dot, _, _, _, _⟩ :: _ =>
      discard advance
      let name ← expect .name
      let args ← readCallArgs fuel
      let block ← readBlock? fuel
      readSuffixes fuel commands ⟨value.start, do
        return .call name.loc (some (← value.tree)) name.word (← waitAll (args.getD []))
          (← waitOption block) args.isSome⟩
    | ⟨.leftBracket, _, _, _, _⟩ :: _ =>
      discard advance
      let args ← readArgs fuel .rightBracket
      discard (expect .rightBracket)
      readSuffixes fuel commands ⟨value.start, do
        return .index value.start (← value.tree) (← waitAll args)⟩
    | _ => return value
termination_by structural fuel => fuel

def readPrimary : (fuel : Nat) → Reader Phrase
  | 0 => stuck
  | fuel + 1 => do
    let phrase (token : Token) (tree : Waiting PlainExpr) : Phrase := ⟨token.loc, tree⟩
    match ← peek with
    | some .name =>
      let token ← advance
      let args ← readCallArgs fuel
      let block ← readBlock? fuel
      if args.isNone && block.isNone then return phrase token (.ok (.name token.loc token.word))
      else return phrase token (do
        return .call token.loc none token.word (← waitAll (args.getD [])) (← waitOption block)
          args.isSome)
    | some .constant =>
      let token ← advance
      return phrase token (.ok (.constant token.loc token.word))
    | some .global =>
      let token ← advance
      return phrase token (.ok (.global token.loc (String.ofList (token.text.chars.drop 1))))
    | some .int =>
      let token ← advance
      return phrase token (intLiteral token)
    | some .float =>
      let token ← advance
      return phrase token (floatLiteral token)
    | some .string =>
      let token ← advance
      return phrase token (stringLiteral token)
    | some .symbol =>
      let token ← advance
      return phrase token (.ok (.symbol token.loc (String.ofList (token.text.chars.drop 1))))
    | some .kwNil =>
      let token ← advance
      return phrase token (.ok (.literal token.loc .nil))
    | some .kwTrue =>
      let token ← advance
      return phrase token (.ok (.literal token.loc (.bool true)))
    | some .kwFalse =>
      let token ← advance
      return phrase token (.ok (.literal token.loc (.bool false)))
    | some .leftBracket =>
      let token ← advance
      let elements ← if ← nextIs .rightBracket then pure [] else readArgs fuel .rightBracket
      discard (expect .rightBracket)
      return phrase token (do return .array token.loc (← waitAll elements))
    | some .leftParen =>
      let token ← advance
      let inner ← readExpr fuel Level.keyword
      discard (expect .rightParen)
      return phrase token inner.tree
    | some .arrow =>
      let token ← advance
      let params ← if ← accept .leftParen then readParams fuel .rightParen else pure []
      let body ← readBraced fuel
      return phrase token (do return .lambda token.loc () (← waitAll params) (← body))
    | _ => stuck
termination_by structural fuel => fuel

def readCallArgs : (fuel : Nat) → Reader (Option (List (Waiting PlainExpr)))
  | 0 => stuck
  | fuel + 1 => do
    if ← accept .leftParen then
      let args ← if ← nextIs .rightParen then pure [] else readArgs fuel .rightParen
      discard (expect .rightParen)
      return some args
    else return none
termination_by structural fuel => fuel

/-- One argument or more; a comma may stand before the closing token. -/
def readArgs : (fuel : Nat) → (closing : TokenKind) → Reader (List (Waiting PlainExpr))
  | 0, _ => stuck
  | fuel + 1, closing => do
    let first ← readArg fuel
    if ← accept .comma then
      if ← nextIs closing then return [first]
      else return first :: (← readArgs fuel closing)
    else return [first]
termination_by structural fuel => fuel

def readOpenArgs : (fuel : Nat) → Reader (List (Waiting PlainExpr))
  | 0 => stuck
  | fuel + 1 => do
    let first ← readArg fuel
    if ← accept .comma then return first :: (← readOpenArgs fuel) else return [first]
termination_by structural fuel => fuel

def readArg : (fuel : Nat) → Reader (Waiting PlainExpr)
  | 0 => stuck
  | fuel + 1 => do
    if ← nextIs .star then
      let token ← advance
      let value ← readExpr fuel Level.keyword
      return do return .splat token.loc (← value.tree)
    else return (← readExpr fuel Level.keyword).tree
termination_by structural fuel => fuel

def readParams : (fuel : Nat) → (closing : TokenKind) → Reader (List (Waiting PlainParam))
  | 0, _ => stuck
  | fuel + 1, closing => do
    if ← accept closing then return []
    else
      let params ← readParamList fuel
      discard (expect closing)
      return params
termination_by structural fuel => fuel

def readParamList : (fuel : Nat) → Reader (List (Waiting PlainParam))
  | 0 => stuck
  | fuel + 1 => do
    let name ← expect .name
    let default ← if ← accept .assign then
        pure (some (← readExpr fuel Level.keyword).tree)
      else pure none
    let param : Waiting PlainParam := do return .mk name.word name.loc (← waitOption default)
    if ← accept .comma then return param :: (← readParamList fuel) else return [param]
termination_by structural fuel => fuel

/-- A block in braces or between `do` and `end`, if there is one. -/
def readBlock? : (fuel : Nat) → Reader (Option (Waiting PlainBlock))
  | 0 => stuck
  | fuel + 1 => do
    let kind ← peek
    if kind == some .leftBrace || kind == some .kwDo then
      let token ← advance
      let params ← if ← accept .pipe then readParams fuel .pipe else pure []
      let body ← readStmts fuel
      discard (expect (if kind == some .leftBrace then .rightBrace else .kwEnd))
      return some (do return .mk token.loc () (← waitAll params) (← body))
    else return none
termination_by structural fuel => fuel

def readBraced : (fuel : Nat) → Reader (Waiting (List PlainStmt))
  | 0 => stuck
  | fuel + 1 => do
    if ← accept .leftBrace then
      let body ← readStmts fuel
      discard (expect .rightBrace)
      return body
    else
      discard (expect .kwDo)
      let body ← readStmts fuel
      discard (expect .kwEnd)
      return body
termination_by structural fuel => fuel

def readStmts : (fuel : Nat) → Reader (Waiting (List PlainStmt))
  | 0 => stuck
  | fuel + 1 => do
    skipTerminators
    match ← peek with
    | none => return .ok []
    | some kind =>
      if kind.startsStatement then
        let first ← readStmt fuel
        if ← nextIs .terminator then
          let rest ← readStmts fuel
          return do return (← first) :: (← rest)
        else return do return [← first]
      else return .ok []
termination_by structural fuel => fuel

def readStmt : (fuel : Nat) → Reader (Waiting PlainStmt)
  | 0 => stuck
  | fuel + 1 => do
    match (← get).head? with
    | none => stuck
    | some token => readModifiers fuel token.loc (← readSimpleStmt fuel)
termination_by structural fuel => fuel

/-- Conditions written after a statement that starts at `start`. -/
def readModifiers : (fuel : Nat) → (start : Loc) → Waiting PlainStmt → Reader (Waiting PlainStmt)
  | 0, _, _ => stuck
  | fuel + 1, start, stmt => do
    let kind ← peek
    if kind == some .kwIf || kind == some .kwUnless then
      discard advance
      let condition ← readExpr fuel Level.keyword
      readModifiers fuel start (do
        let condition ← condition.tree
        return .conditional start condition [← stmt] [] (kind == some .kwUnless) true false)
    else return stmt
termination_by structural fuel => fuel

def readSimpleStmt : (fuel : Nat) → Reader (Waiting PlainStmt)
  | 0 => stuck
  | fuel + 1 => do
    match ← peek with
    | some .kwDef =>
      let token ← advance
      let name ← expect .name
      let params ← if ← accept .leftParen then readParams fuel .rightParen else pure []
      terminators
      let body ← readStmts fuel
      discard (expect .kwEnd)
      return do return .define token.loc () name.word (← waitAll params) (← body)
    | some .kwIf =>
      let token ← advance
      let condition ← readHead fuel .condition
      thenMark
      let body ← readStmts fuel
      let elseBody ← readElse fuel
      discard (expect .kwEnd)
      return do
        let elseBody ← elseBody
        return .conditional token.loc (← condition.tree) (← body) elseBody false false false
    | some .kwUnless =>
      let token ← advance
      let condition ← readHead fuel .condition
      thenMark
      let body ← readStmts fuel
      let elseBody ← if ← accept .kwElse then readStmts fuel else pure (.ok [])
      discard (expect .kwEnd)
      return do
        let elseBody ← elseBody
        return .conditional token.loc (← condition.tree) (← body) elseBody true false false
    | some .kwWhile =>
      let token ← advance
      let condition ← readHead fuel .condition
      terminators
      let body ← readStmts fuel
      discard (expect .kwEnd)
      return do return .whileLoop token.loc (← condition.tree) (← body)
    | some .kwReturn => readJump fuel .returnJump
    | some .kwBreak => readJump fuel .breakJump
    | some .kwNext => readJump fuel .nextJump
    | _ =>
      let value ← readHead fuel .statement
      return do return .expression value.start (← value.tree)
termination_by structural fuel => fuel

/-- The branches after the first one; each `elsif` is a conditional in the else branch. -/
def readElse : (fuel : Nat) → Reader (Waiting (List PlainStmt))
  | 0 => stuck
  | fuel + 1 => do
    match ← peek with
    | some .kwElsif =>
      let token ← advance
      let condition ← readHead fuel .condition
      thenMark
      let body ← readStmts fuel
      let elseBody ← readElse fuel
      return do
        let elseBody ← elseBody
        return [.conditional token.loc (← condition.tree) (← body) elseBody false false true]
    | some .kwElse =>
      discard advance
      readStmts fuel
    | _ => return .ok []
termination_by structural fuel => fuel

def readJump : (fuel : Nat) → JumpKind → Reader (Waiting PlainStmt)
  | 0, _ => stuck
  | fuel + 1, kind => do
    let token ← advance
    match ← peek with
    | some next =>
      if next.startsExpression then
        let value ← readExpr fuel Level.keyword
        return do return .jump token.loc kind (some (← value.tree))
      else return .ok (.jump token.loc kind none)
    | none => return .ok (.jump token.loc kind none)
termination_by structural fuel => fuel

/-- An expression at the head of a statement, with the forms that only stand there. -/
def readHead : (fuel : Nat) → HeadForms → Reader Phrase
  | 0, _ => stuck
  | fuel + 1, forms => do
    match ← peek with
    | some .command =>
      let token ← advance
      let args ← readOpenArgs fuel
      return ⟨token.loc, do return .call token.loc none token.word (← waitAll args) none false⟩
    | some .kwNot | some .minus | some .bang => readExpr fuel Level.keyword
    | _ =>
      let head ← readPostfix fuel true
      match ← peek with
      | some .dot =>
        discard advance
        let name ← expect .command
        let args ← readOpenArgs fuel
        return ⟨head.start, do
          let receiver ← head.tree
          return .call name.loc (some receiver) name.word (← waitAll args) none false⟩
      | some .assign =>
        if !forms.assignment then stuck else
        discard advance
        let value ← readHead fuel .assigned
        return ⟨head.start, do
          let target ← head.tree >>= assignable
          return .assign head.start target (← value.tree)⟩
      | some .opAssign =>
        if !forms.assignment then stuck else
        let token ← advance
        let value ← readHead fuel .assigned
        return ⟨head.start, do
          let target ← head.tree >>= assignable
          return .opAssign head.start target (assignOperator token) (← value.tree)⟩
      | some .comma =>
        if !forms.severalTargets then stuck else
        let others ← readTargets fuel
        discard (expect .assign)
        let values ← readOpenArgs fuel
        return ⟨head.start, do
          let targets ← waitAll ((head :: others).map fun target => target.tree >>= assignable)
          return .multiAssign head.start targets (← waitAll values)⟩
      | _ => climb fuel Level.power Level.keyword head
termination_by structural fuel => fuel

def readTargets : (fuel : Nat) → Reader (List Phrase)
  | 0 => stuck
  | fuel + 1 => do
    if ← accept .comma then
      let target ← readPostfix fuel false
      return target :: (← readTargets fuel)
    else return []
termination_by structural fuel => fuel

end

/-- The error of a parse that got stuck with some tokens left, given all tokens. -/
def stuckError (tokens left : List Token) : ParseError :=
  match left with
  | [] => .endOfInput ((tokens.getLast?.map Token.loc).getD Loc.start)
  | token :: _ =>
    if token.kind == .terminator then .endOfLine token.loc else .unexpected token.text token.loc

/-- Fuel that suffices for any list of tokens: a token is read after at most so many calls. -/
def parseFuel (tokens : List Token) : Nat := 64 * (tokens.length + 1)

def parseTokens (tokens : List Token) : Except ParseError PlainProgram :=
  match (readStmts (parseFuel tokens)).run tokens with
  | .ok (program, []) => program
  | .ok (_, left) => .error (stuckError tokens left)
  | .error left => .error (stuckError tokens left)

def parse (text : Text) : Except ParseError PlainProgram :=
  match scan text with
  | .error stray => .error (.strayCharacter stray.char stray.loc)
  | .ok tokens => parseTokens (layOut tokens)

end Hoist
