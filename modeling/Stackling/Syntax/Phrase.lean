import Stackling.Syntax.Stream
import Stackling.Text.Decimal

/-
  File:     Stackling/Syntax/Phrase.lean
  Subject:  Reading types, expressions, statements and blocks.

  An expression is a head followed by tails: the head is read by the rule its first token
  has, and tails are added for as long as the next token binds more tightly than the context
  does. The right operand of an operator is read at the power of the operator, so that
  operators of one power associate to the left.

  Every reader takes `fuel`, the depth that nested readers may still reach. No nesting takes
  more than a few readers for each token, so `Stream.budget` is never used up.

  * `readType`  -- a type annotation;
  * `readExpr`  -- an expression in a context of a given power;
  * `readStmt`  -- a statement, with the semicolon after it if there is one;
  * `readBlock` -- a block.
-/
namespace Stackling

open Parse

/-- A depth that no reader on the stream reaches. -/
def Stream.budget (s : Stream) : Nat := 8 * (s.size + 1)

/-! ## 1. Types -/

mutual
/-- A type annotation. -/
def typeWith : Nat → Parse TypeExpr
  | 0 => unexpected
  | fuel + 1 => do
    let s ← get
    match s.grammar.type? s.kind with
    | none => unexpectedBecause "expected a type"
    | some .named =>
      let token ← expect .identifier
      match token.value with
      | "int" => return .int
      | "string" => return .string
      | "bool" => return .bool
      | "char" => return .char
      | "void" => return .void
      | "array" =>
        let _ ← expect .less
        let element ← typeWith fuel
        let _ ← expect .greater
        return .array element
      | "hash" =>
        let _ ← expect .less
        let key ← typeWith fuel
        let _ ← expect .comma
        let value ← typeWith fuel
        let _ ← expect .greater
        return .hash key value
      | name => failAt (.unknownType name) token.span.start
    | some .function =>
      let _ ← expect .fnWord
      let _ ← expect .openParen
      let params ← typesWith fuel
      let _ ← expect .closeParen
      let _ ← expect .colon
      let returns ← typeWith fuel
      return .fn params returns

/-- Annotations with commas between them, up to a closing parenthesis. -/
def typesWith : Nat → Parse (List TypeExpr)
  | 0 => unexpected
  | fuel + 1 => do
    if (← get).kind = .closeParen then return []
    let first ← typeWith fuel
    if ← eat .comma then return first :: (← typesWith fuel)
    return [first]
end

/-- A type annotation. -/
def readType : Parse TypeExpr := do typeWith (← get).budget

/-! ## 2. Parameters -/

/-- Parameters with commas between them, up to a closing parenthesis. -/
def paramsWith : Nat → Parse (List Param)
  | 0 => unexpected
  | fuel + 1 => do
    if (← get).kind = .closeParen then return []
    let name ← expect .identifier
    let _ ← expect .colon
    let written ← readType
    let span ← spanFrom name.span.start
    let first : Param := ⟨name.value, written, span⟩
    if ← eat .comma then return first :: (← paramsWith fuel)
    return [first]

/-- Parameters in their parentheses. -/
def readParams : Parse (List Param) := do
  let _ ← expect .openParen
  let params ← paramsWith (← get).budget
  let _ ← expect .closeParen
  return params

/-! ## 3. Words -/

/-- A literal or a name. The number of the expression is taken before the token is looked at. -/
def readPrimary : Parse Expr := do
  let id ← freshId
  let token := (← get).current
  let node : Node := ⟨id, token.span⟩
  let expr ← match token.kind with
    | .number =>
      match Text.readDecimal? token.value.toList with
      | some value => pure (Expr.int node value)
      | none => failHere (.badNumber token.value)
    | .identifier => pure (Expr.name node token.value)
    | .text => pure (Expr.text node token.value)
    | .character =>
      match token.value.toList.head? with
      | some value => pure (Expr.char node value)
      | none => failHere (.badCharacter token.value)
    | .trueWord => pure (Expr.bool node true)
    | .falseWord => pure (Expr.bool node false)
    | _ => unexpected
  discard advance
  return expr

/-- The number and the stretch of an expression that started at `start` and has just ended. -/
def finishNode (start : Position) : Parse Node := do
  let id ← freshId
  return ⟨id, ← spanFrom start⟩

/-! ## 4. Expressions, statements and blocks -/

mutual
/-- An expression in a context of the given power. -/
def exprWith : Nat → Power → Parse Expr
  | 0, _ => unexpected
  | fuel + 1, power => do
    let head ← headWith fuel
    tailsWith fuel power head

/-- The head of an expression. -/
def headWith : Nat → Parse Expr
  | 0 => unexpected
  | fuel + 1 => do
    let s ← get
    match s.grammar.head? s.kind with
    | none => unexpected
    | some .primary => readPrimary
    | some .group =>
      discard advance
      let inner ← exprWith fuel .default
      let _ ← expect .closeParen
      return inner
    | some .array =>
      let opening ← advance
      let items ← itemsWith fuel .closeBracket
      let _ ← expect .closeBracket
      return .array (← finishNode opening.span.start) items
    | some .hash =>
      let opening ← advance
      let entries ← entriesWith fuel
      let _ ← expect .closeCurly
      return .hash (← finishNode opening.span.start) entries
    | some .function =>
      let opening ← advance
      let params ← readParams
      let _ ← expect .colon
      let returns ← readType
      let body ← blockWith fuel
      let id ← freshId
      return .fn ⟨id, ⟨opening.span.start, body.span.stop⟩⟩ params returns body

/-- The expression `left` with the tails that bind more tightly than the context. -/
def tailsWith : Nat → Power → Expr → Parse Expr
  | 0, _, _ => unexpected
  | fuel + 1, power, left => do
    let s ← get
    match s.grammar.tail? s.kind with
    | none => return left
    | some rule =>
      if rule.power.rank ≤ power.rank then return left
      discard advance
      match rule with
      | .binary op =>
        let right ← exprWith fuel rule.power
        let id ← freshId
        let node : Node := ⟨id, ⟨left.span.start, right.span.stop⟩⟩
        tailsWith fuel power (.binary node op left right)
      | .call =>
        let args ← itemsWith fuel .closeParen
        let _ ← expect .closeParen
        let node ← finishNode left.span.start
        tailsWith fuel power (.call node left args)
      | .index =>
        let key ← exprWith fuel .default
        let _ ← expect .closeBracket
        let node ← finishNode left.span.start
        tailsWith fuel power (.index node left key)

/-- Expressions with commas between them, up to the closing token. -/
def itemsWith : Nat → TokenKind → Parse (List Expr)
  | 0, _ => unexpected
  | fuel + 1, closing => do
    if (← get).kind = closing then return []
    let first ← exprWith fuel .default
    if ← eat .comma then return first :: (← itemsWith fuel closing)
    return [first]

/-- Keys and values with commas between them, up to a closing curly bracket. -/
def entriesWith : Nat → Parse (List (Expr × Expr))
  | 0 => unexpected
  | fuel + 1 => do
    if (← get).kind = .closeCurly then return []
    let key ← exprWith fuel .default
    let _ ← expect .colon
    let value ← exprWith fuel .default
    if ← eat .comma then return (key, value) :: (← entriesWith fuel)
    return [(key, value)]

/-- A block. -/
def blockWith : Nat → Parse Block
  | 0 => unexpected
  | fuel + 1 => do
    let opening ← expect .openCurly
    let body ← stmtsWith fuel
    let _ ← expect .closeCurly
    return .mk body (← spanFrom opening.span.start)

/-- Statements up to a closing curly bracket. -/
def stmtsWith : Nat → Parse (List Stmt)
  | 0 => unexpected
  | fuel + 1 => do
    if (← get).kind = .closeCurly then return []
    let first ← stmtWith fuel
    return first :: (← stmtsWith fuel)

/-- A statement, with the semicolon after it if there is one. -/
def stmtWith : Nat → Parse Stmt
  | 0 => unexpected
  | fuel + 1 => do
    let s ← get
    let stmt ← match s.grammar.stmt? s.kind with
      | none => Stmt.expr <$> exprWith fuel .default
      | some .block => Stmt.block <$> blockWith fuel
      | some .declaration => declarationWith fuel
      | some .branch => branchWith fuel
      | some .returns => returnWith fuel
      | some .print => printWith fuel
    discard (eat .semicolon)
    return stmt

/-- A declaration: `let`, `let const` and `const` may start it, the last two for a constant. -/
def declarationWith : Nat → Parse Stmt
  | 0 => unexpected
  | fuel + 1 => do
    let opening ← advance
    let constant ← if opening.kind = .constWord then pure true else eat .constWord
    let name ← expectOr .identifier
      (unexpectedBecause "expected identifier during variable declaration")
    let _ ← expectOr .colon (unexpectedBecause "every declaration needs an explicit type")
    let written ← readType
    let _ ← expect .assignment
    let value ← exprWith fuel .default
    return .declare (← spanFrom opening.span.start) constant name.value written value

/-- A branch, with or without the block for the other case. -/
def branchWith : Nat → Parse Stmt
  | 0 => unexpected
  | fuel + 1 => do
    let opening ← advance
    let condition ← exprWith fuel .default
    let yes ← blockWith fuel
    let no ← if ← eat .elseWord then some <$> blockWith fuel else pure none
    return .branch (← spanFrom opening.span.start) condition yes no

/-- A return. Its value has to start on the line of the return itself. -/
def returnWith : Nat → Parse Stmt
  | 0 => unexpected
  | fuel + 1 => do
    let opening ← advance
    let s ← get
    let hasValue := s.current.span.line = opening.span.line ∧ (s.grammar.head? s.kind).isSome
    let value ← if hasValue then some <$> exprWith fuel .default else pure none
    return .returns (← spanFrom opening.span.start) value

/-- A print statement. -/
def printWith : Nat → Parse Stmt
  | 0 => unexpected
  | fuel + 1 => do
    let opening ← advance
    let _ ← expect .openParen
    let value ← exprWith fuel .default
    let _ ← expect .closeParen
    return .print (← spanFrom opening.span.start) value
end

/-- An expression in a context of the given power. -/
def readExpr (power : Power) : Parse Expr := do exprWith (← get).budget power

/-- A statement, with the semicolon after it if there is one. -/
def readStmt : Parse Stmt := do stmtWith (← get).budget

/-- A block. -/
def readBlock : Parse Block := do blockWith (← get).budget

end Stackling
