import Stackling.Proofs.Courses
import Stackling.Syntax.TopLevel

/-
  File:     Stackling/Proofs/Syntax/Unbounded.lean
  Subject:  Reading without a bound on the depth of nesting.

  These readers call each other as often as the text makes them, and nothing says that they ever
  come to an end: `Unbounded.on` has no outcome where they do not. Apart from that they take the
  same tokens, number the same expressions and fail with the same words as the readers that count.

  An expression can be put together in two ways:

  * `Way.climbing` -- one loop adds tails to a head, for as long as the next token binds more
                      tightly than the context;
  * `Way.layered`  -- one level for each power, each of which reads a chain of the level above it
                      and folds it to the left. It asks no table how tightly a token binds: each
                      level has operators of its own, those of `link?`, and reads their operands
                      one level up.

  The readers that call themselves, directly or through others, are those of `ReaderCall`; what
  each of them does is its `body`, and all other readers are written in terms of these calls.
-/
namespace Stackling

open Parse

/-! ## 1. Readers that may go on for ever -/

/-- What a reader gives, or its error, and where the stream stands then. -/
abbrev Reading (α : Type) := Except SyntaxError α × Stream

/-- What a reader that counts does to a stream. -/
def Parse.outcome {α : Type} (m : Parse α) (s : Stream) : Reading α :=
  match m s with
  | .ok x t => (.ok x, t)
  | .error e t => (.error e, t)

/-- How the tails of an expression are put behind its head. -/
inductive Way
  | climbing | layered

/-- The readers that call themselves. -/
inductive ReaderCall
  | type
  | types
  | params
  | expr (way : Way) (power : Power)
  | climb (power : Power) (left : Expr)
  | chain (power : Power) (left : Expr)
  | items (way : Way) (closing : TokenKind)
  | entries (way : Way)
  | stmts (way : Way)
  | itemsOf (way : Way) (seen : Bool)

/-- What is read by a call. -/
abbrev ReaderCall.Tree : ReaderCall → Type
  | .type => TypeExpr
  | .types => List TypeExpr
  | .params => List Param
  | .expr _ _ | .climb _ _ | .chain _ _ => Expr
  | .items _ _ => List Expr
  | .entries _ => List (Expr × Expr)
  | .stmts _ => List Stmt
  | .itemsOf _ _ => List Item

/-- What happens to a stream, with calls of readers on it. -/
abbrev ReaderCourse := Course fun c : ReaderCall × Stream => Reading c.1.Tree

/-- **A reader of tokens that need not come to an end.** -/
abbrev Unbounded := ExceptT SyntaxError (StateT Stream ReaderCourse)

instance : MonadLift Parse Unbounded where
  monadLift m := ExceptT.mk fun s => .ended (m.outcome s)

namespace Unbounded

/-- A call of a reader. -/
def call (c : ReaderCall) : Unbounded c.Tree := ExceptT.mk fun s => .waits (c, s) .ended

/-- A type annotation. -/
def type : Unbounded TypeExpr := call .type

/-- Annotations with commas between them, up to a closing parenthesis. -/
def types : Unbounded (List TypeExpr) := call .types

/-- Parameters with commas between them, up to a closing parenthesis. -/
def params : Unbounded (List Param) := call .params

/-- **An expression in a context of the given power.** -/
def expr (way : Way) (power : Power) : Unbounded Expr := call (.expr way power)

/-- The expression `left` with the tails that bind more tightly than the context. -/
def climb (power : Power) (left : Expr) : Unbounded Expr := call (.climb power left)

/-- **The chain that `left` starts:** the tails of one level, folded to the left. -/
def chain (power : Power) (left : Expr) : Unbounded Expr := call (.chain power left)

/-- Expressions with commas between them, up to the closing token. -/
def items (way : Way) (closing : TokenKind) : Unbounded (List Expr) := call (.items way closing)

/-- Keys and values with commas between them, up to a closing curly bracket. -/
def entries (way : Way) : Unbounded (List (Expr × Expr)) := call (.entries way)

/-- Statements up to a closing curly bracket. -/
def stmts (way : Way) : Unbounded (List Stmt) := call (.stmts way)

/-- All that stands at top level; `seen` tells whether `main` came before. -/
def itemsOf (way : Way) (seen : Bool) : Unbounded (List Item) := call (.itemsOf way seen)

/-! ## 2. Phrases -/

/-- A parameter. -/
def param : Unbounded Param := do
  let name ← expect .identifier
  let _ ← expect .colon
  let written ← type
  let span ← spanFrom name.span.start
  return ⟨name.value, written, span⟩

/-- Parameters in their parentheses. -/
def enclosedParams : Unbounded (List Param) := do
  let _ ← expect .openParen
  let params ← params
  let _ ← expect .closeParen
  return params

/-- A block. -/
def block (way : Way) : Unbounded Block := do
  let opening ← expect .openCurly
  let body ← stmts way
  let _ ← expect .closeCurly
  return .mk body (← spanFrom opening.span.start)

/-- The head of an expression. -/
def head (way : Way) : Unbounded Expr := do
  let s ← get
  match s.grammar.head? s.kind with
  | none => unexpected
  | some .primary => readPrimary
  | some .group =>
    let _ ← advance
    let inner ← expr way .default
    let _ ← expect .closeParen
    return inner
  | some .array =>
    let opening ← advance
    let items ← items way .closeBracket
    let _ ← expect .closeBracket
    return .array (← finishNode opening.span.start) items
  | some .hash =>
    let opening ← advance
    let entries ← entries way
    let _ ← expect .closeCurly
    return .hash (← finishNode opening.span.start) entries
  | some .function =>
    let opening ← advance
    let params ← enclosedParams
    let _ ← expect .colon
    let returns ← type
    let body ← block way
    let id ← freshId
    return .fn ⟨id, ⟨opening.span.start, body.span.stop⟩⟩ params returns body

/-- One tail of the expression `left`, whose first token has been read. The operand of an operator
    is read in a context of the given power. -/
def tail (way : Way) (power : Power) (left : Expr) (rule : TailRule) : Unbounded Expr := do
  match rule with
  | .binary op =>
    let right ← expr way power
    let id ← freshId
    return .binary ⟨id, ⟨left.span.start, right.span.stop⟩⟩ op left right
  | .call =>
    let args ← items way .closeParen
    let _ ← expect .closeParen
    return .call (← finishNode left.span.start) left args
  | .index =>
    let key ← expr way .default
    let _ ← expect .closeBracket
    return .index (← finishNode left.span.start) left key

/-- **The operators of each level:** the tails a chain of it is made of, each with the token it
    starts with. -/
def link? : Power → TokenKind → Option TailRule
  | .relational, .equals => some (.binary .equal)
  | .relational, .notEquals => some (.binary .notEqual)
  | .relational, .less => some (.binary .less)
  | .relational, .lessEquals => some (.binary .lessEqual)
  | .relational, .greater => some (.binary .greater)
  | .relational, .greaterEquals => some (.binary .greaterEqual)
  | .additive, .plus => some (.binary .add)
  | .additive, .dash => some (.binary .sub)
  | .multiplicative, .star => some (.binary .mul)
  | .multiplicative, .slash => some (.binary .div)
  | .call, .openParen => some .call
  | .call, .openBracket => some .index
  | _, _ => none

/-- A head with calls and indices behind it. -/
def access : Unbounded Expr := do chain .call (← head .layered)

/-- A chain of factors. -/
def product : Unbounded Expr := do chain .multiplicative (← access)

/-- A chain of products. -/
def sum : Unbounded Expr := do chain .additive (← product)

/-- A chain of sums. -/
def comparison : Unbounded Expr := do chain .relational (← sum)

/-- **The levels of expressions,** one for each power of the context. -/
def level : Power → Unbounded Expr
  | .default => comparison
  | .relational => sum
  | .additive => product
  | .multiplicative => access
  | .call | .primary => head .layered

/-- A key with its value. -/
def entry (way : Way) : Unbounded (Expr × Expr) := do
  let key ← expr way .default
  let _ ← expect .colon
  let value ← expr way .default
  return (key, value)

/-- A declaration. -/
def declaration (way : Way) : Unbounded Stmt := do
  let opening ← advance
  let constant ← if opening.kind = .constWord then pure true else eat .constWord
  let name ← expectOr .identifier
    (unexpectedBecause "expected identifier during variable declaration")
  let _ ← expectOr .colon (unexpectedBecause "every declaration needs an explicit type")
  let written ← type
  let _ ← expect .assignment
  let value ← expr way .default
  return .declare (← spanFrom opening.span.start) constant name.value written value

/-- What stands behind the first block of a branch. -/
def otherwise (way : Way) : Unbounded (Option Block) := do
  if ← eat .elseWord then return some (← block way)
  return none

/-- A branch, with or without the block for the other case. -/
def branch (way : Way) : Unbounded Stmt := do
  let opening ← advance
  let condition ← expr way .default
  let yes ← block way
  let no ← otherwise way
  return .branch (← spanFrom opening.span.start) condition yes no

/-- A return. Its value has to start on the line of the return itself. -/
def returns (way : Way) : Unbounded Stmt := do
  let opening ← advance
  let s ← get
  if s.current.span.line = opening.span.line ∧ (s.grammar.head? s.kind).isSome then
    let value ← expr way .default
    return .returns (← spanFrom opening.span.start) (some value)
  return .returns (← spanFrom opening.span.start) none

/-- A print statement. -/
def print (way : Way) : Unbounded Stmt := do
  let opening ← advance
  let _ ← expect .openParen
  let value ← expr way .default
  let _ ← expect .closeParen
  return .print (← spanFrom opening.span.start) value

/-- A statement, with the semicolon after it if there is one. -/
def stmt (way : Way) : Unbounded Stmt := do
  let s ← get
  let stmt ← match s.grammar.stmt? s.kind with
    | none => Stmt.expr <$> expr way .default
    | some .block => Stmt.block <$> block way
    | some .declaration => declaration way
    | some .branch => branch way
    | some .returns => returns way
    | some .print => print way
  let _ ← eat .semicolon
  return stmt

/-! ## 3. Programs -/

/-- The declaration of `main`. -/
def main (way : Way) : Unbounded Block := do
  let _ ← expect .fnWord
  let _ ← expect .identifier
  let _ ← expect .openParen
  if (← get).kind ≠ .closeParen then unexpectedBecause "main takes no parameters"
  let _ ← advance
  if ← eat .colon then
    let place := (← get).place
    let returns ← type
    if !returns.isVoid then
      failAt (.unexpectedBecause returns.text "main must return void") place
  block way

/-- A function declaration. -/
def function (way : Way) : Unbounded FunctionDecl := do
  let opening ← expect .fnWord
  let name ← expect .identifier
  let params ← enclosedParams
  let _ ← expectOr .colon (unexpectedBecause
    ("expected `: <type>` after the parameters of `" ++ name.value ++ "`"))
  let returns ← type
  let body ← block way
  return ⟨name.value, params, returns, body, ⟨opening.span.start, body.span.stop⟩⟩

/-- What stands at top level next; `seen` tells whether `main` came before. -/
def item (way : Way) (seen : Bool) : Unbounded Item := do
  let s ← get
  if s.atMain then
    let body ← main way
    if seen then failAt .duplicateMain s.place
    return .main body
  else if s.atFunction then return .function (← function way)
  else return .global (← stmt way)

/-- **A whole program.** -/
def program (way : Way) : Unbounded Program := do
  let start := (← get).place
  let items ← itemsOf way false
  let stop := (← get).place
  match items.findSome? Item.main? with
  | none => failHere .missingMain
  | some main =>
    return ⟨items.filterMap Item.function?, items.filterMap Item.global?, main, ⟨start, stop⟩⟩

/-! ## 4. Calls -/

/-- **What a call does,** up to the calls it makes itself. -/
def body : (c : ReaderCall) → Unbounded c.Tree
  | .type => do
    let s ← get
    match s.grammar.type? s.kind with
    | none => unexpectedBecause "expected a type"
    | some .named =>
      let token ← expect .identifier
      match token.value with
      | "int" => return .int
      | "string" => return .string
      | "bool" => return .bool
      | "char" => return .char
      | "void" => return .void
      | "array" =>
        let _ ← expect .less
        let element ← type
        let _ ← expect .greater
        return .array element
      | "hash" =>
        let _ ← expect .less
        let key ← type
        let _ ← expect .comma
        let value ← type
        let _ ← expect .greater
        return .hash key value
      | name => failAt (.unknownType name) token.span.start
    | some .function =>
      let _ ← expect .fnWord
      let _ ← expect .openParen
      let params ← types
      let _ ← expect .closeParen
      let _ ← expect .colon
      let returns ← type
      return .fn params returns
  | .types => do
    if (← get).kind = .closeParen then return []
    let first ← type
    if ← eat .comma then return first :: (← types)
    return [first]
  | .params => do
    if (← get).kind = .closeParen then return []
    let first ← param
    if ← eat .comma then return first :: (← params)
    return [first]
  | .expr .climbing power => do climb power (← head .climbing)
  | .expr .layered power => level power
  | .climb power left => do
    let s ← get
    match s.grammar.tail? s.kind with
    | none => return left
    | some rule =>
      if rule.power.rank ≤ power.rank then return left
      let _ ← advance
      climb power (← tail .climbing rule.power left rule)
  | .chain power left => do
    match link? power (← get).kind with
    | none => return left
    | some rule =>
      let _ ← advance
      chain power (← tail .layered power left rule)
  | .items way closing => do
    if (← get).kind = closing then return []
    let first ← expr way .default
    if ← eat .comma then return first :: (← items way closing)
    return [first]
  | .entries way => do
    if (← get).kind = .closeCurly then return []
    let first ← entry way
    if ← eat .comma then return first :: (← entries way)
    return [first]
  | .stmts way => do
    if (← get).kind = .closeCurly then return []
    let first ← stmt way
    return first :: (← stmts way)
  | .itemsOf way seen => do
    if !(← get).hasTokens then return []
    let item ← item way seen
    let _ ← eat .semicolon
    return item :: (← itemsOf way (seen || item.main?.isSome))

/-- **The outcome of a reader,** if it comes to an end. -/
noncomputable def on {α : Type} (m : Unbounded α) (s : Stream) : Option (Reading α) :=
  (m.run.run s).result fun c => (body c.1).run.run c.2

end Unbounded

end Stackling
