import Stackling.Syntax.Phrase
import Stackling.Token.Reader

/-
  File:     Stackling/Syntax/TopLevel.lean
  Subject:  Reading a whole program.

  At top level stand function declarations, statements, and exactly one declaration of
  `main`, which takes nothing and returns nothing. A second `main` is refused once its block
  has been read; a missing one at the end of the text.

  * `parse`    -- a list of tokens as a program;
  * `readText` -- a text as a program;
  * `Ty.read`  -- a text as a type.
-/
namespace Stackling

open Parse

/-! ## 1. Items -/

/-- What stands at top level. -/
inductive Item
  | function (f : FunctionDecl)
  | global (s : Stmt)
  | main (body : Block)

namespace Item

def function? : Item → Option FunctionDecl
  | function f => some f
  | _ => none

def global? : Item → Option Stmt
  | global s => some s
  | _ => none

def main? : Item → Option Block
  | main body => some body
  | _ => none

end Item

/-- Whether a function declaration starts here. -/
def Stream.atFunction (s : Stream) : Bool :=
  s.kind == .fnWord && s.peek.kind == .identifier

/-- Whether the declaration of `main` starts here. -/
def Stream.atMain (s : Stream) : Bool := s.atFunction && s.peek.value == "main"

/-- The declaration of `main`. -/
def readMain : Parse Block := do
  let _ ← expect .fnWord
  let _ ← expect .identifier
  let _ ← expect .openParen
  if (← get).kind ≠ .closeParen then unexpectedBecause "main takes no parameters"
  discard advance
  if ← eat .colon then
    let place := (← get).place
    let returns ← readType
    if !returns.isVoid then
      failAt (.unexpectedBecause returns.text "main must return void") place
  readBlock

/-- A function declaration. -/
def readFunction : Parse FunctionDecl := do
  let opening ← expect .fnWord
  let name ← expect .identifier
  let params ← readParams
  let _ ← expectOr .colon (unexpectedBecause
    ("expected `: <type>` after the parameters of `" ++ name.value ++ "`"))
  let returns ← readType
  let body ← readBlock
  return ⟨name.value, params, returns, body, ⟨opening.span.start, body.span.stop⟩⟩

/-- What stands at top level next; `seen` tells whether `main` came before. -/
def readItem (seen : Bool) : Parse Item := do
  let s ← get
  if s.atMain then
    let body ← readMain
    if seen then failAt .duplicateMain s.place
    return .main body
  else if s.atFunction then return .function (← readFunction)
  else return .global (← readStmt)

/-- All that stands at top level. Each item takes a token or more, so `fuel` may be the
    number of tokens. -/
def itemsOf : Nat → Bool → Parse (List Item)
  | 0, _ => unexpected
  | fuel + 1, seen => do
    if !(← get).hasTokens then return []
    let item ← readItem seen
    discard (eat .semicolon)
    return item :: (← itemsOf fuel (seen || item.main?.isSome))

/-! ## 2. Programs -/

/-- A whole program. -/
def readProgram : Parse Program := do
  let start := (← get).place
  let items ← itemsOf ((← get).size + 1) false
  let stop := (← get).place
  match items.findSome? Item.main? with
  | none => failHere .missingMain
  | some main =>
    return ⟨items.filterMap Item.function?, items.filterMap Item.global?, main, ⟨start, stop⟩⟩

/-- The result of a reader, without the stream. -/
def Parse.result {α : Type} (reader : Parse α) (s : Stream) : Except SyntaxError α :=
  match reader.run s with
  | .ok a _ => .ok a
  | .error e _ => .error e

/-- A list of tokens as a program. -/
def parse (tokens : List Token) : Except SyntaxError Program :=
  readProgram.result (.ofTokens .standard tokens)

/-- A text as a program. -/
def readText (source : String) : Except SyntaxError Program := tokenize source >>= parse

/-- A text as a type. What follows the type is not looked at. -/
def Ty.read (source : String) : Except SyntaxError Ty := do
  let tokens ← tokenize source
  return (← readType.result (.ofTokens .standard tokens)).toTy

end Stackling
