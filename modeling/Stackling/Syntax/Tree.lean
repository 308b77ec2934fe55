import Stackling.Token
import Stackling.Syntax.TypeExpr

/-
  File:     Stackling/Syntax/Tree.lean
  Subject:  Programs as trees.

  * `BinaryOp`        -- the ten operators, with the kind of token each is written as;
  * `Expr`, `Stmt`, `Block` -- expressions, statements and blocks, each with its stretch of
                         the source; an expression also has a number of its own, under
                         which the analyser files its type;
  * `Program`         -- functions, statements at top level, and the main block.

  An operation keeps its operator, and not the token that was read as one: the stretch of this
  token is left out of the tree, and so is its text, which is the `sign` of the operator. There
  are none but the ten, so the checker has no case for an unknown operator: it cannot arise.
-/
namespace Stackling

/-! ## 1. Operators -/

/-- The operators between two operands. -/
inductive BinaryOp
  | add | sub | mul | div
  | equal | notEqual | less | lessEqual | greater | greaterEqual
  deriving DecidableEq

namespace BinaryOp

/-- The token an operator is written as. -/
def kind : BinaryOp → TokenKind
  | add => .plus
  | sub => .dash
  | mul => .star
  | div => .slash
  | equal => .equals
  | notEqual => .notEquals
  | less => .less
  | lessEqual => .lessEquals
  | greater => .greater
  | greaterEqual => .greaterEquals

/-- An operator as it is written. -/
def sign : BinaryOp → String
  | add => "+"
  | sub => "-"
  | mul => "*"
  | div => "/"
  | equal => "=="
  | notEqual => "!="
  | less => "<"
  | lessEqual => "<="
  | greater => ">"
  | greaterEqual => ">="

/-- The sign of an operator is the text of its token. -/
theorem kind_text? (op : BinaryOp) : op.kind.text? = some op.sign := by cases op <;> rfl

end BinaryOp

/-! ## 2. Expressions and statements -/

/-- What every expression carries: a number no other expression of the program has, and its
    stretch of the source. -/
structure Node where
  id : Nat
  span : Span
  deriving DecidableEq

/-- The line an expression is reported under. -/
def Node.line (n : Node) : Nat := n.span.line

/-- A parameter of a function. -/
structure Param where
  name : String
  written : TypeExpr
  span : Span

mutual
/-- An expression. -/
inductive Expr
  | int (node : Node) (value : Int64)
  | text (node : Node) (value : String)
  | char (node : Node) (value : Char)
  | bool (node : Node) (value : Bool)
  | name (node : Node) (value : String)
  | binary (node : Node) (op : BinaryOp) (left right : Expr)
  | array (node : Node) (items : List Expr)
  | hash (node : Node) (entries : List (Expr × Expr))
  | fn (node : Node) (params : List Param) (returns : TypeExpr) (body : Block)
  | index (node : Node) (target key : Expr)
  | call (node : Node) (callee : Expr) (args : List Expr)

/-- A statement. -/
inductive Stmt
  | declare (span : Span) (constant : Bool) (name : String) (written : TypeExpr)
      (value : Expr)
  | returns (span : Span) (value : Option Expr)
  | expr (value : Expr)
  | branch (span : Span) (condition : Expr) (yes : Block) (no : Option Block)
  | print (span : Span) (value : Expr)
  | block (body : Block)

/-- Statements between curly brackets. -/
inductive Block
  | mk (body : List Stmt) (span : Span)
end

/-- What an expression carries. -/
def Expr.node : Expr → Node
  | .int n _ | .text n _ | .char n _ | .bool n _ | .name n _ | .binary n _ _ _ | .array n _
  | .hash n _ | .fn n _ _ _ | .index n _ _ | .call n _ _ => n

def Expr.id (e : Expr) : Nat := e.node.id

def Expr.span (e : Expr) : Span := e.node.span

def Block.body : Block → List Stmt
  | .mk body _ => body

def Block.span : Block → Span
  | .mk _ span => span

/-- The stretch of a statement. -/
def Stmt.span : Stmt → Span
  | .declare s _ _ _ _ | .returns s _ | .branch s _ _ _ | .print s _ => s
  | .expr value => value.span
  | .block body => body.span

/-! ## 3. Programs -/

/-- A function declared at top level. -/
structure FunctionDecl where
  name : String
  params : List Param
  returns : TypeExpr
  body : Block
  span : Span

/-- A whole program. -/
structure Program where
  functions : List FunctionDecl
  globals : List Stmt
  main : Block
  span : Span

end Stackling
