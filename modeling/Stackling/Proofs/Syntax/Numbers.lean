import Stackling.Syntax.Tree

/-
  File:     Stackling/Proofs/Syntax/Numbers.lean
  Subject:  The numbers of the expressions of a program.

  Every list names the expressions from left to right, an expression after its parts. A
  program is listed in the order in which it is analysed: the statements at top level, the
  bodies of the functions, the block of `main`.
-/
namespace Stackling

mutual
/-- The numbers of an expression and of all expressions in it. -/
def Expr.ids : Expr → List Nat
  | .int node _ | .text node _ | .char node _ | .bool node _ | .name node _ => [node.id]
  | .binary node _ left right => left.ids ++ right.ids ++ [node.id]
  | .array node items => itemIds items ++ [node.id]
  | .hash node entries => entryIds entries ++ [node.id]
  | .fn node _ _ body => body.ids ++ [node.id]
  | .index node target key => target.ids ++ key.ids ++ [node.id]
  | .call node callee args => callee.ids ++ itemIds args ++ [node.id]

/-- The numbers in a list of expressions. -/
def itemIds : List Expr → List Nat
  | [] => []
  | e :: rest => e.ids ++ itemIds rest

/-- The numbers in the entries of a hash. -/
def entryIds : List (Expr × Expr) → List Nat
  | [] => []
  | (k, v) :: rest => k.ids ++ v.ids ++ entryIds rest

/-- The numbers in a statement. -/
def Stmt.ids : Stmt → List Nat
  | .declare _ _ _ _ value | .expr value | .print _ value => value.ids
  | .returns _ none => []
  | .returns _ (some value) => value.ids
  | .branch _ condition yes none => condition.ids ++ yes.ids
  | .branch _ condition yes (some no) => condition.ids ++ yes.ids ++ no.ids
  | .block body => body.ids

/-- The numbers in a block. -/
def Block.ids : Block → List Nat
  | .mk body _ => stmtIds body

/-- The numbers in a list of statements. -/
def stmtIds : List Stmt → List Nat
  | [] => []
  | s :: rest => s.ids ++ stmtIds rest
end

/-- The numbers in the bodies of some functions. -/
def functionIds : List FunctionDecl → List Nat
  | [] => []
  | f :: rest => f.body.ids ++ functionIds rest

/-- The numbers of all expressions of a program. -/
def Program.ids (p : Program) : List Nat :=
  stmtIds p.globals ++ functionIds p.functions ++ p.main.ids

theorem Block.ids_eq (b : Block) : b.ids = stmtIds b.body := by
  obtain ⟨body, span⟩ := b
  rw [Block.ids, Block.body]

end Stackling
