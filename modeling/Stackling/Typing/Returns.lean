import Stackling.Syntax.Tree

/-
  File:     Stackling/Typing/Returns.lean
  Subject:  Blocks that always return.

  A block always returns if one of its statements does: a return, a block that always
  returns, or a branch with two blocks that both do.
-/
namespace Stackling

mutual
/-- Whether every way through a statement ends in a return. -/
def Stmt.alwaysReturns : Stmt → Bool
  | .returns _ _ => true
  | .block body => body.alwaysReturns
  | .branch _ _ yes (some no) => yes.alwaysReturns && no.alwaysReturns
  | .branch _ _ _ none => false
  | .declare .. | .expr _ | .print .. => false

/-- Whether every way through a block ends in a return. -/
def Block.alwaysReturns : Block → Bool
  | .mk body _ => anyAlwaysReturns body

/-- Whether one of the statements always returns. -/
def anyAlwaysReturns : List Stmt → Bool
  | [] => false
  | s :: rest => s.alwaysReturns || anyAlwaysReturns rest
end

/-- Some statements always return exactly if one of them does. -/
theorem anyAlwaysReturns_eq_any (body : List Stmt) :
    anyAlwaysReturns body = body.any Stmt.alwaysReturns := by
  induction body with
  | nil => rfl
  | cons s rest ih => simp [anyAlwaysReturns, ih]

end Stackling
