import Stackling.Syntax.TopLevel

/-
  File:     Stackling/Proofs/Syntax/Moved.lean
  Subject:  Trees with other places.

  A tree is moved by giving each place in it to a function, and all else stays. Two trees that are
  the same once they are moved differ in places only that the function does not tell apart: with
  the identity they are the same, and with a function that is constant they are the same up to
  their stretches.

  * `Expr.moved`, `Stmt.moved`, `Block.moved` -- phrases with other places;
  * `Program.moved_id`                        -- the places that were there.
-/
namespace Stackling

variable (f : Position → Position)

/-! ## 1. Moving -/

def Span.moved (s : Span) : Span := ⟨f s.start, f s.stop⟩

def Token.moved (t : Token) : Token := ⟨t.kind, t.value, t.span.moved f⟩

def Node.moved (n : Node) : Node := ⟨n.id, n.span.moved f⟩

def Param.moved (p : Param) : Param := ⟨p.name, p.written, p.span.moved f⟩

/-- A failure at another place. -/
def SyntaxError.moved (e : SyntaxError) : SyntaxError := ⟨e.cause, f e.place⟩

mutual
/-- **An expression with other places.** -/
def Expr.moved : Expr → Expr
  | .int node value => .int (node.moved f) value
  | .text node value => .text (node.moved f) value
  | .char node value => .char (node.moved f) value
  | .bool node value => .bool (node.moved f) value
  | .name node value => .name (node.moved f) value
  | .binary node op left right => .binary (node.moved f) op left.moved right.moved
  | .array node items => .array (node.moved f) (itemsMoved items)
  | .hash node entries => .hash (node.moved f) (entriesMoved entries)
  | .fn node params returns body =>
    .fn (node.moved f) (params.map (Param.moved f)) returns body.moved
  | .index node target key => .index (node.moved f) target.moved key.moved
  | .call node callee args => .call (node.moved f) callee.moved (itemsMoved args)

def itemsMoved : List Expr → List Expr
  | [] => []
  | e :: rest => e.moved :: itemsMoved rest

def entriesMoved : List (Expr × Expr) → List (Expr × Expr)
  | [] => []
  | (k, v) :: rest => (k.moved, v.moved) :: entriesMoved rest

/-- **A statement with other places.** -/
def Stmt.moved : Stmt → Stmt
  | .declare span constant name written value =>
    .declare (span.moved f) constant name written value.moved
  | .returns span none => .returns (span.moved f) none
  | .returns span (some value) => .returns (span.moved f) (some value.moved)
  | .expr value => .expr value.moved
  | .branch span condition yes none => .branch (span.moved f) condition.moved yes.moved none
  | .branch span condition yes (some no) =>
    .branch (span.moved f) condition.moved yes.moved (some no.moved)
  | .print span value => .print (span.moved f) value.moved
  | .block body => .block body.moved

/-- **A block with other places.** -/
def Block.moved : Block → Block
  | .mk body span => .mk (stmtsMoved body) (span.moved f)

def stmtsMoved : List Stmt → List Stmt
  | [] => []
  | s :: rest => s.moved :: stmtsMoved rest
end

def FunctionDecl.moved (d : FunctionDecl) : FunctionDecl :=
  ⟨d.name, d.params.map (Param.moved f), d.returns, d.body.moved f, d.span.moved f⟩

def Item.moved : Item → Item
  | .function d => .function (d.moved f)
  | .global s => .global (s.moved f)
  | .main body => .main (body.moved f)

/-- **A program with other places.** -/
def Program.moved (p : Program) : Program :=
  ⟨p.functions.map (FunctionDecl.moved f), p.globals.map (Stmt.moved f), p.main.moved f,
    p.span.moved f⟩

/-! ## 2. Parts of what was moved -/

theorem itemsMoved_eq_map (items : List Expr) : itemsMoved f items = items.map (Expr.moved f) := by
  induction items with
  | nil => rfl
  | cons e rest ih => rw [itemsMoved, ih, List.map_cons]

theorem entriesMoved_eq_map (entries : List (Expr × Expr)) :
    entriesMoved f entries = entries.map fun e => (e.1.moved f, e.2.moved f) := by
  induction entries with
  | nil => rfl
  | cons e rest ih => rw [entriesMoved, ih, List.map_cons]

theorem stmtsMoved_eq_map (body : List Stmt) : stmtsMoved f body = body.map (Stmt.moved f) := by
  induction body with
  | nil => rfl
  | cons s rest ih => rw [stmtsMoved, ih, List.map_cons]

theorem Stmt.moved_branch (span : Span) (condition : Expr) (yes : Block) (no : Option Block) :
    (Stmt.branch span condition yes no).moved f =
      .branch (span.moved f) (condition.moved f) (yes.moved f) (no.map (Block.moved f)) := by
  cases no <;> rw [Stmt.moved] <;> rfl

theorem Expr.moved_span (e : Expr) : (e.moved f).span = e.span.moved f := by
  cases e <;> rw [Expr.moved] <;> rfl

theorem Block.moved_span (b : Block) : (b.moved f).span = b.span.moved f := by
  cases b
  rw [Block.moved]
  rfl

theorem Item.moved_isMain (x : Item) : (x.moved f).main?.isSome = x.main?.isSome := by
  cases x <;> rfl

theorem itemsMoved_main (items : List Item) : (items.map (Item.moved f)).findSome? Item.main? =
    (items.findSome? Item.main?).map (Block.moved f) := by
  induction items with
  | nil => rfl
  | cons x rest ih =>
    rw [List.map_cons, List.findSome?_cons, List.findSome?_cons, ih]
    cases x <;> rfl

theorem itemsMoved_functions (items : List Item) :
    (items.map (Item.moved f)).filterMap Item.function? =
      (items.filterMap Item.function?).map (FunctionDecl.moved f) := by
  rw [List.filterMap_map, List.map_filterMap]
  refine congrArg (items.filterMap ·) (funext fun x => ?_)
  cases x <;> rfl

theorem itemsMoved_globals (items : List Item) :
    (items.map (Item.moved f)).filterMap Item.global? =
      (items.filterMap Item.global?).map (Stmt.moved f) := by
  rw [List.filterMap_map, List.map_filterMap]
  refine congrArg (items.filterMap ·) (funext fun x => ?_)
  cases x <;> rfl

/-! ## 3. Nothing is moved -/

theorem Param.map_moved_id (params : List Param) : params.map (Param.moved id) = params :=
  List.map_id params

mutual
theorem Expr.moved_id : (e : Expr) → e.moved id = e
  | .int .. | .text .. | .char .. | .bool .. | .name .. => by
    rw [Expr.moved]
    rfl
  | .binary _ _ left right => by
    rw [Expr.moved, left.moved_id, right.moved_id]
    rfl
  | .array _ items => by
    rw [Expr.moved, itemsMoved_id items]
    rfl
  | .hash _ entries => by
    rw [Expr.moved, entriesMoved_id entries]
    rfl
  | .fn _ params _ body => by
    rw [Expr.moved, Param.map_moved_id, body.moved_id]
    rfl
  | .index _ target key => by
    rw [Expr.moved, target.moved_id, key.moved_id]
    rfl
  | .call _ callee args => by
    rw [Expr.moved, callee.moved_id, itemsMoved_id args]
    rfl

theorem itemsMoved_id : (items : List Expr) → itemsMoved id items = items
  | [] => by rw [itemsMoved]
  | e :: rest => by rw [itemsMoved, e.moved_id, itemsMoved_id rest]

theorem entriesMoved_id : (entries : List (Expr × Expr)) → entriesMoved id entries = entries
  | [] => by rw [entriesMoved]
  | (k, v) :: rest => by rw [entriesMoved, k.moved_id, v.moved_id, entriesMoved_id rest]

theorem Stmt.moved_id : (s : Stmt) → s.moved id = s
  | .declare _ _ _ _ value | .returns _ (some value) | .print _ value => by
    rw [Stmt.moved, value.moved_id]
    rfl
  | .returns _ none => by
    rw [Stmt.moved]
    rfl
  | .expr value => by rw [Stmt.moved, value.moved_id]
  | .branch _ condition yes none => by
    rw [Stmt.moved, condition.moved_id, yes.moved_id]
    rfl
  | .branch _ condition yes (some no) => by
    rw [Stmt.moved, condition.moved_id, yes.moved_id, no.moved_id]
    rfl
  | .block body => by rw [Stmt.moved, body.moved_id]

theorem Block.moved_id : (b : Block) → b.moved id = b
  | .mk body _ => by
    rw [Block.moved, stmtsMoved_id body]
    rfl

theorem stmtsMoved_id : (body : List Stmt) → stmtsMoved id body = body
  | [] => by rw [stmtsMoved]
  | s :: rest => by rw [stmtsMoved, s.moved_id, stmtsMoved_id rest]
end

theorem FunctionDecl.moved_id (d : FunctionDecl) : d.moved id = d := by
  rw [FunctionDecl.moved, Param.map_moved_id, d.body.moved_id]
  rfl

/-- **A program that keeps its places.** -/
theorem Program.moved_id (p : Program) : p.moved id = p := by
  rw [Program.moved, funext FunctionDecl.moved_id, funext Stmt.moved_id, p.main.moved_id,
    List.map_id', List.map_id']
  rfl

end Stackling
