import Stackling.Machine.Run
import Stackling.Proofs.Code.Callables
import Stackling.Typing.Table
import Stackling.Value.Text

/-
  File:     Stackling/Proofs/Run/Evaluator.lean
  Subject:  What a program means, read off its tree.

  Expressions have values, and statements go on with more names or go back with a result. No
  code and no operand stack is involved. A call may use as many frames as are left, so that
  every evaluation ends.

  * `Eval`                   -- evaluation, which changes the global names and the output;
  * `evalExpr`, `evalStmts`  -- the meaning of expressions and statements;
  * `Program.call`           -- a call of something that has a unit;
  * `Program.evaluate`       -- a whole program.
-/
namespace Stackling

/-! ## 1. Evaluation -/

/-- What evaluation changes. -/
structure World where
  /-- the global names that have a value, the latest first -/
  globals : List (String × Value)
  sink : Sink

/-- Why evaluation stops early. -/
inductive Halt
  | fault (f : Fault) (sink : Sink)
  /-- the tree has no meaning, which no well typed program comes to -/
  | stuck

/-- Evaluation to a result. -/
abbrev Eval := StateT World (Except Halt)

namespace Eval

variable {α : Type}

def fault (f : Fault) : Eval α := fun w => .error (.fault f w.sink)

def stuck : Eval α := fun _ => .error .stuck

/-- A result or a fault. -/
def lift : Except Fault α → Eval α
  | .ok a => pure a
  | .error f => fault f

/-- A result if there is one. -/
def get? : Option α → Eval α
  | some a => pure a
  | none => stuck

/-- Writes a line. -/
def writeLine (line : String) : Eval Unit := fun w =>
  match w.sink.write (line ++ "\n") with
  | (sink, true) => .ok ((), { w with sink })
  | (sink, false) => .error (.fault (.output Sink.fullMessage) sink)

end Eval

/-- Local names with their values, the innermost scope first; no scope stands for the top
    level. -/
abbrev Env := List (List (String × Value))

/-! ## 2. Operators -/

/-- Whether a value comes before another one of its sort. -/
def Value.less? : Value → Value → Option Bool
  | .int a, .int b => some (decide (a < b))
  | .char a, .char b => some (decide (a < b))
  | .text a, .text b => some (decide (a < b))
  | _, _ => none

/-- The result of an operator. Integers wrap around at 64 bits, and division drops the
    fraction. -/
def BinaryOp.eval : BinaryOp → Value → Value → Eval Value
  | .add, .int a, .int b => pure (.int (a + b))
  | .add, .text a, .text b => pure (.text (a ++ b))
  | .sub, .int a, .int b => pure (.int (a - b))
  | .mul, .int a, .int b => pure (.int (a * b))
  | .div, .int a, .int b => if b = 0 then .fault .divisionByZero else pure (.int (a / b))
  | .equal, a, b => pure (.ofBool (a.equal b))
  | .notEqual, a, b => pure (.ofBool !(a.equal b))
  | .less, a, b => do return .ofBool (← .get? (a.less? b))
  | .lessEqual, a, b => do return .ofBool !(← .get? (b.less? a))
  | .greater, a, b => do return .ofBool (← .get? (b.less? a))
  | .greaterEqual, a, b => do return .ofBool !(← .get? (a.less? b))
  | _, _, _ => .stuck

/-- The item of an array at an index, or the value of a hash under a key. -/
def evalIndex : Value → Value → Eval Value
  | .array items, .int index =>
    match itemAt? items index with
    | some v => pure v
    | none => .fault (.indexOutOfRange index items.length)
  | .hash entries, k => do
    let key ← .get? k.key?
    match valueAt? key entries with
    | some v => pure v
    | none => .fault (.keyNotFound key.show)
  | _, _ => .stuck

/-- Whether a condition holds. -/
def Value.truth? : Value → Option Bool
  | .int n => some (n != 0)
  | _ => none

/-! ## 3. Expressions -/

section

variable (p : Program)

/-- The value of a name by its innermost declaration. A global name has one when its
    declaration has been evaluated. -/
def evalName (env : Env) (name : String) : Eval Value := do
  match env.findSome? (List.lookup name) with
  | some v => return v
  | none =>
    if name ∈ p.cells.map (·.1) then
      match (← get).globals.lookup name with
      | some v => return v
      | none => .fault (.uninitializedGlobal name)
    else
      match p.functions.findIdx? (·.name == name) with
      | some unit => return .callable (.unit unit name)
      | none => return .callable (.builtin (← .get? (Builtin.ofName? name)))

variable (call : UnitId → List Value → Eval Value)

/-- Calls a value. -/
def invoke (f : Value) (args : List Value) : Eval Value :=
  match f with
  | .callable (.unit id _) => call id args
  | .callable (.builtin b) => .lift (b.apply args)
  | _ => .stuck

mutual
/-- The value of an expression; `void` for the call of a `void` function. -/
def evalExpr (env : Env) : Expr → Eval Value
  | .int _ n => pure (.int n)
  | .text _ s => pure (.text s)
  | .char _ c => pure (.char c)
  | .bool _ b => pure (.ofBool b)
  | .name _ name => evalName p env name
  | .binary _ op left right => do
    let a ← evalExpr env left
    let b ← evalExpr env right
    op.eval a b
  | .array _ items => do return .array (← evalAll env items)
  | .hash _ entries => do return .hash (← evalEntries env [] entries)
  | .fn node _ _ _ =>
    let place := p.placeOf node.id
    pure (.callable (.unit (p.literalUnit place) (literalName place)))
  | .index _ target key => do
    let a ← evalExpr env target
    let k ← evalExpr env key
    evalIndex a k
  | .call _ callee args => do
    let f ← evalExpr env callee
    let vs ← evalAll env args
    invoke call f vs

/-- The values of expressions, from left to right. -/
def evalAll (env : Env) : List Expr → Eval (List Value)
  | [] => pure []
  | e :: rest => do
    let v ← evalExpr env e
    let vs ← evalAll env rest
    return v :: vs

/-- Adds entries to those of a hash, each key before its value. -/
def evalEntries (env : Env) (before : List (HashKey × Value)) :
    List (Expr × Expr) → Eval (List (HashKey × Value))
  | [] => pure before
  | (k, e) :: rest => do
    let key ← evalExpr env k
    let v ← evalExpr env e
    evalEntries env (insertEntry (← .get? key.key?) v before) rest
end

/-! ## 4. Statements -/

/-- How evaluation goes on after a statement. -/
inductive Flow
  | next (env : Env)
  /-- back to the caller, with a result -/
  | back (v : Value)

/-- Names of a branch are forgotten after it. -/
def Flow.leaving (env : Env) : Flow → Flow
  | .next _ => .next env
  | .back v => .back v

/-- What a call comes to; a body that ends without a return has no result. -/
def Flow.result : Flow → Value
  | .next _ => .void
  | .back v => v

/-- A new name, in the innermost scope or at top level. -/
def declare (env : Env) (name : String) (v : Value) : Eval Env :=
  match env with
  | [] => do
    modify fun w => { w with globals := (name, v) :: w.globals }
    return []
  | scope :: rest => return ((name, v) :: scope) :: rest

variable (types : TypeTable)

mutual
/-- What a statement does. -/
def evalStmt (env : Env) : Stmt → Eval Flow
  | .declare _ _ name _ value => do
    let v ← evalExpr p call env value
    return .next (← declare env name v)
  | .returns _ none => return .back .void
  | .returns _ (some value) => do return .back (← evalExpr p call env value)
  | .expr value => do
    let _ ← evalExpr p call env value
    return .next env
  | .branch _ condition yes none => do
    let v ← evalExpr p call env condition
    if ← .get? v.truth? then return (← evalBlock ([] :: env) yes).leaving env
    else return .next env
  | .branch _ condition yes (some no) => do
    let v ← evalExpr p call env condition
    if ← .get? v.truth? then return (← evalBlock ([] :: env) yes).leaving env
    else return (← evalBlock ([] :: env) no).leaving env
  | .print _ value => do
    let v ← evalExpr p call env value
    Eval.writeLine (v.format (← .get? (types.find? value.id)))
    return .next env
  | .block body => evalBlock env body

/-- What the statements of a block do, in the scope around it. -/
def evalBlock (env : Env) : Block → Eval Flow
  | .mk body _ => evalStmts env body

/-- What statements do, one after the other, up to the first return. -/
def evalStmts (env : Env) : List Stmt → Eval Flow
  | [] => return .next env
  | s :: rest => do
    match ← evalStmt env s with
    | .next env => evalStmts env rest
    | .back v => return .back v
end

end

/-! ## 5. Programs -/

/-- The names in scope at the start of a call. -/
def CallableDecl.env (c : CallableDecl) (args : List Value) : Env :=
  if c.outside then [] else [((c.params.map (·.name)).zip args).reverse]

section

variable (p : Program) (types : TypeTable)

/-- A call of something that has a unit, with `left` of the `limit` frames unused. -/
def Program.call (limit : Nat) : (left : Nat) → UnitId → List Value → Eval Value
  | 0, _, _ => .fault (.stackOverflow limit)
  | left + 1, unit, args =>
    match p.callables[unit]? with
    | none => .stuck
    | some c => do return (← evalStmts p (call limit left) types (c.env args) c.body).result

/-- The statements at top level and `main`, from a frame of their own. -/
def Program.start (limit : Nat) : (left : Nat) → Eval Unit
  | 0 => .fault (.stackOverflow limit)
  | left + 1 => do
    let _ ← p.call types limit left p.globalsUnit []
    let _ ← p.call types limit left p.mainUnit []

/-- How a program ends, with at most `limit` frames, and what it writes. -/
def Program.evaluate (limit : Nat) (sink : Sink) : Option Execution :=
  match p.start types limit limit ⟨[], sink⟩ with
  | .ok (_, w) => some ⟨.done, w.sink⟩
  | .error (.fault f sink) => some ⟨.fault f, sink⟩
  | .error .stuck => none

end

end Stackling
