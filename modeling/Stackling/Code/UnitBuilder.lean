import Stackling.Code.Bytecode
import Stackling.Code.Fault

/-
  File:     Stackling/Code/UnitBuilder.lean
  Subject:  A unit while its code is written.

  The builder knows the depth that the operand stack has after the instructions so far, and
  refuses one that takes more than is there. Names are bound in scopes; each local gets a slot
  of its own that is never used again.

  * `emit`, `makeLabel`, `placeLabel`                -- the code;
  * `enterScope`, `exitScope`, `declareArg`, `declareLocal`, `resolve?` -- the names;
  * `finish`                                         -- the finished unit.
-/
namespace Stackling

/-- Where the value of a name is kept. -/
inductive Slot
  | arg (index : Nat)
  | loc (slot : Nat)
  deriving DecidableEq

/-- A unit while its code is written. -/
structure UnitBuilder where
  id : UnitId
  name : String
  arity : Nat
  returns : Ty
  ops : Array Op
  /-- the offset of each label that has been placed -/
  labels : Array (Option Nat)
  /-- the names of the open scopes, innermost scope and latest name first -/
  scopes : List (List (String × Slot))
  locals : Nat
  depth : Nat
  /-- whether declarations outside all scopes make global cells -/
  initializer : Bool

namespace UnitBuilder

/-- A unit without code. -/
def new (id : UnitId) (name : String) (arity : Nat) (returns : Ty) : UnitBuilder :=
  ⟨id, name, arity, returns, #[], #[], [], 0, 0, false⟩

/-- The unit that stores the global cells, without code. -/
def newInitializer (id : UnitId) : UnitBuilder :=
  { new id "<globals>" 0 .void with initializer := true }

/-! ## 1. Code -/

/-- The builder with one more instruction, if the stack holds what it takes. -/
def emit (b : UnitBuilder) (op : Op) : Except CodeFault UnitBuilder :=
  if b.depth < op.pops then .error (.stackImbalance b.name op.pops b.depth)
  else .ok { b with depth := b.depth - op.pops + op.pushes, ops := b.ops.push op }

/-- **An instruction is refused exactly if it takes more than is there.** -/
theorem emit_error_iff (b : UnitBuilder) (op : Op) :
    (∃ e, b.emit op = .error e) ↔ b.depth < op.pops := by
  unfold emit
  split <;> simp_all

/-- A new label, without an offset. -/
def makeLabel (b : UnitBuilder) : Label × UnitBuilder :=
  (b.labels.size, { b with labels := b.labels.push none })

/-- Puts a label before the next instruction. An unknown label is ignored. -/
def placeLabel (b : UnitBuilder) (l : Label) : UnitBuilder :=
  { b with labels := b.labels.setIfInBounds l (some b.ops.size) }

/-! ## 2. Names -/

def enterScope (b : UnitBuilder) : UnitBuilder := { b with scopes := [] :: b.scopes }

def exitScope (b : UnitBuilder) : UnitBuilder := { b with scopes := b.scopes.tail }

/-- The builder with a name bound in the innermost scope; without a scope nothing is bound. -/
def bind (b : UnitBuilder) (name : String) (slot : Slot) : UnitBuilder :=
  match b.scopes with
  | [] => b
  | scope :: rest => { b with scopes := ((name, slot) :: scope) :: rest }

def declareArg (b : UnitBuilder) (name : String) (index : Nat) : UnitBuilder :=
  b.bind name (.arg index)

/-- Binds a name to a new local slot. -/
def declareLocal (b : UnitBuilder) (name : String) : Nat × UnitBuilder :=
  (b.locals, { b.bind name (.loc b.locals) with locals := b.locals + 1 })

/-- Whether a declaration here makes a global cell. -/
def declaresGlobals (b : UnitBuilder) : Bool := b.initializer && b.scopes.isEmpty

/-- The slot of a name, from the innermost scope outward. -/
def resolve? (b : UnitBuilder) (name : String) : Option Slot :=
  b.scopes.findSome? fun scope => scope.lookup name

/-! ## 3. The finished unit -/

/-- The offsets of labels counted from `label`, if all of them have been placed. -/
def offsets (unit : String) (label : Label) : List (Option Nat) → Except CodeFault (List Nat)
  | [] => .ok []
  | none :: _ => .error (.unplacedLabel unit label)
  | some offset :: rest => (offsets unit (label + 1) rest).map (offset :: ·)

/-- The instruction at the end of a unit. -/
def terminator (b : UnitBuilder) : Op := if b.returns.isVoid then .retVoid else .missingReturn

/-- The unit, closed by a last instruction. Nothing may be left on the stack, and every label
    has to be placed. -/
def finish (b : UnitBuilder) : Except CodeFault CodeUnit := do
  let b ← b.emit b.terminator
  if b.depth ≠ 0 then throw (.stackImbalance b.name 0 b.depth)
  let labels ← offsets b.name 0 b.labels.toList
  return ⟨b.id, b.name, b.arity, b.locals, !b.returns.isVoid, b.ops, labels.toArray⟩

end UnitBuilder

end Stackling
