import Stackling.Builtin.Apply
import Stackling.Code.Bytecode
import Stackling.Machine.Pile
import Stackling.Machine.Sink

/-
  File:     Stackling/Machine/State.lean
  Subject:  The state of a run.

  All frames share one operand stack. A frame knows how high the stack was when it was
  entered; when it is left, what it has put above that is dropped.
-/
namespace Stackling

/-- A call that has not returned. -/
structure Frame where
  unit : UnitId
  /-- the offset of the next instruction -/
  next : Nat
  args : List Value
  locals : Array Value
  /-- the height of the operand stack at the call -/
  base : Nat

/-- The state of a run. -/
structure State where
  stack : Pile Value
  frames : Pile Frame
  /-- the global cells; none where nothing has been stored yet -/
  globals : Array (Option Value)
  sink : Sink

namespace State

/-- Before the first call of a run of `p`. -/
def initial (p : Bytecode) (sink : Sink) : State :=
  ⟨.empty, .empty, Array.replicate p.globals.size none, sink⟩

/-! ## 1. The operand stack -/

def push (s : State) (v : Value) : State := { s with stack := s.stack.push v }

/-- The value on top; an empty stack is a fault of the unit `u`. -/
def pop (s : State) (u : CodeUnit) : Except Fault (Value × State) :=
  match s.stack.pop? with
  | some (v, stack) => .ok (v, { s with stack })
  | none => .error (.stackUnderflow u.name)

/-- The `n` values on top, the lowest of them first. -/
def popMany (s : State) (u : CodeUnit) (n : Nat) : Except Fault (List Value × State) :=
  match s.stack.popMany? n with
  | some (values, stack) => .ok (values, { s with stack })
  | none => .error (.stackUnderflow u.name)

/-- Refuses a value of the wrong sort. -/
def mismatch {α : Type} (expected : String) (found : Value) : Except Fault α :=
  .error (.operandMismatch expected found.kind)

/-- The integer on top. -/
def popInt (s : State) (u : CodeUnit) : Except Fault (Int64 × State) := do
  match ← s.pop u with
  | (.int n, s) => return (n, s)
  | (other, _) => mismatch "int" other

/-- The array on top. -/
def popArray (s : State) (u : CodeUnit) : Except Fault (List Value × State) := do
  match ← s.pop u with
  | (.array items, s) => return (items, s)
  | (other, _) => mismatch "array" other

/-- The hash on top. -/
def popHash (s : State) (u : CodeUnit) : Except Fault (List (HashKey × Value) × State) := do
  match ← s.pop u with
  | (.hash entries, s) => return (entries, s)
  | (other, _) => mismatch "hash" other

/-- The key on top. -/
def popKey (s : State) (u : CodeUnit) : Except Fault (HashKey × State) := do
  let (v, s) ← s.pop u
  match v.key? with
  | some key => return (key, s)
  | none => mismatch "int or string" v

/-! ## 2. Frames -/

/-- Calls a unit, if the frames in use leave room for one more. -/
def enter (s : State) (p : Bytecode) (limit : Nat) (unit : UnitId) (args : List Value) :
    Except Fault State :=
  if limit ≤ s.frames.size then .error (.stackOverflow limit)
  else
    match p.unit? unit with
    | none => .error .unresolvedCallable
    | some u =>
      if u.arity ≠ args.length then .error (.arityMismatch u.arity args.length)
      else .ok { s with
        frames := s.frames.push ⟨unit, 0, args, Array.replicate u.locals .void, s.stack.size⟩ }

/-- Leaves the current frame, with a result for the caller or without one. -/
def leave (s : State) (result : Option Value) : State :=
  let s := match s.frames.pop? with
    | some (frame, frames) => { s with frames, stack := s.stack.cutTo frame.base }
    | none => s
  match result with
  | some v => s.push v
  | none => s

/-- Goes on at a label of the current unit `u`. -/
def jump (s : State) (u : CodeUnit) (l : Label) : Except Fault State :=
  match u.offset? l with
  | some offset => .ok { s with frames := s.frames.mapTop fun f => { f with next := offset } }
  | none => .error (.invalidJump u.name l)

end State

end Stackling
