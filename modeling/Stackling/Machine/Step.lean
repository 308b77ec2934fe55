import Stackling.Machine.State
import Stackling.Value.Text

/-
  File:     Stackling/Machine/Step.lean
  Subject:  One instruction.

  * `compareValues` -- comparisons;
  * `itemAt?`       -- the item of an array at an index;
  * `exec`          -- the effect of an instruction that writes nothing;
  * `step`          -- the next instruction of the current frame.
-/
namespace Stackling

open State

/-! ## 1. Comparisons -/

/-- Whether a comparison holds of operands that stand in the given order. -/
def Comparison.holds : Comparison → Ordering → Bool
  | .equal, o => o == .eq
  | .notEqual, o => o != .eq
  | .less, o => o == .lt
  | .lessEqual, o => o != .gt
  | .greater, o => o == .gt
  | .greaterEqual, o => o != .lt

/-- The result of a comparison. Strings are ordered by their characters, and characters by
    their numbers. -/
def compareValues (c : Comparison) (kind : OperandKind) (left right : Value) :
    Except Fault Bool :=
  match kind, left, right with
  | .int, .int a, .int b => .ok (c.holds (compareOfLessAndEq a b))
  | .char, .char a, .char b => .ok (c.holds (compareOfLessAndEq a b))
  | .str, .text a, .text b => .ok (c.holds (compareOfLessAndEq a b))
  | .structural, a, b =>
    match c with
    | .equal => .ok (a.equal b)
    | .notEqual => .ok !(a.equal b)
    | _ => mismatch "ordered value" a
  | _, a, _ => mismatch "comparable value" a

/-! ## 2. Instructions -/

/-- The item at an index; a negative index finds none. -/
def itemAt? (items : List Value) (index : Int64) : Option Value :=
  if index.toInt < 0 then none else items[index.toInt.toNat]?

/-- **The item that an index gives** is the one at this place of the list, counted from zero. -/
theorem itemAt?_eq_some_iff {items : List Value} {index : Int64} {v : Value} :
    itemAt? items index = some v ↔ ∃ i : Nat, index.toInt = i ∧ items[i]? = some v := by
  rw [itemAt?]
  split
  case isTrue hneg =>
    constructor
    · exact nofun
    · intro ⟨i, hi, _⟩
      omega
  case isFalse hpos =>
    have hi : index.toInt = index.toInt.toNat := (Int.toNat_of_nonneg (Int.not_lt.mp hpos)).symm
    constructor
    · exact fun h => ⟨_, hi, h⟩
    · intro ⟨i, hi', h⟩
      rw [hi', Int.toNat_natCast]
      exact h

/-- **An index gives no item** if it is negative, or not below the number of items. -/
theorem itemAt?_eq_none_iff {items : List Value} {index : Int64} :
    itemAt? items index = none ↔ index.toInt < 0 ∨ items.length ≤ index.toInt := by
  rw [itemAt?]
  split
  case isTrue hneg => exact ⟨fun _ => .inl hneg, fun _ => rfl⟩
  case isFalse hpos =>
    rw [List.getElem?_eq_none_iff]
    omega

/-- The effect of an instruction of the unit `u`, other than `print`, whose frame has moved on
    already. Integers wrap around at 64 bits, and division drops the fraction. -/
def exec (p : Bytecode) (limit : Nat) (u : CodeUnit) (s : State) : Op → Except Fault State
  | .pushInt n => .ok (s.push (.int n))
  | .pushChar c => .ok (s.push (.char c))
  | .pushText t => .ok (s.push (.text t))
  | .pushUnit id =>
    match p.unit? id with
    | some target => .ok (s.push (.callable (.unit id target.name)))
    | none => .error .unresolvedCallable
  | .pushBuiltin b => .ok (s.push (.callable (.builtin b)))
  | .loadArg index =>
    match s.frames.top?.bind fun f => f.args[index]? with
    | some v => .ok (s.push v)
    | none => .error (.missingArgument u.name index)
  | .loadLocal slot =>
    .ok (s.push ((s.frames.top?.bind fun f => f.locals[slot]?).getD .void))
  | .storeLocal slot => do
    let (v, s) ← s.pop u
    return { s with
      frames := s.frames.mapTop fun f => { f with locals := f.locals.setIfInBounds slot v } }
  | .loadGlobal cell =>
    match s.globals[cell]? with
    | some (some v) => .ok (s.push v)
    | _ => .error (.uninitializedGlobal (p.globals[cell]?.getD ""))
  | .storeGlobal cell => do
    let (v, s) ← s.pop u
    return { s with globals := s.globals.setIfInBounds cell (some v) }
  | .pop => do
    let (_, s) ← s.pop u
    return s
  | .addInt => do
    let (b, s) ← s.popInt u
    let (a, s) ← s.popInt u
    return s.push (.int (a + b))
  | .subInt => do
    let (b, s) ← s.popInt u
    let (a, s) ← s.popInt u
    return s.push (.int (a - b))
  | .mulInt => do
    let (b, s) ← s.popInt u
    let (a, s) ← s.popInt u
    return s.push (.int (a * b))
  | .divInt => do
    let (b, s) ← s.popInt u
    let (a, s) ← s.popInt u
    if b = 0 then throw .divisionByZero
    return s.push (.int (a / b))
  | .concat => do
    let (b, s) ← s.pop u
    let (a, s) ← s.pop u
    match a, b with
    | .text x, .text y => return s.push (.text (x ++ y))
    | .text _, other => mismatch "string" other
    | other, _ => mismatch "string" other
  | .compare c kind => do
    let (b, s) ← s.pop u
    let (a, s) ← s.pop u
    return s.push (.ofBool (← compareValues c kind a b))
  | .intToBool => do
    let (n, s) ← s.popInt u
    return s.push (.ofBool (n != 0))
  | .not => do
    let (n, s) ← s.popInt u
    return s.push (.ofBool (n == 0))
  | .jump l => s.jump u l
  | .jumpIf l => do
    let (n, s) ← s.popInt u
    if n = 0 then return s else s.jump u l
  | .newArray length => .ok (s.push (.array (List.replicate length .void)))
  | .setElement index => do
    let (v, s) ← s.pop u
    let (items, s) ← s.popArray u
    if index < items.length then return s.push (.array (items.set index v))
    else throw (.indexOutOfRange (Int64.ofNat index) items.length)
  | .newHash => .ok (s.push (.hash []))
  | .insertEntry => do
    let (v, s) ← s.pop u
    let (key, s) ← s.popKey u
    let (entries, s) ← s.popHash u
    return s.push (.hash (Stackling.insertEntry key v entries))
  | .indexArray => do
    let (index, s) ← s.popInt u
    let (items, s) ← s.popArray u
    match itemAt? items index with
    | some v => return s.push v
    | none => throw (.indexOutOfRange index items.length)
  | .indexHash => do
    let (key, s) ← s.popKey u
    let (entries, s) ← s.popHash u
    match valueAt? key entries with
    | some v => return s.push v
    | none => throw (.keyNotFound key.show)
  | .call unit arity _ => do
    let (args, s) ← s.popMany u arity
    s.enter p limit unit args
  | .callIndirect arity _ => do
    let (args, s) ← s.popMany u arity
    match ← s.pop u with
    | (.callable (.unit id _), s) => s.enter p limit id args
    | (.callable (.builtin b), s) => return s.push (← b.apply args)
    | _ => throw .unresolvedCallable
  | .callBuiltin b => do
    let (args, s) ← s.popMany u b.arity
    return s.push (← b.apply args)
  | .ret => do
    let (v, s) ← s.pop u
    return s.leave (some v)
  | .retVoid => .ok (s.leave none)
  | .print _ => do
    let (_, s) ← s.pop u
    return s
  | .missingReturn => .error (.missingReturn u.name)

/-! ## 3. Steps -/

/-- What a run has come to. -/
inductive Outcome
  | running (s : State)
  | halted (sink : Sink)
  | faulted (fault : Fault) (sink : Sink)

/-- Writes the value on top, of the given type, on a line. -/
def printTop (u : CodeUnit) (s : State) (ty : Ty) : Outcome :=
  match s.pop u with
  | .error fault => .faulted fault s.sink
  | .ok (v, s) =>
    match s.sink.write (v.format ty ++ "\n") with
    | (sink, true) => .running { s with sink }
    | (sink, false) => .faulted (.output Sink.fullMessage) sink

/-- The next instruction of the current frame. Without a frame the run is over. A frame that
    has run off the end of its unit is a fault. -/
def step (p : Bytecode) (limit : Nat) (s : State) : Outcome :=
  match s.frames.top? with
  | none => .halted s.sink
  | some frame =>
    match p.unit? frame.unit with
    | none => .faulted .unresolvedCallable s.sink
    | some u =>
      match u.ops[frame.next]? with
      | none => .faulted (.missingReturn u.name) s.sink
      | some op =>
        let s := { s with frames := s.frames.mapTop fun f => { f with next := f.next + 1 } }
        match op with
        | .print ty => printTop u s ty
        | op =>
          match exec p limit u s op with
          | .ok s => .running s
          | .error fault => .faulted fault s.sink

end Stackling
