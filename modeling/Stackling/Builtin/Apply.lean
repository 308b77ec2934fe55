import Stackling.Machine.Fault
import Stackling.Value

/-
  File:     Stackling/Builtin/Apply.lean
  Subject:  Running a built-in.

  `push` and `rest` make new arrays; no argument is changed. The length of a string counts
  characters.
-/
namespace Stackling

/-- The result of a built-in on the given arguments. -/
def Builtin.apply (b : Builtin) (args : List Value) : Except Fault Value :=
  match b, args with
  | .len, [.array items] => .ok (.int (Int64.ofNat items.length))
  | .len, [.text s] => .ok (.int (Int64.ofNat s.length))
  | .first, [.array items] =>
    match items.head? with
    | some v => .ok v
    | none => .error (.emptyArray b.name)
  | .last, [.array items] =>
    match items.getLast? with
    | some v => .ok v
    | none => .error (.emptyArray b.name)
  | .rest, [.array items] => .ok (.array items.tail)
  | .push, [.array items, v] => .ok (.array (items ++ [v]))
  | .len, [other] | .first, [other] | .last, [other] | .rest, [other] | .push, [other, _] =>
    .error (.operandMismatch "array" other.kind)
  | b, args => .error (.arityMismatch b.arity args.length)

end Stackling
