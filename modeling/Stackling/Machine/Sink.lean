/-
  File:     Stackling/Machine/Sink.lean
  Subject:  Where the output of a run goes.

  A sink takes bytes up to its capacity, if it has one, and refuses the next one. What was
  taken before stays.
-/
namespace Stackling

/-- A sink, and the bytes it has taken. -/
structure Sink where
  capacity? : Option Nat
  taken : ByteArray

namespace Sink

/-- A sink that has taken nothing. -/
def new (capacity? : Option Nat) : Sink := ⟨capacity?, .empty⟩

/-- A sink that never refuses a byte. -/
def unbounded : Sink := new none

/-- What a full sink says of itself. -/
def fullMessage : String := "sink full"

/-- How many bytes of `data` the sink takes. -/
def room (s : Sink) (data : ByteArray) : Nat :=
  match s.capacity? with
  | none => data.size
  | some n => min data.size (n - s.taken.size)

/-- The sink after as much of the text as it takes, and whether it took all of it. -/
def write (s : Sink) (text : String) : Sink × Bool :=
  let data := text.toUTF8
  let n := s.room data
  if n = data.size then ({ s with taken := s.taken ++ data }, true)
  else ({ s with taken := s.taken ++ data.extract 0 n }, false)

/-- An unbounded sink takes every text. -/
@[simp] theorem write_unbounded (taken : ByteArray) (text : String) :
    (⟨none, taken⟩ : Sink).write text = (⟨none, taken ++ text.toUTF8⟩, true) := by
  simp [write, room]

/-- The bytes taken, as text. A character whose last bytes were refused shows as U+FFFD. -/
def text (s : Sink) : String :=
  let upTo (n : Nat) : Option String := String.fromUTF8? (s.taken.extract 0 n)
  match upTo s.taken.size with
  | some text => text
  | none =>
    match upTo (s.taken.size - 1) <|> upTo (s.taken.size - 2) <|> upTo (s.taken.size - 3) with
    | some text => text ++ "\ufffd"
    | none => "\ufffd"

end Sink

end Stackling
