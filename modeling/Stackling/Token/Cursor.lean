import Stackling.Source

/-
  File:     Stackling/Token/Cursor.lean
  Subject:  A place in a text together with the text that follows it.

  A cursor moves forward by bytes and stops at the end of the text. Its place always tells
  the bytes and lines behind it.
-/
namespace Stackling

/-- The characters that the first `n` bytes hold whole, and the rest. -/
def splitBytes (n : Nat) : List Char → List Char × List Char
  | [] => ([], [])
  | c :: rest =>
    if c.utf8Size ≤ n then
      let (taken, left) := splitBytes (n - c.utf8Size) rest
      (c :: taken, left)
    else ([], c :: rest)

/-- **A cut loses nothing.** -/
theorem splitBytes_append (n : Nat) (cs : List Char) :
    (splitBytes n cs).1 ++ (splitBytes n cs).2 = cs := by
  induction cs generalizing n with
  | nil => rfl
  | cons c cs ih =>
    unfold splitBytes
    split
    · simp [ih]
    · rfl

/-- A place in a text and what follows it. -/
structure Cursor where
  place : Position
  rest : List Char

namespace Cursor

/-- The cursor at the start of a text. -/
def start (source : List Char) : Cursor := ⟨.origin, source⟩

/-- The character at the cursor. -/
def here? (c : Cursor) : Option Char := c.rest.head?

/-- Whether no text follows. -/
def atEnd (c : Cursor) : Bool := c.rest.isEmpty

/-- The cursor `n` bytes on, or at the end if fewer follow. -/
def advance (c : Cursor) (n : Nat) : Cursor :=
  let (taken, left) := splitBytes n c.rest
  ⟨c.place.pastAll taken, left⟩

/-- The stretch of the next `n` bytes. -/
def stretch (c : Cursor) (n : Nat) : Span := ⟨c.place, (c.advance n).place⟩

end Cursor

end Stackling
