import Stackling.Source

/-
  File:     Stackling/Source/Line.lean
  Subject:  The line of a text that holds a place.

  * `splitLines` -- the lines of a text, each with its newline;
  * `lineAt`     -- the line that holds a byte offset.

  An offset past the text has no line. The offset just after the text is
  put on an empty line that follows the last one.
-/
namespace Stackling

/-- A line of a text, seen from a place on it. -/
structure Line where
  /-- counted from one -/
  number : Nat
  /-- the characters, with the newline if there is one -/
  text : List Char
  /-- bytes from the start of the line to the place -/
  column : Nat
  deriving DecidableEq

/-- The lines of a text, each with the newline that ends it; the last one may have none. -/
def splitLines : List Char → List (List Char)
  | [] => []
  | c :: rest =>
    if c = '\n' then [c] :: splitLines rest
    else match splitLines rest with
      | [] => [[c]]
      | l :: ls => (c :: l) :: ls

/-- **Nothing is lost:** the lines of a text are the text. -/
theorem flatten_splitLines (cs : List Char) : (splitLines cs).flatten = cs := by
  induction cs with
  | nil => rfl
  | cons c cs ih =>
    unfold splitLines
    split
    · simp [ih]
    · split
      · rename_i h
        rw [h] at ih
        simp at ih
        simp [← ih]
      · rename_i l ls h
        rw [h] at ih
        simpa using ih

/-- The first of `lines` that holds the byte `column`, counted from the start of the first
    of them; an empty line after all of them if none does. -/
def locate (number column : Nat) : List (List Char) → Line
  | [] => ⟨number, [], 0⟩
  | l :: rest =>
    if column < byteLength l then ⟨number, l, column⟩
    else locate (number + 1) (column - byteLength l) rest

/-- The line of `source` that holds the byte `offset`, if the text reaches that far. -/
def lineAt (source : List Char) (offset : Nat) : Option Line :=
  if byteLength source < offset then none
  else some (locate 1 offset (splitLines source))

/-- **There is no line exactly past the end.** -/
theorem lineAt_eq_none_iff (source : List Char) (offset : Nat) :
    lineAt source offset = none ↔ byteLength source < offset := by
  unfold lineAt
  split <;> simp_all

end Stackling
