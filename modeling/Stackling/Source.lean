/-
  File:     Stackling/Source.lean
  Subject:  Places in a source text.

  A text is read as a list of characters; a place in it is a byte offset
  (UTF-8) together with a line number that starts at one. This file fixes
  how a place moves over text:

  * `Position.past`    -- the place after one character;
  * `Position.pastAll` -- the place after a run of characters;
  * `byteLength`       -- the bytes a run of characters takes.

  A place names no file. Whoever prints one knows which file was read.
-/
namespace Stackling

/-! ## 1. Places -/

/-- A place in a text: bytes before it, and the line it stands on. -/
structure Position where
  offset : Nat
  line : Nat
  deriving DecidableEq

/-- Where every text begins. -/
def Position.origin : Position := ⟨0, 1⟩

/-- The stretch from `start` up to and excluding `stop`. -/
structure Span where
  start : Position
  stop : Position
  deriving DecidableEq

/-- A stretch is reported under the line it starts on. -/
def Span.line (s : Span) : Nat := s.start.line

/-- The stretch of what stands nowhere: nothing, at the origin. -/
def Span.blank : Span := ⟨.origin, .origin⟩

/-! ## 2. Moving over text -/

/-- The bytes a run of characters takes. -/
def byteLength : List Char → Nat
  | [] => 0
  | c :: rest => c.utf8Size + byteLength rest

/-- The newlines in a run of characters. -/
def newlines : List Char → Nat
  | [] => 0
  | c :: rest => (if c = '\n' then 1 else 0) + newlines rest

@[simp] theorem byteLength_append (cs ds : List Char) :
    byteLength (cs ++ ds) = byteLength cs + byteLength ds := by
  induction cs with
  | nil => simp [byteLength]
  | cons c cs ih => simp [byteLength, ih, Nat.add_assoc]

@[simp] theorem newlines_append (cs ds : List Char) :
    newlines (cs ++ ds) = newlines cs + newlines ds := by
  induction cs with
  | nil => simp [newlines]
  | cons c cs ih => simp [newlines, ih, Nat.add_assoc]

/-- Every character takes a byte or more. -/
theorem length_le_byteLength (cs : List Char) : cs.length ≤ byteLength cs := by
  induction cs with
  | nil => simp
  | cons c cs ih =>
    have := c.utf8Size_pos
    simp only [byteLength, List.length_cons]
    omega

namespace Position

/-- The place after one character: a newline starts the next line. -/
def past (p : Position) (c : Char) : Position :=
  ⟨p.offset + c.utf8Size, if c = '\n' then p.line + 1 else p.line⟩

/-- The place after a run of characters. -/
def pastAll (p : Position) : List Char → Position
  | [] => p
  | c :: rest => (p.past c).pastAll rest

@[simp] theorem pastAll_nil (p : Position) : p.pastAll [] = p := rfl

@[simp] theorem pastAll_cons (p : Position) (c : Char) (cs : List Char) :
    p.pastAll (c :: cs) = (p.past c).pastAll cs := rfl

theorem pastAll_append (p : Position) (cs ds : List Char) :
    p.pastAll (cs ++ ds) = (p.pastAll cs).pastAll ds := by
  induction cs generalizing p with
  | nil => rfl
  | cons c cs ih => simp [ih]

/-- **A run moves the offset by its bytes.** -/
theorem pastAll_offset (p : Position) (cs : List Char) :
    (p.pastAll cs).offset = p.offset + byteLength cs := by
  induction cs generalizing p with
  | nil => rfl
  | cons c cs ih => simp [ih, past, byteLength, Nat.add_assoc]

/-- **A run moves the line by its newlines.** -/
theorem pastAll_line (p : Position) (cs : List Char) :
    (p.pastAll cs).line = p.line + newlines cs := by
  induction cs generalizing p with
  | nil => rfl
  | cons c cs ih =>
    by_cases h : c = '\n' <;> simp [ih, past, newlines, h, Nat.add_assoc]

end Position

end Stackling
