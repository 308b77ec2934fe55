/-
  File:     Stackling/Text/Blank.lean
  Subject:  White space.

  The characters with the Unicode property White_Space. They separate
  tokens and are cut off the end of a quoted source line.
-/
namespace Stackling.Text

/-- The characters with the property White_Space. -/
def isBlank (c : Char) : Bool :=
  let n := c.toNat
  (9 ≤ n && n ≤ 13) || n == 0x20 || n == 0x85 || n == 0xA0 || n == 0x1680
    || (0x2000 ≤ n && n ≤ 0x200A) || n == 0x2028 || n == 0x2029 || n == 0x202F
    || n == 0x205F || n == 0x3000

/-- The text without the blanks at its end. -/
def dropBlankEnd (cs : List Char) : List Char :=
  (cs.reverse.dropWhile isBlank).reverse

/-- **Only blanks are cut:** with the run of blanks at its end put back, the text is whole. -/
theorem dropBlankEnd_append (cs : List Char) :
    dropBlankEnd cs ++ (cs.reverse.takeWhile isBlank).reverse = cs := by
  rw [dropBlankEnd, ← List.reverse_append, List.takeWhile_append_dropWhile, List.reverse_reverse]

end Stackling.Text
