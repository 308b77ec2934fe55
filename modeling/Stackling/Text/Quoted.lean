import Stackling.Text.Printable

/-
  File:     Stackling/Text/Quoted.lean
  Subject:  Text and characters in quotes.

  A quoted text shows its content without doubt about what stands where: the quote in use
  and the backslash get a backslash, five controls have a letter of their own, and any other
  hidden character is written by its number as `\\u`, an opening brace, lower-case hexadecimal
  and a closing brace.

  * `escaped`    -- one character as it stands between quotes;
  * `quoteText`  -- a text in double quotes;
  * `quoteChar`  -- a character in single quotes.
-/
namespace Stackling.Text

/-- The lower-case hexadecimal digits of a number, without leading zeros. -/
def hexDigits (n : Nat) : List Char := Nat.toDigits 16 n

/-- One character as it stands between two of `quote`. -/
def escaped (quote c : Char) : List Char :=
  if c = '\x00' then ['\\', '0']
  else if c = '\t' then ['\\', 't']
  else if c = '\r' then ['\\', 'r']
  else if c = '\n' then ['\\', 'n']
  else if c = '\\' ∨ c = quote then ['\\', c]
  else if isHidden c then ['\\', 'u', '\x7b'] ++ hexDigits c.toNat ++ ['\x7d']
  else [c]

/-- The characters of a text between two of `quote`. -/
def quotedWith (quote : Char) (cs : List Char) : List Char :=
  quote :: cs.flatMap (escaped quote) ++ [quote]

/-- A text in double quotes. -/
def quoteText (s : String) : String := String.ofList (quotedWith '\x22' s.toList)

/-- A character in single quotes. -/
def quoteChar (c : Char) : String := String.ofList (quotedWith '\x27' [c])

/-- No character disappears between quotes. -/
theorem escaped_ne_nil (quote c : Char) : escaped quote c ≠ [] := by
  unfold escaped
  repeat' split
  all_goals simp

end Stackling.Text
