/-
  File:     Stackling/Token/Escape.lean
  Subject:  Backslash escapes in text and character literals.

  Known escapes are `n`, `t`, `r`, `0`, the backslash and the two quotes, and `x` with up to
  two hexadecimal digits, which names a character below U+0100. Of an `x` without a digit
  both characters stay, and before any other character the backslash stays.
-/
namespace Stackling

/-- The value of a hexadecimal digit. -/
def hexDigit? (c : Char) : Option Nat :=
  if '0' ≤ c ∧ c ≤ '9' then some (c.toNat - '0'.toNat)
  else if 'a' ≤ c ∧ c ≤ 'f' then some (c.toNat - 'a'.toNat + 10)
  else if 'A' ≤ c ∧ c ≤ 'F' then some (c.toNat - 'A'.toNat + 10)
  else none

/-- The character that a letter after a backslash stands for. -/
def shortEscape? : Char → Option Char
  | 'n' => some '\n'
  | 't' => some '\t'
  | 'r' => some '\r'
  | '0' => some '\x00'
  | '\\' => some '\\'
  | '\x22' => some '\x22'
  | '\x27' => some '\x27'
  | _ => none

/-- The characters a literal stands for, given those between its quotes. -/
def unescape : List Char → List Char
  | [] => []
  | '\\' :: 'x' :: a :: b :: rest =>
    match hexDigit? a, hexDigit? b with
    | some m, some n => Char.ofNat (16 * m + n) :: unescape rest
    | some m, none => Char.ofNat m :: unescape (b :: rest)
    | none, _ => '\\' :: 'x' :: unescape (a :: b :: rest)
  | ['\\', 'x', a] =>
    match hexDigit? a with
    | some m => [Char.ofNat m]
    | none => '\\' :: 'x' :: unescape [a]
  | '\\' :: c :: rest =>
    match shortEscape? c with
    | some d => d :: unescape rest
    | none => '\\' :: unescape (c :: rest)
  | c :: rest => c :: unescape rest

/-- Without a backslash nothing changes. -/
theorem unescape_of_not_mem {cs : List Char} (h : '\\' ∉ cs) : unescape cs = cs := by
  induction cs with
  | nil => simp [unescape]
  | cons c cs ih =>
    have hc : c ≠ '\\' := fun e => h (e ▸ List.mem_cons_self)
    have hcs : '\\' ∉ cs := fun m => h (List.mem_cons_of_mem _ m)
    rw [unescape.eq_def]
    split <;> simp_all

end Stackling
