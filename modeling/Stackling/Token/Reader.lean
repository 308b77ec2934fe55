import Stackling.Token.Scan

/-
  File:     Stackling/Token/Reader.lean
  Subject:  A text as a list of tokens.

  `tokenize` scans one word after the other, drops what is to be skipped, and closes the
  list with the token that marks the end of the text. The first fault stops it; the fault is
  placed where its word starts.
-/
namespace Stackling

/-- The tokens from place `p` on, after those in `before`, which are kept in reverse.
    Each word takes a character or more, so `fuel` may be the number of characters. -/
def readTokens (fuel : Nat) (p : Position) (cs : List Char) (before : List Token) :
    Except SyntaxError (List Token) :=
  match fuel, cs with
  | 0, _ => .ok (before.reverse ++ [Token.finish p])
  | _, [] => .ok (before.reverse ++ [Token.finish p])
  | fuel + 1, c :: cs =>
    match scan c cs with
    | .token kind value lexeme rest =>
      let q := p.pastAll lexeme
      readTokens fuel q rest (⟨kind, value, ⟨p, q⟩⟩ :: before)
    | .skip lexeme rest => readTokens fuel (p.pastAll lexeme) rest before
    | .fault cause => .error ⟨cause, p⟩

/-- A word that takes something leaves less than the text it starts. -/
theorem length_rest_le {c : Char} {cs lexeme rest : List Char} (h : lexeme ++ rest = c :: cs)
    (hne : lexeme ≠ []) : rest.length ≤ cs.length := by
  have hl := congrArg List.length h
  have hpos := List.length_pos_iff.2 hne
  simp only [List.length_append, List.length_cons] at hl
  omega

/-- **Fuel beyond the number of characters changes nothing.** -/
theorem readTokens_fuel {m n : Nat} {cs : List Char} (hm : cs.length ≤ m) (hn : cs.length ≤ n)
    (p : Position) (before : List Token) :
    readTokens m p cs before = readTokens n p cs before := by
  induction m generalizing n p cs before with
  | zero =>
    obtain rfl := List.length_eq_zero_iff.1 (Nat.le_zero.1 hm)
    cases n <;> rfl
  | succ m ih =>
    cases cs with
    | nil => cases n <;> rfl
    | cons c cs =>
      cases n with
      | zero => simp at hn
      | succ n =>
        have hm' : cs.length ≤ m := by simpa using hm
        have hn' : cs.length ≤ n := by simpa using hn
        have h := covers_scan c cs
        simp only [readTokens]
        split
        · rename_i kind value lexeme rest e
          rw [e] at h
          have hle := length_rest_le h.1 h.2
          exact ih (by omega) (by omega) _ _
        · rename_i lexeme rest e
          rw [e] at h
          have hle := length_rest_le h.1 h.2
          exact ih (by omega) (by omega) _ _
        · rfl

/-- The tokens of a text, or the first fault in it. -/
def tokenize (source : String) : Except SyntaxError (List Token) :=
  readTokens source.toList.length .origin source.toList []

/-- The empty text has only the closing token. -/
theorem tokenize_empty : tokenize "" = .ok [Token.finish .origin] := rfl

end Stackling
