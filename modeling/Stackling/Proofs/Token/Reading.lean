import Stackling.Token.Reader

/-
  File:     Stackling/Proofs/Token/Reading.lean
  Subject:  A text is read word by word.

  The rounds of `readTokens` are counted down from the number of characters, and the tokens so
  far are handed on. What a round does is said here without either: a text is read from a
  place, and the first word of it is put before what the rest is read as.

  * `readFrom`                                    -- the tokens of a text that starts at a place;
  * `readFrom_token`, `readFrom_skip`, `readFrom_fault` -- one round of it;
  * `readFrom_blank`                              -- a blank before a text;
  * `words_induct`                                -- induction on the words of a text.
-/
namespace Stackling

open Text

/-- The tokens of a text that starts at the place `p`, with the token that ends them. -/
def readFrom (p : Position) (cs : List Char) : Except SyntaxError (List Token) :=
  readTokens cs.length p cs []

theorem tokenize_eq (source : String) : tokenize source = readFrom .origin source.toList := rfl

/-- The tokens so far are put before those still to come. -/
theorem readTokens_before (fuel : Nat) (p : Position) (cs : List Char) (before : List Token) :
    readTokens fuel p cs before = (readTokens fuel p cs []).map (before.reverse ++ ·) := by
  induction fuel generalizing p cs before with
  | zero => rfl
  | succ fuel ih =>
    cases cs with
    | nil => rfl
    | cons c cs =>
      simp only [readTokens]
      split
      · rename_i kind value lexeme rest _
        rw [ih _ _ (_ :: before), ih _ _ [_]]
        cases readTokens fuel (p.pastAll lexeme) rest [] <;> simp [Except.map]
      · exact ih _ _ before
      · rfl

theorem readFrom_nil (p : Position) : readFrom p [] = .ok [Token.finish p] := rfl

variable {c : Char} {cs lexeme rest : List Char}

/-- **A text that starts with a token** is read as the token and the rest. -/
theorem readFrom_token {kind : TokenKind} {value : String}
    (h : scan c cs = .token kind value lexeme rest) (p : Position) :
    readFrom p (c :: cs) =
      (readFrom (p.pastAll lexeme) rest).map (⟨kind, value, ⟨p, p.pastAll lexeme⟩⟩ :: ·) := by
  have hcovers := covers_scan c cs
  rw [h] at hcovers
  have hle := length_rest_le hcovers.1 hcovers.2
  rw [readFrom, List.length_cons, readTokens, h]
  show readTokens cs.length (p.pastAll lexeme) rest [_] = _
  rw [readTokens_before, readTokens_fuel hle (Nat.le_refl _)]
  rfl

/-- The rest is read if the text is. -/
theorem readFrom_token_ok {kind : TokenKind} {value : String} {p : Position}
    {tokens : List Token} (hscan : scan c cs = .token kind value lexeme rest)
    (h : readFrom p (c :: cs) = .ok tokens) :
    ∃ behind, readFrom (p.pastAll lexeme) rest = .ok behind ∧
      tokens = ⟨kind, value, ⟨p, p.pastAll lexeme⟩⟩ :: behind := by
  rw [readFrom_token hscan] at h
  cases hrest : readFrom (p.pastAll lexeme) rest with
  | error e =>
    rw [hrest] at h
    cases h
  | ok behind =>
    rw [hrest] at h
    cases h
    exact ⟨behind, rfl, rfl⟩

/-- **What is skipped** changes only the place. -/
theorem readFrom_skip (h : scan c cs = .skip lexeme rest) (p : Position) :
    readFrom p (c :: cs) = readFrom (p.pastAll lexeme) rest := by
  have hcovers := covers_scan c cs
  rw [h] at hcovers
  have hle := length_rest_le hcovers.1 hcovers.2
  rw [readFrom, List.length_cons, readTokens, h]
  exact readTokens_fuel hle (Nat.le_refl _) _ _

theorem readFrom_fault {cause : SyntaxCause} (h : scan c cs = .fault cause) (p : Position) :
    readFrom p (c :: cs) = .error ⟨cause, p⟩ := by
  rw [readFrom, List.length_cons, readTokens, h]

/-- A letter is no blank, nor is a digit. -/
theorem isBlank_of_isWordPart {c : Char} (h : isWordPart c = true) : isBlank c = false := by
  simp only [isWordPart, isWordStart, isDigit, Bool.or_eq_true, Bool.and_eq_true,
    decide_eq_true_eq, beq_iff_eq, Char.le_def, UInt32.le_iff_toNat_le] at h
  have hn : 48 ≤ c.toNat ∧ c.toNat ≤ 122 := by
    rcases h with ((⟨h₁, h₂⟩ | ⟨h₁, h₂⟩) | rfl) | ⟨h₁, h₂⟩
    · exact ⟨Nat.le_trans (by decide) h₁, h₂⟩
    · exact ⟨Nat.le_trans (by decide) h₁, Nat.le_trans h₂ (by decide)⟩
    · decide
    · exact ⟨h₁, Nat.le_trans h₂ (by decide)⟩
  unfold isBlank
  simp only [Bool.or_eq_false_iff, Bool.and_eq_false_iff, decide_eq_false_iff_not,
    beq_eq_false_iff_ne]
  omega

/-- At a blank, the run of blanks is skipped. -/
theorem scan_blank (h : isBlank c = true) (cs : List Char) : scan c cs = scanBlank (c :: cs) := by
  have hpart : isWordPart c = false := by
    rw [Bool.eq_false_iff]
    intro hpart
    cases h.symm.trans (isBlank_of_isWordPart hpart)
  rw [isWordPart, Bool.or_eq_false_iff] at hpart
  rw [scan, hpart.1, hpart.2, h]
  rfl

/-- What is scanned as a token does not start with a blank. -/
theorem isBlank_of_scan {kind : TokenKind} {value : String}
    (h : scan c cs = .token kind value lexeme rest) : isBlank c = false := by
  rw [Bool.eq_false_iff]
  intro hblank
  rw [scan_blank hblank] at h
  cases h

/-- **A blank before a text** changes only the place. -/
theorem readFrom_blank (h : isBlank c = true) (cs : List Char) (p : Position) :
    readFrom p (c :: cs) = readFrom (p.past c) cs := by
  have hscan : scan c cs = .skip (c :: cs.takeWhile isBlank) (cs.dropWhile isBlank) := by
    rw [scan_blank h, scanBlank, List.takeWhile_cons, List.dropWhile_cons, if_pos h, if_pos h]
  rw [readFrom_skip hscan]
  cases cs with
  | nil => rfl
  | cons d ds =>
    by_cases hd : isBlank d = true
    · rw [readFrom_skip (scan_blank hd ds)]
      rfl
    · rw [List.takeWhile_cons, List.dropWhile_cons, if_neg hd, if_neg hd]
      rfl

/-- A scan takes the first character and more. -/
theorem run_of_covers (h : lexeme ++ rest = c :: cs ∧ lexeme ≠ []) :
    ∃ run, lexeme = c :: run ∧ cs = run ++ rest := by
  obtain ⟨heq, hne⟩ := h
  cases lexeme with
  | nil => exact absurd rfl hne
  | cons d run =>
    obtain ⟨rfl, rfl⟩ := List.cons.inj heq
    exact ⟨run, rfl, rfl⟩

/-- **Induction on the words of a text:** it is at its end, or it starts with a blank, a token
    or a comment, or with none of them. -/
@[elab_as_elim]
theorem words_induct {motive : List Char → Prop} (nil : motive [])
    (blank : ∀ c cs, isBlank c = true → motive cs → motive (c :: cs))
    (token : ∀ c run rest kind value, isBlank c = false →
      scan c (run ++ rest) = .token kind value (c :: run) rest → motive rest →
        motive (c :: (run ++ rest)))
    (comment : ∀ c run rest, isBlank c = false → scan c (run ++ rest) = .skip (c :: run) rest →
      motive rest → motive (c :: (run ++ rest)))
    (fault : ∀ c cs cause, scan c cs = .fault cause → motive (c :: cs))
    (cs : List Char) : motive cs := by
  induction hn : cs.length using Nat.strongRecOn generalizing cs with
  | ind n ih =>
    cases cs with
    | nil => exact nil
    | cons c cs =>
      have hcovers := covers_scan c cs
      have hshort : ∀ run rest : List Char, rest.length < (c :: (run ++ rest)).length := by
        intro run rest
        rw [List.length_cons, List.length_append]
        exact Nat.lt_succ_of_le (Nat.le_add_left ..)
      cases hblank : isBlank c with
      | true => exact blank c cs hblank (ih _ (hn ▸ hshort [] cs) cs rfl)
      | false =>
      cases hscan : scan c cs with
      | token kind value lexeme rest =>
        rw [hscan] at hcovers
        obtain ⟨run, rfl, rfl⟩ := run_of_covers hcovers
        exact token _ _ _ _ _ hblank hscan (ih _ (hn ▸ hshort run rest) rest rfl)
      | skip lexeme rest =>
        rw [hscan] at hcovers
        obtain ⟨run, rfl, rfl⟩ := run_of_covers hcovers
        exact comment _ _ _ hblank hscan (ih _ (hn ▸ hshort run rest) rest rfl)
      | fault cause => exact fault _ _ _ hscan

end Stackling
