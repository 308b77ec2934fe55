import Mathlib.Data.List.TakeWhile
import Stackling.Token.Scan

/-
  File:     Stackling/Proofs/Token/Patterns.lean
  Subject:  The patterns of words, and what a scan has to do with them.

  The patterns say which texts are a token and which are skipped, without saying how one is
  found. A scan takes a text of a pattern; it fails only where none fits or where a character
  literal does not hold one character; and it does not look at what lies further on: where a
  text is cut behind a word, the word is scanned as before.

  * `QuotedBody`, `TokenText`, `SkipText` -- the patterns;
  * `skipText_scan`                       -- what is skipped;
  * `faulty_scan`                         -- where a scan fails;
  * `keeps_scan`                          -- a word of a text that is cut behind it.
-/
namespace Stackling

open Text

/-! ## 1. Patterns -/

/-- **What stands between quotes:** a backslash with any character but a newline after it, or
    any other character than a backslash and the quote. -/
inductive QuotedBody (quote : Char) : List Char → Prop
  | nil : QuotedBody quote []
  | escape {c cs} (hc : c ≠ '\n') (h : QuotedBody quote cs) : QuotedBody quote ('\\' :: c :: cs)
  | plain {c cs} (hq : c ≠ quote) (hb : c ≠ '\\') (h : QuotedBody quote cs) :
      QuotedBody quote (c :: cs)

/-- **The texts of tokens:** words, numbers, literals and signs. -/
inductive TokenText : List Char → Prop
  | word {c cs} (hc : isWordStart c = true) (hcs : ∀ d ∈ cs, isWordPart d = true) :
      TokenText (c :: cs)
  | number {c cs} (h : ∀ d ∈ c :: cs, isDigit d = true) : TokenText (c :: cs)
  | text {body} (h : QuotedBody '\x22' body) : TokenText ('\x22' :: body ++ ['\x22'])
  | character {body} (h : QuotedBody '\x27' body) : TokenText ('\x27' :: body ++ ['\x27'])
  | sign {k : TokenKind} {s : String} (hk : k ∉ keywords) (h : k.text? = some s) :
      TokenText s.toList

/-- **The texts that are skipped:** white space, comments to the end of a line, and comments to
    the nearest star and slash. -/
inductive SkipText : List Char → Prop
  | blank {c cs} (h : ∀ d ∈ c :: cs, isBlank d = true) : SkipText (c :: cs)
  | line {body} (h : '\n' ∉ body) : SkipText ('/' :: '/' :: body)
  | block {body} (h : ¬ ['*', '/'] <:+: body) : SkipText ('/' :: '*' :: body ++ ['*', '/'])

/-- No pattern fits at the start of a text. -/
def NoPattern (cs : List Char) : Prop :=
  ∀ lexeme rest, cs = lexeme ++ rest → ¬ TokenText lexeme ∧ ¬ SkipText lexeme

/-! ## 2. Literals and comments -/

/-- A literal is cut at the quote that ends it. -/
theorem quotedBody?_of_body {quote : Char} {body : List Char} (hquote : quote ≠ '\\')
    (h : QuotedBody quote body) (rest : List Char) :
    quotedBody? quote (body ++ quote :: rest) = some (body, rest) := by
  induction h with
  | nil =>
    rw [List.nil_append, quotedBody?.eq_def]
    split
    · rename_i heq
      cases heq
    · rename_i heq
      exact absurd (List.cons.inj heq).1 hquote
    · rename_i heq
      obtain ⟨rfl, rfl⟩ := List.cons.inj heq
      rw [if_pos rfl]
  | escape hc _ ih =>
    rw [List.cons_append, List.cons_append, quotedBody?, if_neg hc, ih]
    rfl
  | plain hq hb _ ih =>
    rw [List.cons_append, quotedBody?.eq_def]
    split
    · rename_i heq
      cases heq
    · rename_i heq
      exact absurd (List.cons.inj heq).1 hb
    · rename_i heq
      obtain ⟨rfl, rfl⟩ := List.cons.inj heq
      rw [if_neg hq, if_neg hb, ih]
      rfl

/-- What is cut off is the body of a literal. -/
theorem quotedBody_of_eq {quote : Char} {cs body rest : List Char}
    (h : quotedBody? quote cs = some (body, rest)) : QuotedBody quote body := by
  fun_induction quotedBody? quote cs generalizing body with
  | case1 => simp at h
  | case2 => simp at h
  | case3 c cs hc ih =>
    obtain ⟨⟨b, r⟩, hb, e⟩ := Option.map_eq_some_iff.1 h
    simp only [Prod.mk.injEq] at e
    obtain ⟨rfl, rfl⟩ := e
    exact .escape hc (ih hb)
  | case4 c cs =>
    simp only [Option.some.injEq, Prod.mk.injEq] at h
    obtain ⟨rfl, rfl⟩ := h
    exact .nil
  | case5 => simp at h
  | case6 c cs _ hq hb ih =>
    obtain ⟨⟨b, r⟩, hr, e⟩ := Option.map_eq_some_iff.1 h
    simp only [Prod.mk.injEq] at e
    obtain ⟨rfl, rfl⟩ := e
    exact .plain hq hb (ih hr)

/-- **A literal that does not end** fits nowhere. -/
theorem quotedBody?_eq_none {quote : Char} {cs : List Char} (hquote : quote ≠ '\\')
    (h : quotedBody? quote cs = none) {body rest : List Char} (hb : QuotedBody quote body) :
    cs ≠ body ++ quote :: rest := by
  rintro rfl
  cases h.symm.trans (quotedBody?_of_body hquote hb rest)

/-- A comment is cut at the nearest star and slash. -/
theorem commentBody?_of_body {body : List Char} (h : ¬ ['*', '/'] <:+: body)
    (rest : List Char) : commentBody? (body ++ '*' :: '/' :: rest) = some (body, rest) := by
  induction body with
  | nil => rfl
  | cons c body ih =>
    rw [List.infix_cons_iff, not_or] at h
    rw [List.cons_append, commentBody?.eq_def]
    split
    · rename_i heq
      cases heq
    · rename_i heq
      obtain ⟨rfl, hslash⟩ := List.cons.inj heq
      -- the slash is the first character of the body, which may not follow a star
      cases body with
      | nil => cases hslash
      | cons d body =>
        obtain ⟨rfl, -⟩ := List.cons.inj hslash
        exact absurd ⟨body, rfl⟩ h.1
    · rename_i heq
      obtain ⟨rfl, rfl⟩ := List.cons.inj heq
      rw [ih h.2]
      rfl

/-- The body of a comment has no star and slash in it. -/
theorem not_infix_of_eq {cs body rest : List Char} (h : commentBody? cs = some (body, rest)) :
    ¬ ['*', '/'] <:+: body := by
  fun_induction commentBody? cs generalizing body with
  | case1 => simp at h
  | case2 =>
    simp only [Option.some.injEq, Prod.mk.injEq] at h
    obtain ⟨rfl, rfl⟩ := h
    simp
  | case3 c cs hno ih =>
    obtain ⟨⟨b, r⟩, hb, e⟩ := Option.map_eq_some_iff.1 h
    simp only [Prod.mk.injEq] at e
    obtain ⟨rfl, rfl⟩ := e
    rw [List.infix_cons_iff, not_or]
    refine ⟨?_, ih hb⟩
    rintro ⟨tail, htail⟩
    obtain ⟨rfl, rfl⟩ := List.cons.inj htail
    exact hno _ rfl (commentBody?_eq hb).symm

/-- A star and a slash end a comment. -/
theorem commentBody?_ne_none (body rest : List Char) :
    commentBody? (body ++ '*' :: '/' :: rest) ≠ none := by
  induction body with
  | nil => exact nofun
  | cons c body ih =>
    rw [List.cons_append, commentBody?.eq_def]
    split
    · rename_i heq
      cases heq
    · exact nofun
    · rename_i heq
      obtain ⟨rfl, rfl⟩ := List.cons.inj heq
      rw [Ne, Option.map_eq_none_iff]
      exact ih

/-! ## 3. Signs -/

/-- The signs that start a longer one are signs, whatever follows them. -/
theorem sign?_cons_ne_none {c : Char} (hc : c = '=' ∨ c = '<' ∨ c = '>') (rest : List Char) :
    sign? (c :: rest) ≠ none := by
  unfold sign?
  rcases hc with rfl | rfl | rfl <;> split <;> simp_all

/-- A text that starts with the text of a sign starts with a sign. -/
theorem sign?_ne_none {k : TokenKind} {s : String} (hk : k ∉ keywords) (h : k.text? = some s)
    (rest : List Char) : sign? (s.toList ++ rest) ≠ none := by
  cases k <;> cases h <;> first
    | exact absurd (by decide) hk
    | exact sign?_cons_ne_none (by decide) rest
    | exact nofun

/-- A sign does not depend on what lies behind the character after it. -/
theorem sign?_cut {cs lexeme keep drop : List Char} {k : TokenKind}
    (h : sign? cs = some (k, lexeme, keep ++ drop)) :
    sign? (lexeme ++ keep) = some (k, lexeme, keep) := by
  unfold sign? at h
  split at h <;> simp only [Option.some.injEq, Prod.mk.injEq, reduceCtorEq] at h <;>
    obtain ⟨rfl, rfl, rfl⟩ := h <;> first
    | rfl
    | (unfold sign?
       cases keep <;> simp_all)

/-! ## 4. What a scan takes -/

/-- A run that is cut behind its end is the same run. -/
theorem run_cut {test : Char → Bool} {cs run keep drop : List Char}
    (hrun : cs.takeWhile test = run) (hrest : cs.dropWhile test = keep ++ drop) :
    (run ++ keep).takeWhile test = run ∧ (run ++ keep).dropWhile test = keep := by
  have hall : ∀ c ∈ run, test c = true := fun c hc => by
    rw [← hrun] at hc
    exact List.mem_takeWhile_imp hc
  rw [List.takeWhile_append_of_pos hall, List.dropWhile_append_of_pos hall]
  cases keep with
  | nil => simp
  | cons c keep =>
    have hc : test c = false := by
      have hhead := List.head?_dropWhile_not test cs
      simpa [hrest] using hhead
    simp [hc]

/-- What is skipped has a pattern. -/
theorem skipText_scan {c : Char} {cs lexeme rest : List Char}
    (h : scan c cs = .skip lexeme rest) : SkipText lexeme := by
  unfold scan at h
  split at h
  · cases h
  split at h
  · cases h
  split at h
  · rename_i hblank
    cases h
    rw [List.takeWhile_cons, if_pos hblank]
    refine .blank fun d hd => ?_
    rcases List.mem_cons.mp hd with rfl | hd
    · exact hblank
    · exact List.mem_takeWhile_imp hd
  split at h
  · unfold scanText at h
    split at h <;> cases h
  split at h
  · unfold scanCharacter at h
    split at h
    · split at h <;> cases h
    · cases h
  split at h
  · unfold scanSlash at h
    split at h
    · cases h
      refine .line fun hmem => ?_
      simpa using List.mem_takeWhile_imp hmem
    · split at h
      · rename_i hb
        cases h
        exact .block (not_infix_of_eq hb)
      · cases h
    · cases h
  · unfold scanSign at h
    split at h <;> cases h

/-- No pattern fits a text that starts with no letter, digit, blank or sign, and with no
    literal or comment. -/
theorem noPattern_cons {c : Char} {cs : List Char} (hword : isWordStart c = false)
    (hdigit : isDigit c = false) (hblank : isBlank c = false) (hslash : c ≠ '/')
    (hsign : sign? (c :: cs) = none) (htext : c = '\x22' → quotedBody? '\x22' cs = none)
    (hchar : c = '\x27' → quotedBody? '\x27' cs = none) : NoPattern (c :: cs) := by
  intro lexeme rest heq
  constructor
  · intro h
    cases h with
    | word hc _ =>
      obtain ⟨rfl, -⟩ := List.cons.inj heq
      cases hword.symm.trans hc
    | number h =>
      obtain ⟨rfl, -⟩ := List.cons.inj heq
      cases hdigit.symm.trans (h _ List.mem_cons_self)
    | text h =>
      obtain ⟨rfl, hcs⟩ := List.cons.inj heq
      exact quotedBody?_eq_none (by decide) (htext rfl) h (hcs.trans (List.append_assoc ..))
    | character h =>
      obtain ⟨rfl, hcs⟩ := List.cons.inj heq
      exact quotedBody?_eq_none (by decide) (hchar rfl) h (hcs.trans (List.append_assoc ..))
    | sign hk h => exact sign?_ne_none hk h rest (heq ▸ hsign)
  · intro h
    cases h with
    | blank h =>
      obtain ⟨rfl, -⟩ := List.cons.inj heq
      cases hblank.symm.trans (h _ List.mem_cons_self)
    | line | block => exact hslash (List.cons.inj heq).1

/-- **Where a scan fails,** no pattern fits, or a character literal does not hold one
    character. -/
theorem faulty_scan {c : Char} {cs : List Char} {cause : SyntaxCause}
    (h : scan c cs = .fault cause) :
    NoPattern (c :: cs) ∧ cause = .unrecognised (String.singleton c) ∨
      ∃ body rest, c :: cs = '\x27' :: body ++ '\x27' :: rest ∧ QuotedBody '\x27' body ∧
        (unescape body).length ≠ 1 ∧
        cause = .badCharacter (String.ofList ('\x27' :: body ++ ['\x27'])) := by
  unfold scan at h
  split at h
  · cases h
  rename_i hword
  split at h
  · cases h
  rename_i hdigit
  split at h
  · cases h
  rename_i hblank
  rw [Bool.not_eq_true] at hword hdigit hblank
  split at h
  · rename_i hc
    subst hc
    unfold scanText at h
    split at h
    · cases h
    · rename_i hnone
      cases h
      exact .inl ⟨noPattern_cons hword hdigit hblank (by decide) rfl (fun _ => hnone) nofun, rfl⟩
  split at h
  · rename_i hc
    subst hc
    unfold scanCharacter at h
    split at h
    · rename_i body rest hbody
      split at h
      · cases h
      · rename_i hno
        cases h
        refine .inr ⟨body, rest, ?_, quotedBody_of_eq hbody, fun hone => ?_, rfl⟩
        · rw [← quotedBody?_eq hbody]
          rfl
        · obtain ⟨d, hd⟩ := List.length_eq_one_iff.mp hone
          exact hno d hd
    · rename_i hnone
      cases h
      exact .inl ⟨noPattern_cons hword hdigit hblank (by decide) rfl nofun (fun _ => hnone), rfl⟩
  rename_i htext hchar
  split at h
  · unfold scanSlash at h
    split at h
    · cases h
    · split at h <;> cases h
    · cases h
  · rename_i hslash
    unfold scanSign at h
    split at h
    · cases h
    · rename_i hnone
      cases h
      exact .inl ⟨noPattern_cons hword hdigit hblank hslash hnone (fun hc => absurd hc htext)
        (fun hc => absurd hc hchar), rfl⟩

/-! ## 5. Where a text is cut -/

/-- Whatever lies behind the part `keep` of the rest, the first word is scanned as it is without
    it. -/
def Scan.Keeps (c : Char) : Scan → Prop
  | .token kind value lexeme rest => ∀ run keep drop, lexeme = c :: run → rest = keep ++ drop →
      scan c (run ++ keep) = .token kind value lexeme keep
  | .skip lexeme rest => ∀ run keep drop, lexeme = c :: run → rest = keep ++ drop →
      scan c (run ++ keep) = .skip lexeme keep
  | .fault _ => True

/-- A run of the first character's kind is kept. -/
theorem run_keeps {c : Char} {cs run keep drop : List Char} {test : Char → Bool}
    (hl : (c :: cs).takeWhile test = c :: run) (hr : (c :: cs).dropWhile test = keep ++ drop) :
    (c :: (run ++ keep)).takeWhile test = (c :: cs).takeWhile test ∧
      (c :: (run ++ keep)).dropWhile test = keep := by
  rw [hl]
  exact run_cut hl hr

/-- What follows the first character of a literal or a comment, up to a cut behind it. -/
theorem closed_cut {c : Char} {body close run : List Char} (keep : List Char)
    (h : c :: body ++ close = c :: run) : run ++ keep = body ++ (close ++ keep) := by
  rw [← (List.cons.inj h).2]
  exact List.append_assoc ..

/-- A slash is kept, and so is a comment. -/
theorem scanSlash_keeps (cs : List Char) : (scanSlash cs).Keeps '/' := by
  unfold scanSlash
  split
  · rename_i after
    rintro run keep drop hl hr
    obtain ⟨htake, hdrop⟩ := run_cut rfl hr
    obtain rfl := (List.cons.inj hl).2
    show scanSlash ('/' :: (after.takeWhile (· != '\n') ++ keep)) = _
    rw [scanSlash, htake, hdrop]
  · rename_i after
    split
    · rename_i body rest hbody
      rintro run keep drop hl rfl
      rw [closed_cut keep (show '/' :: '*' :: body ++ ['*', '/'] = '/' :: run from hl)]
      show scanSlash ('*' :: (body ++ '*' :: '/' :: keep)) = _
      rw [scanSlash, commentBody?_of_body (not_infix_of_eq hbody) keep]
    · rename_i hnone
      rintro run keep drop hl hr
      obtain rfl := (List.cons.inj hl).2
      cases keep with
      | nil => rfl
      | cons c keep =>
        obtain ⟨rfl, rfl⟩ := List.cons.inj hr
        have hopen : commentBody? keep = none := by
          cases h : commentBody? keep with
          | none => rfl
          | some found =>
            obtain ⟨body, rest⟩ := found
            have hsome := commentBody?_ne_none body (rest ++ drop)
            rw [← commentBody?_eq h] at hnone
            exact absurd ((List.append_assoc body ('*' :: '/' :: rest) drop).symm ▸ hnone) hsome
        show scanSlash ('*' :: keep) = _
        rw [scanSlash, hopen]
  · rename_i hline hcomment
    rintro run keep drop hl rfl
    obtain rfl := (List.cons.inj hl).2
    show scanSlash keep = _
    unfold scanSlash
    split
    · exact absurd rfl (hline _)
    · exact absurd rfl (hcomment _)
    · rfl

/-- **A scan does not look behind its word** further than to what the word ends at. -/
theorem keeps_scan (c : Char) (cs : List Char) : (scan c cs).Keeps c := by
  unfold scan
  split
  · rename_i hc
    intro run keep drop hl hr
    obtain ⟨htake, hdrop⟩ := run_keeps hl hr
    rw [scan, if_pos hc, scanWord, htake, hdrop]
  rename_i hword
  split
  · rename_i hc
    intro run keep drop hl hr
    obtain ⟨htake, hdrop⟩ := run_keeps hl hr
    rw [scan, if_neg hword, if_pos hc, scanNumber, htake, hdrop]
  rename_i hdigit
  split
  · rename_i hc
    intro run keep drop hl hr
    obtain ⟨htake, hdrop⟩ := run_keeps hl hr
    rw [scan, if_neg hword, if_neg hdigit, if_pos hc, scanBlank, htake, hdrop]
  rename_i hblank
  split
  · rename_i hc
    subst hc
    unfold scanText
    split
    · rename_i body rest hbody
      rintro run keep drop hl rfl
      rw [closed_cut keep hl]
      show scanText (body ++ '\x22' :: keep) = _
      rw [scanText, quotedBody?_of_body (by decide) (quotedBody_of_eq hbody) keep]
    · trivial
  split
  · rename_i hc
    subst hc
    unfold scanCharacter
    split
    · rename_i body rest hbody
      dsimp only
      split
      · rename_i d hd
        rintro run keep drop hl rfl
        rw [closed_cut keep hl]
        show scanCharacter (body ++ '\x27' :: keep) = _
        rw [scanCharacter, quotedBody?_of_body (by decide) (quotedBody_of_eq hbody) keep]
        dsimp only
        rw [hd]
      · trivial
    · trivial
  rename_i htext hchar
  split
  · rename_i hc
    subst hc
    exact scanSlash_keeps cs
  · rename_i hslash
    unfold scanSign
    split
    · rename_i kind lexeme rest hsign
      rintro run keep drop rfl rfl
      have hcut := sign?_cut hsign
      rw [scan, if_neg hword, if_neg hdigit, if_neg hblank, if_neg htext, if_neg hchar,
        if_neg hslash, scanSign, ← List.cons_append, hcut]
    · trivial

end Stackling
