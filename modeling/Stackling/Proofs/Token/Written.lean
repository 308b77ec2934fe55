import Stackling.Proofs.Token.Patterns
import Stackling.Proofs.Token.Reading

/-
  File:     Stackling/Proofs/Token/Written.lean
  Subject:  Words that are written are read back.

  A word is a kind with a value. It is written as its value; a text and a character are written
  between quotes, with a backslash before each backslash and each quote of their kind. One
  blank stands between two words. Whatever a text holds, newlines, comments and quotes of the
  other kind included, the words are read as they were.

  * `Word.Writable`          -- which words there are;
  * `written`, `write`       -- the text of some words;
  * `placed`                 -- the tokens that it has;
  * `scan_lexeme`            -- one word is scanned as itself;
  * `tokenize_write`         -- a text of words has the tokens of the words.
-/
namespace Stackling

open Text

/-! ## 1. Words -/

/-- A kind and a value. -/
structure Word where
  kind : TokenKind
  value : String
  deriving DecidableEq

/-- Whether a text is a word that no keyword takes. -/
def isName (s : String) : Bool :=
  match s.toList with
  | [] => false
  | c :: cs => isWordStart c && cs.all isWordPart && (reserved? s).isNone

/-- **The words that can be written.** The end of a text is none. -/
inductive Word.Writable : Word → Prop
  | identifier {name : String} (h : isName name = true) : Writable ⟨.identifier, name⟩
  | fixed {kind : TokenKind} {value : String} (h : kind.text? = some value) :
      Writable ⟨kind, value⟩
  | number {digits : String} (hne : digits.toList ≠ [])
      (h : ∀ c ∈ digits.toList, isDigit c = true) : Writable ⟨.number, digits⟩
  | text (value : String) : Writable ⟨.text, value⟩
  | character (c : Char) : Writable ⟨.character, String.singleton c⟩

/-- A text with a backslash before each backslash and each quote of the kind. -/
def escape (quote : Char) : List Char → List Char
  | [] => []
  | c :: cs => if c = '\\' ∨ c = quote then '\\' :: c :: escape quote cs else c :: escape quote cs

/-- How a word is written. -/
def Word.lexeme (w : Word) : List Char :=
  match w.kind with
  | .text => '\x22' :: escape '\x22' w.value.toList ++ ['\x22']
  | .character => '\x27' :: escape '\x27' w.value.toList ++ ['\x27']
  | _ => w.value.toList

/-- The text of some words, with one blank between two of them. -/
def written : List Word → List Char
  | [] => []
  | [w] => w.lexeme
  | w :: rest => w.lexeme ++ ' ' :: written rest

def write (ws : List Word) : String := String.ofList (written ws)

/-- The tokens of the words, the first of them at the place `p`. -/
def placed (p : Position) : List Word → List Token
  | [] => [Token.finish p]
  | [w] =>
    [⟨w.kind, w.value, ⟨p, p.pastAll w.lexeme⟩⟩, Token.finish (p.pastAll w.lexeme)]
  | w :: rest =>
    ⟨w.kind, w.value, ⟨p, p.pastAll w.lexeme⟩⟩ :: placed ((p.pastAll w.lexeme).past ' ') rest

/-! ## 2. Quotes -/

/-- The two characters that literals stand between. -/
def IsQuote (c : Char) : Prop := c = '\x22' ∨ c = '\x27'

/-- An escaped text may stand between quotes. -/
theorem quotedBody_escape {quote : Char} (hq : IsQuote quote) (cs : List Char) :
    QuotedBody quote (escape quote cs) := by
  induction cs with
  | nil => exact .nil
  | cons c cs ih =>
    unfold escape
    by_cases hc : c = '\\' ∨ c = quote
    · rw [if_pos hc]
      refine .escape ?_ ih
      rcases hc with rfl | rfl
      · decide
      · rcases hq with rfl | rfl <;> decide
    · rw [if_neg hc]
      exact .plain (not_or.mp hc).2 (not_or.mp hc).1 ih

/-- A short escape stands for its character. -/
theorem unescape_short {c d : Char} (hx : c ≠ 'x') (h : shortEscape? c = some d)
    (cs : List Char) : unescape ('\\' :: c :: cs) = d :: unescape cs := by
  rw [unescape.eq_def]
  split
  · rename_i heq
    cases heq
  · rename_i heq
    exact absurd (List.cons.inj (List.cons.inj heq).2).1 hx
  · rename_i heq
    exact absurd (List.cons.inj (List.cons.inj heq).2).1 hx
  · rename_i heq
    obtain ⟨rfl, rfl⟩ := List.cons.inj (List.cons.inj heq).2
    rw [h]
  · rename_i hno heq
    obtain ⟨rfl, rfl⟩ := List.cons.inj heq
    exact absurd rfl (hno c cs rfl)

/-- Any other character than a backslash stands for itself. -/
theorem unescape_plain {c : Char} (h : c ≠ '\\') (cs : List Char) :
    unescape (c :: cs) = c :: unescape cs := by
  rw [unescape.eq_def]
  split <;> simp_all

/-- **What was escaped is resolved.** -/
theorem unescape_escape {quote : Char} (hq : IsQuote quote) (cs : List Char) :
    unescape (escape quote cs) = cs := by
  induction cs with
  | nil => rfl
  | cons c cs ih =>
    unfold escape
    by_cases hc : c = '\\' ∨ c = quote
    · have hshort : c ≠ 'x' ∧ shortEscape? c = some c := by
        rcases hc with rfl | rfl
        · decide
        · rcases hq with rfl | rfl <;> decide
      rw [if_pos hc, unescape_short hshort.1 hshort.2, ih]
    · rw [if_neg hc, unescape_plain (not_or.mp hc).1, ih]

/-! ## 3. One word -/

/-- What may follow a word: nothing, or a blank. -/
def Apart (rest : List Char) : Prop := ∀ c ∈ rest.head?, c = ' '

theorem Apart.nil : Apart [] := nofun

theorem Apart.blank (rest : List Char) : Apart (' ' :: rest) := by
  intro c hc
  exact (Option.some.inj hc).symm

/-- No run of such characters goes on in the text. -/
def EndsRun (test : Char → Bool) (rest : List Char) : Prop := ∀ c ∈ rest.head?, test c = false

/-- A run of other characters than blanks ends before a blank. -/
theorem Apart.ends {test : Char → Bool} {rest : List Char} (h : Apart rest)
    (hblank : test ' ' = false) : EndsRun test rest := by
  intro c hc
  rw [h c hc, hblank]

/-- A run of characters is taken whole. -/
theorem EndsRun.run {test : Char → Bool} {rest run : List Char} (h : EndsRun test rest)
    (hrun : ∀ c ∈ run, test c = true) :
    (run ++ rest).takeWhile test = run ∧ (run ++ rest).dropWhile test = rest := by
  rw [List.takeWhile_append_of_pos hrun, List.dropWhile_append_of_pos hrun]
  cases rest with
  | nil => simp
  | cons c rest => simp [h c rfl]

/-- Two runs that both end where the rest begins are the same run. -/
theorem EndsRun.cut {test : Char → Bool} {run run' rest rest' : List Char} (hrest : EndsRun test rest)
    (hrest' : EndsRun test rest') (hrun : ∀ c ∈ run, test c = true)
    (hrun' : ∀ c ∈ run', test c = true) (h : run ++ rest = run' ++ rest') :
    run = run' ∧ rest = rest' := by
  obtain ⟨htake, hdrop⟩ := hrest.run hrun
  obtain ⟨htake', hdrop'⟩ := hrest'.run hrun'
  rw [h] at htake hdrop
  exact ⟨htake.symm.trans htake', hdrop.symm.trans hdrop'⟩

/-- A word in letters is scanned whole. -/
theorem scan_name {s : String} {c : Char} {cs rest : List Char} (hs : s.toList = c :: cs)
    (hc : isWordStart c = true) (hcs : ∀ d ∈ cs, isWordPart d = true)
    (hrest : EndsRun isWordPart rest) :
    scan c (cs ++ rest) = .token ((reserved? s).getD .identifier) s (c :: cs) rest := by
  have hrun : ∀ d ∈ c :: cs, isWordPart d = true :=
    List.forall_mem_cons.mpr ⟨by simp [isWordPart, hc], hcs⟩
  obtain ⟨htake, hdrop⟩ := hrest.run hrun
  rw [List.cons_append] at htake hdrop
  rw [scan, if_pos hc, scanWord, htake, hdrop, ← hs, String.ofList_toList]

/-- A keyword is a word in letters. -/
theorem keyword_name {k : TokenKind} {s : String} (hk : k ∈ keywords) (h : k.text? = some s) :
    ∃ c cs, s.toList = c :: cs ∧ isWordStart c = true ∧ (∀ d ∈ cs, isWordPart d = true) ∧
      reserved? s = some k := by
  simp only [keywords, List.mem_cons, List.not_mem_nil, or_false] at hk
  rcases hk with rfl | rfl | rfl | rfl | rfl | rfl | rfl | rfl | rfl <;> cases h <;>
    exact ⟨_, _, rfl, by decide, List.all_eq_true.mp (by decide), by decide⟩

/-- The characters that make a longer sign or a comment of a sign before them. -/
def isSignPart (c : Char) : Bool := c == '=' || c == '/' || c == '*'

/-- **A sign is scanned as itself,** unless what follows makes another one of it. -/
theorem scan_sign {k : TokenKind} {s : String} (hk : k ∉ keywords) (h : k.text? = some s)
    {rest : List Char} (hrest : EndsRun isSignPart rest) :
    ∃ c cs, s.toList = c :: cs ∧ scan c (cs ++ rest) = .token k s (c :: cs) rest := by
  cases rest with
  | nil => cases k <;> cases h <;> first | exact absurd (by decide) hk | exact ⟨_, _, rfl, rfl⟩
  | cons d rest =>
    have hd : isSignPart d = false := hrest d rfl
    simp only [isSignPart, Bool.or_eq_false_iff, beq_eq_false_iff_ne] at hd
    obtain ⟨⟨he, hs⟩, ht⟩ := hd
    cases k <;> cases h <;> first
      | exact absurd (by decide) hk
      | exact ⟨_, _, rfl, rfl⟩
      | exact ⟨'/', [], rfl, (show scanSlash (d :: rest) = _ by simp [scanSlash, hs, ht])⟩
      | exact ⟨'=', [], rfl, (show scanSign '=' (d :: rest) = _ by simp [scanSign, sign?, he])⟩
      | exact ⟨'<', [], rfl, (show scanSign '<' (d :: rest) = _ by simp [scanSign, sign?, he])⟩
      | exact ⟨'>', [], rfl, (show scanSign '>' (d :: rest) = _ by simp [scanSign, sign?, he])⟩

theorem isWordStart_of_isDigit {c : Char} (h : isDigit c = true) : isWordStart c = false := by
  simp only [isDigit, Bool.and_eq_true, decide_eq_true_eq, Char.le_def,
    UInt32.le_iff_toNat_le] at h
  have hn : c.toNat ≤ 57 := h.2
  rw [Bool.eq_false_iff]
  intro hstart
  simp only [isWordStart, Bool.or_eq_true, Bool.and_eq_true, decide_eq_true_eq, beq_iff_eq,
    Char.le_def, UInt32.le_iff_toNat_le] at hstart
  have hge : 65 ≤ c.toNat := by
    rcases hstart with (⟨h₁, -⟩ | ⟨h₁, -⟩) | rfl
    · exact Nat.le_trans (by decide) h₁
    · exact h₁
    · decide
  omega

/-- A number is scanned whole. -/
theorem scan_number {s : String} {c : Char} {cs rest : List Char} (hs : s.toList = c :: cs)
    (h : ∀ d ∈ c :: cs, isDigit d = true) (hrest : EndsRun isDigit rest) :
    scan c (cs ++ rest) = .token .number s (c :: cs) rest := by
  have hc := h c List.mem_cons_self
  obtain ⟨htake, hdrop⟩ := hrest.run h
  rw [List.cons_append] at htake hdrop
  rw [scan, if_neg (by rw [isWordStart_of_isDigit hc]; decide), if_pos hc, scanNumber, htake, hdrop,
    ← hs, String.ofList_toList]

/-- A text is scanned with the value that its body has. -/
theorem scan_text {body : List Char} {value : String} (hb : QuotedBody '\x22' body)
    (hv : unescape body = value.toList) (rest : List Char) :
    scan '\x22' (body ++ '\x22' :: rest) =
      .token .text value ('\x22' :: body ++ ['\x22']) rest := by
  show scanText _ = _
  rw [scanText, quotedBody?_of_body (by decide) hb]
  show Scan.token _ (String.ofList (unescape _)) _ _ = _
  rw [hv, String.ofList_toList]

/-- So is a character. -/
theorem scan_character {body : List Char} {c : Char} (hb : QuotedBody '\x27' body)
    (hv : unescape body = [c]) (rest : List Char) :
    scan '\x27' (body ++ '\x27' :: rest) =
      .token .character (String.singleton c) ('\x27' :: body ++ ['\x27']) rest := by
  show scanCharacter _ = _
  rw [scanCharacter, quotedBody?_of_body (by decide) hb]
  dsimp only
  rw [hv]

theorem lexeme_of_text? {kind : TokenKind} {value : String} (h : kind.text? = some value) :
    Word.lexeme ⟨kind, value⟩ = value.toList := by
  cases kind <;> first | rfl | cases h

/-- **A word is scanned as itself,** whatever follows apart from it. -/
theorem scan_lexeme {w : Word} (hw : w.Writable) {rest : List Char} (hrest : Apart rest) :
    ∃ c cs, w.lexeme = c :: cs ∧ scan c (cs ++ rest) = .token w.kind w.value w.lexeme rest := by
  cases hw with
  | @identifier name h =>
    unfold isName at h
    cases hs : name.toList with
    | nil => simp [hs] at h
    | cons c cs =>
      simp only [hs, Bool.and_eq_true, List.all_eq_true, Option.isNone_iff_eq_none] at h
      refine ⟨c, cs, hs, ?_⟩
      rw [scan_name hs h.1.1 h.1.2 (hrest.ends (by decide)), h.2, ← hs]
      rfl
  | @fixed kind value h =>
    rw [lexeme_of_text? h]
    by_cases hk : kind ∈ keywords
    · obtain ⟨c, cs, hs, hc, hcs, hreserved⟩ := keyword_name hk h
      refine ⟨c, cs, hs, ?_⟩
      rw [scan_name hs hc hcs (hrest.ends (by decide)), hreserved, hs]
      rfl
    · obtain ⟨c, cs, hs, hscan⟩ := scan_sign hk h (hrest.ends (by decide))
      exact ⟨c, cs, hs, hs.symm ▸ hscan⟩
  | @number digits hne h =>
    cases hs : digits.toList with
    | nil => exact absurd hs hne
    | cons c cs =>
      have hscan := scan_number hs (hs ▸ h) (hrest.ends (by decide))
      exact ⟨c, cs, hs, hscan.trans (by rw [← hs]; rfl)⟩
  | text value =>
    refine ⟨_, _, rfl, ?_⟩
    show scan '\x22' (escape '\x22' value.toList ++ ['\x22'] ++ rest) = _
    rw [List.append_assoc]
    exact scan_text (quotedBody_escape (.inl rfl) _) (unescape_escape (.inl rfl) _) rest
  | character c =>
    have hvalue : (String.singleton c).toList = [c] := String.toList_singleton c
    have hlexeme : Word.lexeme ⟨.character, String.singleton c⟩ =
      '\x27' :: (escape '\x27' [c] ++ ['\x27']) := by rw [Word.lexeme, hvalue]; rfl
    refine ⟨_, _, hlexeme, ?_⟩
    rw [List.append_assoc, hlexeme]
    exact scan_character (quotedBody_escape (.inr rfl) _) (unescape_escape (.inr rfl) _) rest

/-! ## 4. Words in a text -/

/-- **Words are read as the tokens of their text.** -/
theorem readFrom_written (p : Position) : (ws : List Word) → (∀ w ∈ ws, w.Writable) →
    readFrom p (written ws) = .ok (placed p ws)
  | [], _ => rfl
  | [w], hw => by
    obtain ⟨c, cs, hlexeme, hscan⟩ := scan_lexeme (hw w List.mem_cons_self) .nil
    rw [List.append_nil] at hscan
    show readFrom p w.lexeme = _
    rw [hlexeme, readFrom_token hscan, readFrom_nil]
    rfl
  | w :: w' :: ws, hw => by
    have hw' : ∀ v ∈ w' :: ws, v.Writable := fun v hv => hw v (List.mem_cons_of_mem _ hv)
    obtain ⟨c, cs, hlexeme, hscan⟩ :=
      scan_lexeme (hw w List.mem_cons_self) (.blank (written (w' :: ws)))
    have ih := readFrom_written ((p.pastAll w.lexeme).past ' ') (w' :: ws) hw'
    show readFrom p (w.lexeme ++ ' ' :: written (w' :: ws)) = _
    rw [hlexeme, List.cons_append, readFrom_token hscan, readFrom_blank rfl, ih]
    rfl

/-- A token without its place. -/
def Token.word (t : Token) : Word := ⟨t.kind, t.value⟩

/-- The tokens of words are the words, and the end of the text. -/
theorem map_word_placed (p : Position) : (ws : List Word) →
    (placed p ws).map Token.word = ws ++ [⟨.endOfText, "EOF"⟩]
  | [] => rfl
  | [_] => rfl
  | w :: w' :: ws => by
    rw [placed, List.map_cons, map_word_placed _ (w' :: ws)]
    · rfl
    · exact List.cons_ne_nil w' ws

theorem tokenize_placed {ws : List Word} (h : ∀ w ∈ ws, w.Writable) :
    tokenize (write ws) = .ok (placed .origin ws) := by
  rw [tokenize_eq, write, String.toList_ofList]
  exact readFrom_written .origin ws h

/-- **Reading undoes writing:** a text of words has the words as its tokens, in order, and
    after them the end of the text. -/
theorem tokenize_write {ws : List Word} (h : ∀ w ∈ ws, w.Writable) :
    ∃ tokens, tokenize (write ws) = .ok tokens ∧
      tokens.map Token.word = ws ++ [⟨.endOfText, "EOF"⟩] :=
  ⟨placed .origin ws, tokenize_placed h, map_word_placed .origin ws⟩

/-- A keyword and a name that starts with it, a text with all that a literal has to escape or
    must not take for a comment, a quote, a sign of two characters, and a number. -/
def mixedWords : List Word :=
  [⟨.letWord, "let"⟩, ⟨.identifier, "lets"⟩, ⟨.text, "a\n\x22 // \\x41 /* \x27"⟩,
    ⟨.character, String.singleton '\x27'⟩, ⟨.equals, "=="⟩, ⟨.number, "007"⟩]

/-- They are read back. -/
theorem mixed_write : ∃ tokens, tokenize (write mixedWords) = .ok tokens ∧
    tokens.map Token.word = mixedWords ++ [⟨.endOfText, "EOF"⟩] := by
  have hnumber : ∀ c ∈ "007".toList, isDigit c = true :=
    List.all_eq_true.mp (by decide)
  refine tokenize_write fun w hw => ?_
  simp only [mixedWords, List.mem_cons, List.not_mem_nil, or_false] at hw
  rcases hw with rfl | rfl | rfl | rfl | rfl | rfl
  · exact .fixed rfl
  · exact .identifier (by decide)
  · exact .text _
  · exact .character _
  · exact .fixed rfl
  · exact .number (by decide) hnumber

end Stackling
