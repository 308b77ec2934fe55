import Stackling.Proofs.Syntax.RoundTrip
import Stackling.Proofs.Text.Quoted

/-
  File:     Stackling/Proofs/Syntax/Spelling.lean
  Subject:  Words that stand next to each other in a text.

  Most words need no blank between them: a bracket, a comma or a literal ends where it ends,
  and letters and digits end where none follow. What must not follow a word is what would make
  a longer word of it.

  * `Spells`         -- a text up to its end, and the words in it;
  * `Spells.shows`   -- the words are those of the text's tokens;
  * `Spelled`        -- a part of a text that spells words, whatever follows apart from it;
  * `Spelled.joined`, `Spelled.enclosed` -- parts with signs between and around them.
-/
namespace Stackling

open Text

/-! ## 1. Texts -/

/-- **A text spells words,** one behind the other, with a blank here and there. No return is
    among them, so that the lines of the words do not matter. -/
inductive Spells : List Char → List Word → Prop
  | nil : Spells [] []
  | blank {c cs ws} (hc : isBlank c = false) (h : Spells (c :: cs) ws) :
      Spells (' ' :: c :: cs) ws
  | word {c run rest w ws} (hk : w.kind ≠ .returnWord)
      (hs : scan c (run ++ rest) = .token w.kind w.value (c :: run) rest) (h : Spells rest ws) :
      Spells (c :: (run ++ rest)) (w :: ws)

variable {cs ds rest : List Char} {ws ws' vs : List Word}

/-- **The words of a text are those of its tokens.** -/
theorem Spells.read (h : Spells cs ws) (p : Position) :
    ∃ tokens, readFrom p cs = .ok tokens ∧
      tokens.map Token.word = ws ++ [⟨.endOfText, "EOF"⟩] := by
  induction h generalizing p with
  | nil => exact ⟨_, readFrom_nil p, rfl⟩
  | blank hc _ ih =>
    rw [readFrom_blank rfl]
    exact ih _
  | @word c run rest w ws _ hs _ ih =>
    obtain ⟨tokens, hread, hwords⟩ := ih (p.pastAll (c :: run))
    refine ⟨⟨w.kind, w.value, ⟨p, p.pastAll (c :: run)⟩⟩ :: tokens, ?_, ?_⟩
    · rw [readFrom_token hs, hread]
      rfl
    · rw [List.map_cons, hwords]
      rfl

theorem Spells.no_return (h : Spells cs ws) : ∀ w ∈ ws, w.kind ≠ .returnWord := by
  induction h with
  | nil => exact nofun
  | blank _ _ ih => exact ih
  | word hk _ _ ih => exact List.forall_mem_cons.mpr ⟨hk, ih⟩

/-- Without a return, it does not matter where the lines end. -/
theorem lined_of_no_return {tokens : List Token} (h : ∀ t ∈ tokens, t.kind ≠ .returnWord) :
    tokens.IsChain SameLine := by
  induction tokens with
  | nil => exact .nil
  | cons t ts ih =>
    obtain ⟨ht, hts⟩ := List.forall_mem_cons.mp h
    cases ts with
    | nil => exact .singleton t
    | cons u us => exact List.isChain_cons_cons.mpr ⟨fun hk => absurd hk ht, ih hts⟩

/-- **The tokens of a text show the words that it spells.** -/
theorem Spells.shows {source : String} (h : Spells source.toList ws) :
    ∃ tokens, tokenize source = .ok tokens ∧ (Stream.ofTokens .standard tokens).Shows ws := by
  obtain ⟨tokens, hread, hwords⟩ := h.read .origin
  refine ⟨tokens, hread, Stream.ofTokens_shows hwords (lined_of_no_return fun t ht => ?_)⟩
  have hmem : t.word ∈ ws ++ [⟨.endOfText, "EOF"⟩] := hwords ▸ List.mem_map_of_mem ht
  rcases List.mem_append.mp hmem with hw | hw
  · exact h.no_return _ hw
  · have hkind : t.kind = .endOfText := congrArg Word.kind (List.mem_singleton.mp hw)
    rw [hkind]
    decide

/-! ## 2. Parts of a text -/

/-- The characters that may belong to the word before them. -/
def goesOn (c : Char) : Bool := isWordPart c || isSignPart c

theorem EndsRun.of_goesOn {test : Char → Bool} (h : EndsRun goesOn rest)
    (htest : ∀ c, goesOn c = false → test c = false) : EndsRun test rest :=
  fun c hc => htest c (h c hc)

theorem EndsRun.nil {test : Char → Bool} : EndsRun test [] := nofun

theorem EndsRun.cons {test : Char → Bool} {c : Char} (hc : test c = false) (cs : List Char) :
    EndsRun test (c :: cs) := by
  intro d hd
  rwa [← Option.some.inj hd]

/-- **A part of a text that spells words,** whatever follows that does not go on with them. It
    starts with no blank, and with nothing that a sign before it would take. -/
structure Spelled (cs : List Char) (ws : List Word) : Prop where
  start : ∃ c run, cs = c :: run ∧ isBlank c = false ∧ isSignPart c = false
  spells : ∀ {rest ws'}, EndsRun goesOn rest → Spells rest ws' → Spells (cs ++ rest) (ws ++ ws')

/-- A word alone. -/
theorem Spelled.of_scan {c : Char} {run : List Char} {w : Word} (hc : isSignPart c = false)
    (hk : w.kind ≠ .returnWord) (hs : ∀ rest, EndsRun goesOn rest →
      scan c (run ++ rest) = .token w.kind w.value (c :: run) rest) : Spelled (c :: run) [w] where
  start := by
    refine ⟨c, run, rfl, ?_, hc⟩
    have hscan := hs [] nofun
    exact isBlank_of_scan hscan
  spells hrest h := .word hk (hs _ hrest) h

theorem isWordPart_of_goesOn {c : Char} (h : goesOn c = false) : isWordPart c = false :=
  (Bool.or_eq_false_iff.mp h).1

theorem isDigit_of_goesOn {c : Char} (h : goesOn c = false) : isDigit c = false :=
  (Bool.or_eq_false_iff.mp (isWordPart_of_goesOn h)).2

theorem isSignPart_of_isWordPart {c : Char} (h : isWordPart c = true) : isSignPart c = false := by
  rw [Bool.eq_false_iff]
  intro hs
  simp only [isSignPart, Bool.or_eq_true, beq_iff_eq] at hs
  rcases hs with (rfl | rfl) | rfl <;> revert h <;> decide

/-- A word in letters. -/
theorem Spelled.letters {s : String} {c : Char} {run : List Char} (hs : s.toList = c :: run)
    (hc : isWordStart c = true) (hrun : ∀ d ∈ run, isWordPart d = true)
    (hk : (reserved? s).getD .identifier ≠ .returnWord) :
    Spelled s.toList [⟨(reserved? s).getD .identifier, s⟩] := by
  rw [hs]
  refine .of_scan (isSignPart_of_isWordPart (by simp [isWordPart, hc])) hk fun rest hrest => ?_
  exact scan_name hs hc hrun (hrest.of_goesOn fun _ => isWordPart_of_goesOn)

/-- A word in letters that is no keyword. -/
theorem Spelled.name {s : String} {c : Char} {run : List Char} (hs : s.toList = c :: run)
    (hc : isWordStart c = true) (hrun : ∀ d ∈ run, isWordPart d = true)
    (hno : reserved? s = none) : Spelled s.toList [Word.name s] := by
  have h := Spelled.letters hs hc hrun (by rw [hno]; decide)
  rwa [hno] at h

/-- A keyword. -/
theorem spelled_keyword {k : TokenKind} {s : String} (hk : k ∈ keywords) (h : k.text? = some s)
    (hr : k ≠ .returnWord) : Spelled s.toList [Word.of k] := by
  obtain ⟨c, run, hs, hc, hrun, hreserved⟩ := keyword_name hk h
  have hword := Spelled.letters hs hc hrun (by rw [hreserved]; exact hr)
  rw [hreserved] at hword
  rwa [Word.of, h]

/-- A number. -/
theorem Spelled.digits {s : String} (hne : s.toList ≠ []) (h : ∀ d ∈ s.toList, isDigit d = true) :
    Spelled s.toList [⟨.number, s⟩] := by
  obtain ⟨c, run, hs⟩ := List.exists_cons_of_ne_nil hne
  rw [hs] at h ⊢
  have hc : isWordPart c = true := by simp [isWordPart, h c List.mem_cons_self]
  refine .of_scan (isSignPart_of_isWordPart hc) (by rintro ⟨⟩) fun rest hrest => ?_
  exact scan_number hs h (hrest.of_goesOn fun _ => isDigit_of_goesOn)

/-- A text in quotes. -/
theorem Spelled.text {s : String} (h : ∀ c ∈ s.toList, Legible c) :
    Spelled (quoteText s).toList [⟨.text, s⟩] := by
  have hq : IsQuote '\x22' := .inl rfl
  rw [quoteText, String.toList_ofList]
  show Spelled ('\x22' :: (s.toList.flatMap (escaped '\x22') ++ ['\x22'])) _
  refine .of_scan (by decide) nofun fun rest _ => ?_
  rw [List.append_assoc]
  exact scan_text (quotedBody_escaped hq h) (unescape_escaped hq h) rest

/-- A character in quotes. -/
theorem Spelled.character {c : Char} (h : Legible c) :
    Spelled (quoteChar c).toList [⟨.character, String.singleton c⟩] := by
  have hq : IsQuote '\x27' := .inr rfl
  have hall : ∀ d ∈ [c], Legible d := by simpa using h
  rw [quoteChar, String.toList_ofList]
  show Spelled ('\x27' :: ([c].flatMap (escaped '\x27') ++ ['\x27'])) _
  refine .of_scan (by decide) nofun fun rest _ => ?_
  rw [List.append_assoc]
  exact scan_character (quotedBody_escaped hq hall) (unescape_escaped hq hall) rest

/-! ## 3. Signs -/

/-- **A sign before other words** than one that makes a longer sign of it. -/
theorem Spells.sign {k : TokenKind} {s : String} (hk : k ∉ keywords) (h : k.text? = some s)
    (hrest : EndsRun isSignPart rest) (hspells : Spells rest ws) :
    Spells (s.toList ++ rest) (Word.of k :: ws) := by
  obtain ⟨c, run, hs, hscan⟩ := scan_sign hk h hrest
  have hw : Word.of k = ⟨k, s⟩ := by rw [Word.of, h, Option.getD_some]
  rw [hs, hw]
  exact .word (ne_of_mem_of_not_mem (by decide) hk).symm hscan hspells

namespace Spelled

/-- What a part starts with does not belong to a sign before it. -/
theorem endsSign (h : Spelled cs ws) (rest : List Char) : EndsRun isSignPart (cs ++ rest) := by
  obtain ⟨c, run, rfl, -, hc⟩ := h.start
  exact .cons hc _

/-- **Parts with a sign and a blank between them.** -/
theorem joined (hc : Spelled cs ws) {k : TokenKind} {c : Char} (hk : k ∉ keywords)
    (h : k.text? = some (String.singleton c)) (hgoes : goesOn c = false) (hd : Spelled ds vs) :
    Spelled (cs ++ c :: ' ' :: ds) (ws ++ Word.of k :: vs) where
  start := by
    obtain ⟨d, run, rfl, hblank, hsign⟩ := hc.start
    exact ⟨d, _, rfl, hblank, hsign⟩
  spells {rest ws'} hrest hspells := by
    obtain ⟨d, run, rfl, hblank, -⟩ := hd.start
    have htail : Spells (' ' :: d :: (run ++ rest)) (vs ++ ws') :=
      .blank hblank (hd.spells hrest hspells)
    have hsign := htail.sign hk h (.cons (by decide) _)
    rw [String.toList_singleton] at hsign
    rw [List.append_assoc, List.append_assoc]
    exact hc.spells (.cons hgoes _) hsign

/-- A part right behind another one, whose word it does not go on with. -/
theorem beside (hc : Spelled cs ws) {d : Char} {run : List Char} (hgoes : goesOn d = false)
    (hd : Spelled (d :: run) vs) : Spelled (cs ++ d :: run) (ws ++ vs) where
  start := by
    obtain ⟨c, run', rfl, hblank, hsign⟩ := hc.start
    exact ⟨c, _, rfl, hblank, hsign⟩
  spells hrest hspells := by
    rw [List.append_assoc, List.append_assoc]
    exact hc.spells (.cons hgoes _) (hd.spells hrest hspells)

/-- Parts in angle brackets behind a part. -/
theorem angled (hc : Spelled cs ws) (hd : Spelled ds vs) :
    Spelled (cs ++ '<' :: (ds ++ ['>'])) (ws ++ Word.of .less :: (vs ++ [Word.of .greater])) where
  start := by
    obtain ⟨c, run, rfl, hblank, hsign⟩ := hc.start
    exact ⟨c, _, rfl, hblank, hsign⟩
  spells {rest ws'} hrest hspells := by
    have hclose : Spells ('>' :: rest) (Word.of .greater :: ws') :=
      hspells.sign (k := .greater) (s := ">") (by decide) rfl
        (hrest.of_goesOn fun _ hc => (Bool.or_eq_false_iff.mp hc).2)
    have hinner := hd.spells (.cons (by decide) _) hclose
    have hopen : Spells ('<' :: (ds ++ '>' :: rest))
        (Word.of .less :: (vs ++ Word.of .greater :: ws')) :=
      hinner.sign (k := .less) (s := "<") (by decide) rfl (hd.endsSign _)
    rw [List.append_assoc, List.append_assoc, List.cons_append, List.cons_append,
      List.append_assoc, List.append_assoc]
    exact hc.spells (.cons (by decide) _) hopen

/-- Parts with a comma between two of them. -/
theorem separated {texts : List String} {parts : List (List Word)}
    (h : List.Forall₂ (fun s ws => Spelled s.toList ws) texts parts) (hne : texts ≠ []) :
    Spelled (", ".intercalate texts).toList (commaSeparated parts) := by
  induction h with
  | nil => exact absurd rfl hne
  | @cons s ws texts parts hs hrest ih =>
    cases hrest with
    | nil =>
      rw [String.intercalate_singleton]
      exact hs
    | @cons s' ws' texts parts hs' hrest =>
      rw [String.intercalate_cons_cons, commaSeparated_cons, String.toList_append,
        String.toList_append, List.append_assoc]
      exact hs.joined (c := ',') (by decide) rfl (by decide) (ih (List.cons_ne_nil _ _))

/-- **Parts in brackets,** with a comma between two of them. -/
theorem enclosed {texts : List String} {parts : List (List Word)}
    (h : List.Forall₂ (fun s ws => Spelled s.toList ws) texts parts) {first last : TokenKind}
    {c d : Char} (hfirst : first ∉ keywords) (hc : first.text? = some (String.singleton c))
    (hlast : last ∉ keywords) (hd : last.text? = some (String.singleton d))
    (hstart : isBlank c = false ∧ isSignPart c = false) (hgoes : goesOn d = false)
    (hsign : isSignPart d = false) :
    Spelled (c :: ((", ".intercalate texts).toList ++ [d]))
      (Word.of first :: (commaSeparated parts ++ [Word.of last])) where
  start := ⟨c, _, rfl, hstart⟩
  spells {rest ws'} hrest hspells := by
    have hclose : Spells (d :: rest) (Word.of last :: ws') := by
      have := hspells.sign hlast hd (hrest.of_goesOn fun _ hc => (Bool.or_eq_false_iff.mp hc).2)
      rwa [String.toList_singleton] at this
    show Spells (c :: ((", ".intercalate texts).toList ++ [d] ++ rest))
      (Word.of first :: (commaSeparated parts ++ [Word.of last] ++ ws'))
    rw [List.append_assoc, List.append_assoc]
    have hopen : ∀ {body bs}, EndsRun isSignPart body → Spells body bs →
        Spells (c :: body) (Word.of first :: bs) := by
      intro body bs hbody hbs
      have := hbs.sign hfirst hc hbody
      rwa [String.toList_singleton] at this
    cases h with
    | nil => exact hopen (.cons hsign _) hclose
    | cons hs hrest' =>
      have hall := separated (.cons hs hrest') (List.cons_ne_nil _ _)
      exact hopen (hall.endsSign _) (hall.spells (.cons hgoes _) hclose)

end Spelled

end Stackling
