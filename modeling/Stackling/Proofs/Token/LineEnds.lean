import Mathlib.Data.List.Chain
import Mathlib.Data.List.Forall2
import Stackling.Proofs.Token.Lossless
import Stackling.Proofs.Token.Written

/-
  File:     Stackling/Proofs/Token/LineEnds.lean
  Subject:  What stands on some lines is read alike, whatever lines follow.

  A word, a number and a sign end before the end of their line, and a literal or a comment that
  was closed stays closed. So lines that can be read by themselves can be read before anything,
  and give the same tokens. The one exception is a slash before a star: it opens a comment, and
  what follows may close it.

  * `contained_scan`     -- a word does not end with the end of a line;
  * `extends_scan`       -- the first word of some lines, with more lines behind them;
  * `readFrom_relocated` -- the tokens of a text that starts at another place;
  * `readFrom_cut`       -- the tokens of a text without its last character;
  * `readFrom_lines`     -- the tokens of some lines, whatever follows.
-/
namespace Stackling

open Text

/-! ## 1. Where words end -/

/-- **A text ends with a newline.** -/
def EndsLine (cs : List Char) : Prop := cs.getLast? = some '\n'

/-- A part of a text has no newline in it, or ends with no newline and no curly bracket. -/
def Contained (part : List Char) : Prop :=
  '\n' ∉ part ∨ ∃ c, part.getLast? = some c ∧ c ≠ '\n' ∧ c ≠ '\x7d'

variable {c d : Char} {cs part rest after : List Char} {p q : Position} {kind : TokenKind}
  {value : String} {tokens : List Token}

theorem EndsLine.mem (h : EndsLine cs) : '\n' ∈ cs := List.mem_of_getLast? h

theorem Position.line_le_pastAll (p : Position) (cs : List Char) : p.line ≤ (p.pastAll cs).line := by
  rw [Position.pastAll_line]
  exact Nat.le_add_right _ _

theorem Position.line_lt_pastAll (h : '\n' ∈ cs) (p : Position) : p.line < (p.pastAll cs).line := by
  obtain ⟨above, below, rfl⟩ := List.append_of_mem h
  rw [Position.pastAll_append, Position.pastAll_cons]
  exact Nat.lt_of_le_of_lt (p.line_le_pastAll above)
    (Nat.lt_of_succ_le (Position.line_le_pastAll ((p.pastAll above).past '\n') below))

theorem Position.pastAll_run (p : Position) (run rest : List Char) :
    p.pastAll (c :: (run ++ rest)) = (p.pastAll (c :: run)).pastAll rest :=
  p.pastAll_append (c :: run) rest

/-- A text is some lines, or none. -/
def Lines (cs : List Char) : Prop := cs = [] ∨ EndsLine cs

theorem EndsLine.of_append (h : EndsLine (part ++ rest)) (hne : rest ≠ []) : EndsLine rest := by
  rwa [EndsLine, List.getLast?_append_of_ne_nil _ hne] at h

theorem Lines.of_append (h : Lines (part ++ rest)) : Lines rest := by
  by_cases hne : rest = []
  · exact .inl hne
  rcases h with hnil | hline
  · exact .inl (List.append_eq_nil_iff.mp hnil).2
  · exact .inr (hline.of_append hne)

theorem Lines.tail (h : Lines (c :: cs)) : Lines cs := of_append (show Lines ([c] ++ cs) from h)

/-- What stands behind the first characters of some lines is some lines, or nothing. -/
theorem Lines.behind {run : List Char} (h : Lines (c :: (run ++ rest))) : Lines rest :=
  of_append (show Lines (c :: run ++ rest) from h)

theorem Lines.endsLine (h : Lines (c :: cs)) : EndsLine (c :: cs) :=
  h.resolve_left (List.cons_ne_nil _ _)

theorem Lines.mem (h : Lines (c :: cs)) : '\n' ∈ c :: cs := h.endsLine.mem

theorem Contained.not_endsLine (h : Contained part) : ¬ EndsLine part := by
  rintro hline
  rcases h with hno | ⟨c, hc, hne, -⟩
  · exact hno hline.mem
  · exact hne (Option.some.inj (hc.symm.trans hline))

theorem contained_run {test : Char → Bool} (h : test '\n' = false) (cs : List Char) :
    Contained (cs.takeWhile test) := by
  refine .inl fun hmem => ?_
  cases h.symm.trans (List.mem_takeWhile_imp hmem)

theorem contained_of_last (h : d ≠ '\n' ∧ d ≠ '\x7d') (cs : List Char) : Contained (cs ++ [d]) :=
  .inr ⟨d, List.getLast?_concat, h⟩

/-- What a scan takes, if it is no white space, is contained, and no token ends the text. -/
def Scan.Contained : Scan → Prop
  | .token kind _ lexeme _ => kind ≠ .endOfText ∧ Stackling.Contained lexeme
  | .skip lexeme _ => Stackling.Contained lexeme
  | .fault _ => True

theorem contained_sign {s : String} (h : kind.text? = some s) : Contained s.toList := by
  refine .inl ?_
  cases kind <;> cases h <;> decide

theorem reserved?_ne (word : String) : (reserved? word).getD .identifier ≠ .endOfText := by
  cases h : reserved? word with
  | none => exact nofun
  | some k =>
    have hk := List.mem_of_find?_eq_some h
    rintro rfl
    exact absurd hk (by decide)

/-- **A word does not end with the end of a line.** -/
theorem contained_scan (h : isBlank c = false) (cs : List Char) : (scan c cs).Contained := by
  unfold scan
  split
  · exact ⟨reserved?_ne _, contained_run (by decide) _⟩
  split
  · exact ⟨nofun, contained_run (by decide) _⟩
  rw [h, if_neg Bool.false_ne_true]
  split
  · unfold scanText
    split
    · exact ⟨nofun, contained_of_last (by decide) _⟩
    · trivial
  split
  · unfold scanCharacter
    split
    · dsimp only
      split
      · exact ⟨nofun, contained_of_last (by decide) _⟩
      · trivial
    · trivial
  split
  · unfold scanSlash
    split
    · refine .inl fun hmem => ?_
      rcases List.mem_cons.mp hmem with h | hmem
      · cases h
      rcases List.mem_cons.mp hmem with h | hmem
      · cases h
      · simpa using List.mem_takeWhile_imp hmem
    · split
      · refine .inr ⟨'/', ?_, by decide⟩
        rw [List.getLast?_append_of_ne_nil _ (List.cons_ne_nil _ _)]
        rfl
      · exact ⟨nofun, .inl (by decide)⟩
    · exact ⟨nofun, .inl (by decide)⟩
  · unfold scanSign
    split
    · rename_i kind lexeme rest hsign
      have htext := (sign?_eq hsign).2
      refine ⟨?_, ?_⟩
      · rintro rfl
        cases htext
      · have hcontained := contained_sign htext
        rwa [String.toList_ofList] at hcontained
    · trivial

/-! ## 2. Lines with more lines behind them -/

/-- A run that ends before a newline ends there, whatever follows. -/
theorem run_extends {test : Char → Bool} (h : test '\n' = false) (hmem : '\n' ∈ cs)
    (after : List Char) : (cs ++ after).takeWhile test = cs.takeWhile test ∧
      (cs ++ after).dropWhile test = cs.dropWhile test ++ after := by
  induction cs with
  | nil => cases hmem
  | cons c cs ih =>
    rw [List.cons_append, List.takeWhile_cons, List.takeWhile_cons, List.dropWhile_cons,
      List.dropWhile_cons]
    by_cases hc : test c = true
    · have hmem' : '\n' ∈ cs := by
        refine (List.mem_cons.mp hmem).resolve_left ?_
        rintro rfl
        cases h.symm.trans hc
      obtain ⟨htake, hdrop⟩ := ih hmem'
      rw [if_pos hc, if_pos hc, if_pos hc, if_pos hc, htake, hdrop]
      exact ⟨rfl, rfl⟩
    · rw [if_neg hc, if_neg hc, if_neg hc, if_neg hc]
      exact ⟨rfl, rfl⟩

/-- The same scan with more behind the rest. -/
def Scan.extend (after : List Char) : Scan → Scan
  | .token kind value lexeme rest => .token kind value lexeme (rest ++ after)
  | .skip lexeme rest => .skip lexeme (rest ++ after)
  | .fault cause => .fault cause

/-- A sign has two characters or one. -/
theorem sign?_short (h : sign? cs = some (kind, part, rest)) :
    kind ∉ keywords ∧ part.length ≤ 2 := by
  unfold sign? at h
  split at h <;> simp only [Option.some.injEq, Prod.mk.injEq, reduceCtorEq] at h <;>
    obtain ⟨rfl, rfl, rfl⟩ := h <;> decide

/-- A sign is the same with more behind the character after it. -/
theorem sign?_extends (h : sign? cs = some (kind, part, rest)) (hlength : 2 ≤ cs.length)
    (after : List Char) : sign? (cs ++ after) = some (kind, part, rest ++ after) := by
  cases h' : sign? (cs ++ after) with
  | none =>
    obtain ⟨heq, htext⟩ := sign?_eq h
    have hsome := sign?_ne_none (sign?_short h).1 htext (rest ++ after)
    rw [String.toList_ofList, ← List.append_assoc, heq] at hsome
    exact absurd h' hsome
  | some found =>
    obtain ⟨kind', part', rest'⟩ := found
    have hshort := (sign?_short h').2
    have hprefix : part' <+: cs :=
      List.prefix_of_prefix_length_le ⟨rest', (sign?_eq h').1⟩ (List.prefix_append cs after)
        (Nat.le_trans hshort hlength)
    obtain ⟨keep, rfl⟩ := hprefix
    have hrest := (sign?_eq h').1
    rw [List.append_assoc] at hrest
    obtain rfl := List.append_cancel_left hrest
    cases h.symm.trans (sign?_cut h')
    rfl

/-- A literal is the same with more behind it. -/
theorem scanText_extends (h : ∀ cause, scanText cs ≠ .fault cause) (after : List Char) :
    scanText (cs ++ after) = (scanText cs).extend after := by
  unfold scanText at h
  cases hbody : quotedBody? '\x22' cs with
  | none =>
    rw [hbody] at h
    exact absurd rfl (h _)
  | some found =>
    obtain ⟨body, rest⟩ := found
    have hbody' := quotedBody?_of_body (by decide) (quotedBody_of_eq hbody) (rest ++ after)
    rw [← List.cons_append, ← List.append_assoc, quotedBody?_eq hbody] at hbody'
    rw [scanText, scanText, hbody, hbody']
    rfl

theorem scanCharacter_extends (h : ∀ cause, scanCharacter cs ≠ .fault cause)
    (after : List Char) : scanCharacter (cs ++ after) = (scanCharacter cs).extend after := by
  unfold scanCharacter at h
  cases hbody : quotedBody? '\x27' cs with
  | none =>
    rw [hbody] at h
    exact absurd rfl (h _)
  | some found =>
    obtain ⟨body, rest⟩ := found
    have hbody' := quotedBody?_of_body (by decide) (quotedBody_of_eq hbody) (rest ++ after)
    rw [← List.cons_append, ← List.append_assoc, quotedBody?_eq hbody] at hbody'
    rw [scanCharacter, scanCharacter, hbody, hbody']
    dsimp only
    split <;> rfl

/-- A comment is the same with more behind it, and so is a slash that opens none. -/
theorem scanSlash_extends (hmem : '\n' ∈ cs)
    (h : ∀ value lexeme rest, scanSlash cs = .token .slash value lexeme rest →
      rest.head? ≠ some '*') (after : List Char) :
    scanSlash (cs ++ after) = (scanSlash cs).extend after := by
  unfold scanSlash at h
  split at h
  · rename_i behind
    have hmem' : '\n' ∈ behind := (List.mem_cons.mp hmem).resolve_left (by decide)
    have hrun : (behind ++ after).takeWhile (· != '\n') = behind.takeWhile (· != '\n') ∧
        (behind ++ after).dropWhile (· != '\n') = behind.dropWhile (· != '\n') ++ after :=
      run_extends (by decide) hmem' after
    obtain ⟨htake, hdrop⟩ := hrun
    rw [List.cons_append, scanSlash, scanSlash]
    exact congrArg₂ Scan.skip (congrArg ('/' :: '/' :: ·) htake) hdrop
  · rename_i behind
    cases hbody : commentBody? behind with
    | none =>
      rw [hbody] at h
      exact absurd rfl (h _ _ _ rfl)
    | some found =>
      obtain ⟨body, rest⟩ := found
      have hbody' := commentBody?_of_body (not_infix_of_eq hbody) (rest ++ after)
      rw [← List.cons_append, ← List.cons_append, ← List.append_assoc, commentBody?_eq hbody]
        at hbody'
      rw [List.cons_append, scanSlash, scanSlash, hbody, hbody']
      rfl
  · rename_i hline hcomment
    cases cs with
    | nil => cases hmem
    | cons d ds =>
      have hother : ∀ es, scanSlash (d :: es) = .token .slash "/" ['/'] (d :: es) := by
        intro es
        unfold scanSlash
        split
        · rename_i heq
          exact absurd (congrArg (· :: ds) (List.cons.inj heq).1) (hline ds)
        · rename_i heq
          exact absurd (congrArg (· :: ds) (List.cons.inj heq).1) (hcomment ds)
        · rfl
      rw [List.cons_append, hother, hother]
      rfl

/-- **The first word of some lines** is the same with more lines behind them, unless it is a slash
    that might open a comment. -/
theorem extends_scan (hblank : isBlank c = false) (hline : EndsLine (c :: cs))
    (hscan : ∀ cause, scan c cs ≠ .fault cause)
    (hslash : ∀ value lexeme rest, scan c cs = .token .slash value lexeme rest →
      rest.head? ≠ some '*') (after : List Char) :
    scan c (cs ++ after) = (scan c cs).extend after := by
  have hc : c ≠ '\n' := by
    rintro rfl
    cases hblank
  have hmem : '\n' ∈ cs := (List.mem_cons.mp hline.mem).resolve_left hc.symm
  rw [scan] at hscan hslash ⊢
  rw [scan]
  by_cases hword : isWordStart c = true
  · obtain ⟨htake, hdrop⟩ := run_extends (by decide : isWordPart '\n' = false) hline.mem after
    rw [if_pos hword, if_pos hword, scanWord, ← List.cons_append, htake, hdrop]
    rfl
  rw [if_neg hword] at hscan hslash ⊢
  rw [if_neg hword]
  by_cases hdigit : isDigit c = true
  · obtain ⟨htake, hdrop⟩ := run_extends (by decide : isDigit '\n' = false) hline.mem after
    rw [if_pos hdigit, if_pos hdigit, scanNumber, ← List.cons_append, htake, hdrop]
    rfl
  have hspace : ¬ isBlank c = true := fun h => by cases hblank.symm.trans h
  rw [if_neg hdigit, if_neg hspace] at hscan hslash ⊢
  rw [if_neg hdigit, if_neg hspace]
  by_cases htext : c = '\x22'
  · rw [if_pos htext] at hscan ⊢
    rw [if_pos htext]
    exact scanText_extends hscan after
  rw [if_neg htext] at hscan hslash ⊢
  rw [if_neg htext]
  by_cases hchar : c = '\x27'
  · rw [if_pos hchar] at hscan ⊢
    rw [if_pos hchar]
    exact scanCharacter_extends hscan after
  rw [if_neg hchar] at hscan hslash ⊢
  rw [if_neg hchar]
  by_cases hsl : c = '/'
  · rw [if_pos hsl] at hslash ⊢
    rw [if_pos hsl]
    exact scanSlash_extends hmem hslash after
  rw [if_neg hsl] at hscan ⊢
  rw [if_neg hsl]
  cases hsign : sign? (c :: cs) with
  | none =>
    rw [scanSign, hsign] at hscan
    exact absurd rfl (hscan _)
  | some found =>
    obtain ⟨kind, lexeme, rest⟩ := found
    have hlength : 2 ≤ (c :: cs).length := Nat.succ_le_succ (List.length_pos_of_mem hmem)
    have hsign' := sign?_extends hsign hlength after
    rw [scanSign, scanSign, ← List.cons_append, hsign, hsign']
    rfl

/-! ## 3. The tokens of some lines -/

/-- The same word, `lines` lines further down. -/
structure Lowered (lines : Nat) (t u : Token) : Prop where
  word : u.word = t.word
  line : u.span.line = t.span.line + lines

/-- A slash and what follows do not open a comment. -/
def NoComment (t u : Token) : Prop := t.kind = .slash → u.kind ≠ .star

/-- The tokens of a closing curly bracket and the end of the text after it. -/
def closing (q : Position) : List Token :=
  [⟨.closeCurly, "\x7d", ⟨q, q.past '\x7d'⟩⟩, Token.finish (q.past '\x7d')]

/-- The same word at another place, where `l` is the line that is `k` here. -/
structure Relocated (k l : Nat) (t u : Token) : Prop where
  word : u.word = t.word
  line : u.span.line + k = t.span.line + l

theorem Relocated.lowered {lines : Nat} {t u : Token} (h : Relocated 0 lines t u) : Lowered lines t u :=
  ⟨h.word, h.line⟩

/-- **A text that starts at another place** has the same words. -/
theorem readFrom_relocated {k l : Nat} (hline : q.line + k = p.line + l)
    (h : readFrom p cs = .ok tokens) :
    ∃ moved, readFrom q cs = .ok moved ∧ List.Forall₂ (Relocated k l) tokens moved := by
  have hall : ∀ ds, (q.pastAll ds).line + k = (p.pastAll ds).line + l := by
    intro ds
    rw [Position.pastAll_line, Position.pastAll_line, Nat.add_right_comm, hline,
      Nat.add_right_comm]
  induction cs using words_induct generalizing p q tokens with
  | nil =>
    cases h
    exact ⟨_, rfl, .cons ⟨rfl, hline⟩ .nil⟩
  | blank c cs hblank ih =>
    rw [readFrom_blank hblank] at h ⊢
    exact ih (hall [c]) h fun ds => hall (c :: ds)
  | token c run rest kind value _ hscan ih =>
    obtain ⟨behind, hrest, rfl⟩ := readFrom_token_ok hscan h
    obtain ⟨moved, hread, hmoved⟩ := ih (hall (c :: run)) hrest fun ds => by
      rw [← Position.pastAll_append, ← Position.pastAll_append]
      exact hall _
    rw [readFrom_token hscan, hread]
    exact ⟨_, rfl, .cons ⟨rfl, hline⟩ hmoved⟩
  | comment c run rest _ hscan ih =>
    rw [readFrom_skip hscan] at h ⊢
    refine ih (hall (c :: run)) h fun ds => ?_
    rw [← Position.pastAll_append, ← Position.pastAll_append]
    exact hall _
  | fault c cs cause hscan =>
    rw [readFrom_fault hscan] at h
    cases h

/-- The tokens of a text stand where it starts, or further down. -/
theorem readFrom_behind (h : readFrom p cs = .ok tokens) : ∀ t ∈ tokens, p.line ≤ t.span.line := by
  induction cs using words_induct generalizing p tokens with
  | nil =>
    cases h
    exact List.forall_mem_singleton.mpr (Nat.le_refl _)
  | blank c cs hblank ih =>
    rw [readFrom_blank hblank] at h
    exact fun t ht => Nat.le_trans (p.line_le_pastAll [c]) (ih h t ht)
  | token c run rest kind value _ hscan ih =>
    obtain ⟨behind, hrest, rfl⟩ := readFrom_token_ok hscan h
    refine List.forall_mem_cons.mpr ⟨Nat.le_refl _, fun t ht => ?_⟩
    exact Nat.le_trans (p.line_le_pastAll _) (ih hrest t ht)
  | comment c run rest _ hscan ih =>
    rw [readFrom_skip hscan] at h
    exact fun t ht => Nat.le_trans (p.line_le_pastAll _) (ih h t ht)
  | fault c cs cause hscan =>
    rw [readFrom_fault hscan] at h
    cases h

/-- **The character `d` behind a text** goes on with no word of it: it is a newline, or else a
    closing bracket on a line of its own. -/
def StandsAlone (d : Char) (cs : List Char) : Prop := d = '\n' ∨ d = '\x7d' ∧ Lines cs

theorem StandsAlone.of_append (h : StandsAlone d (part ++ rest)) : StandsAlone d rest :=
  h.imp_right fun ⟨hd, hlines⟩ => ⟨hd, hlines.of_append⟩

theorem StandsAlone.tail (h : StandsAlone d (c :: cs)) : StandsAlone d cs :=
  of_append (show StandsAlone d ([c] ++ cs) from h)

theorem StandsAlone.behind {run : List Char} (h : StandsAlone d (c :: (run ++ rest))) :
    StandsAlone d rest := of_append (show StandsAlone d (c :: run ++ rest) from h)

theorem Contained.ne_concat (h : Contained part) (hd : StandsAlone d (c :: cs)) :
    part ≠ c :: cs ++ [d] := by
  rintro rfl
  rcases hd with rfl | ⟨rfl, hlines⟩
  · exact h.not_endsLine List.getLast?_concat
  · rcases h with hno | ⟨e, he, -, hne⟩
    · exact hno (List.mem_append_left _ hlines.mem)
    · rw [List.getLast?_concat] at he
      exact hne (Option.some.inj he).symm

/-- A word before such a character ends before it. -/
theorem Contained.cut (h : Contained (c :: part)) (hd : StandsAlone d (c :: cs))
    (heq : part ++ rest = cs ++ [d]) : ∃ keep, rest = keep ++ [d] ∧ cs = part ++ keep := by
  have hne : rest ≠ [] := by
    rintro rfl
    rw [List.append_nil] at heq
    exact h.ne_concat hd (congrArg (c :: ·) heq)
  have hlast : rest.getLast? = some d := by
    rw [← List.getLast?_append_of_ne_nil part hne, heq, List.getLast?_concat]
  obtain ⟨keep, rfl⟩ := List.getLast?_eq_some_iff.mp hlast
  rw [← List.append_assoc] at heq
  exact ⟨keep, rfl, (List.append_cancel_right heq).symm⟩

/-- **A text is read without the last character** as it is with it, if that stands alone. -/
theorem readFrom_cut (hd : StandsAlone d cs) (h : readFrom p (cs ++ [d]) = .ok tokens) :
    ∃ ts behind, readFrom p cs = .ok (ts ++ [Token.finish (p.pastAll cs)]) ∧
      readFrom (p.pastAll cs) [d] = .ok behind ∧ tokens = ts ++ behind := by
  -- the words of the whole text; what is cut off is the end of each rest
  generalize hwhole : cs ++ [d] = whole at h
  induction whole using words_induct generalizing p cs tokens with
  | nil => exact absurd hwhole (List.append_ne_nil_of_right_ne_nil _ (List.cons_ne_nil _ _))
  | blank c whole hblank ih =>
    cases cs with
    | nil => exact ⟨[], tokens, rfl, (congrArg (readFrom p) hwhole).trans h, rfl⟩
    | cons b cs =>
      obtain ⟨rfl, rfl⟩ := List.cons.inj hwhole
      rw [readFrom_blank hblank] at h ⊢
      exact ih hd.tail rfl h
  | token c run rest kind value hblank hscan ih =>
    cases cs with
    | nil => exact ⟨[], tokens, rfl, (congrArg (readFrom p) hwhole).trans h, rfl⟩
    | cons b cs =>
      obtain ⟨rfl, heq⟩ := List.cons.inj hwhole
      have hcontained := contained_scan hblank (run ++ rest)
      have hkeeps := keeps_scan b (run ++ rest)
      rw [hscan] at hcontained hkeeps
      obtain ⟨keep, rfl, rfl⟩ := hcontained.2.cut hd heq.symm
      obtain ⟨tokens', hrest, rfl⟩ := readFrom_token_ok hscan h
      obtain ⟨ts, behind, hkeep, hlast, rfl⟩ := ih hd.behind rfl hrest
      rw [← Position.pastAll_append] at hkeep hlast
      rw [readFrom_token (hkeeps run keep [d] rfl rfl), hkeep]
      exact ⟨_ :: ts, behind, rfl, hlast, rfl⟩
  | comment c run rest hblank hscan ih =>
    cases cs with
    | nil => exact ⟨[], tokens, rfl, (congrArg (readFrom p) hwhole).trans h, rfl⟩
    | cons b cs =>
      obtain ⟨rfl, heq⟩ := List.cons.inj hwhole
      have hcontained := contained_scan hblank (run ++ rest)
      have hkeeps := keeps_scan b (run ++ rest)
      rw [hscan] at hcontained hkeeps
      obtain ⟨keep, rfl, rfl⟩ := hcontained.cut hd heq.symm
      rw [readFrom_skip hscan] at h
      rw [readFrom_skip (hkeeps run keep [d] rfl rfl), Position.pastAll_run]
      exact ih hd.behind rfl h
  | fault c whole cause hscan =>
    rw [readFrom_fault hscan] at h
    cases h

/-- The first token of a text, and those of the rest. -/
theorem readFrom_first {run : List Char} (hblank : isBlank c = false)
    (hscan : scan c (run ++ rest) = .token kind value (c :: run) rest)
    (h : readFrom p (c :: (run ++ rest)) = .ok (tokens ++ [Token.finish q])) :
    ∃ ts, tokens = ⟨kind, value, ⟨p, p.pastAll (c :: run)⟩⟩ :: ts ∧
      readFrom (p.pastAll (c :: run)) rest = .ok (ts ++ [Token.finish q]) := by
  obtain ⟨behind, hrest, heq⟩ := readFrom_token_ok hscan h
  cases tokens with
  | nil =>
    have hcontained := contained_scan hblank (run ++ rest)
    rw [hscan] at hcontained
    exact absurd (congrArg Token.kind (List.cons.inj heq).1).symm hcontained.1
  | cons t ts =>
    obtain ⟨rfl, rfl⟩ := List.cons.inj heq
    exact ⟨ts, rfl, hrest⟩

/-- The tokens of some lines stand above the end of them, and none of them ends the text. -/
theorem readFrom_above (hlines : Lines cs)
    (h : readFrom p cs = .ok (tokens ++ [Token.finish (p.pastAll cs)])) :
    ∀ t ∈ tokens, t.span.line < (p.pastAll cs).line ∧ t.kind ≠ .endOfText := by
  induction cs using words_induct generalizing p tokens with
  | nil =>
    have hnil : [] = tokens := List.append_cancel_right (Except.ok.inj h)
    rw [← hnil]
    exact nofun
  | blank c cs hblank ih =>
    rw [readFrom_blank hblank] at h
    exact ih hlines.tail h
  | token c run rest kind value hblank hscan ih =>
    obtain ⟨ts, rfl, hrest⟩ := readFrom_first hblank hscan h
    have hcontained := contained_scan hblank (run ++ rest)
    rw [hscan] at hcontained
    refine List.forall_mem_cons.mpr ⟨⟨p.line_lt_pastAll hlines.mem, hcontained.1⟩, ?_⟩
    rw [Position.pastAll_run] at hrest ⊢
    exact ih hlines.behind hrest
  | comment c run rest _ hscan ih =>
    rw [readFrom_skip hscan] at h
    rw [Position.pastAll_run] at h ⊢
    exact ih hlines.behind h
  | fault c cs cause hscan =>
    rw [readFrom_fault hscan] at h
    cases h

/-- Behind a slash that opens no comment there is no star. -/
theorem head?_ne_star {t : Token} (hslash : t.kind = .slash)
    (hplain : (t :: tokens).IsChain NoComment)
    (h : readFrom p cs = .ok (tokens ++ [Token.finish q])) : cs.head? ≠ some '*' := by
  intro hstar
  cases cs with
  | nil => cases hstar
  | cons c cs =>
    obtain rfl := Option.some.inj hstar
    obtain ⟨behind, -, heq⟩ := readFrom_token_ok (rfl : scan '*' cs = .token .star "*" ['*'] cs) h
    cases tokens with
    | nil => cases (congrArg Token.kind (List.cons.inj heq).1 : TokenKind.endOfText = .star)
    | cons u us =>
      refine (List.isChain_cons_cons.mp hplain).1 hslash ?_
      rw [(List.cons.inj heq).1]

/-- **Some lines with more behind them** have the tokens that they have alone, unless two of
    these open a comment. -/
theorem readFrom_lines (hlines : Lines cs)
    (h : readFrom p cs = .ok (tokens ++ [Token.finish (p.pastAll cs)]))
    (hplain : tokens.IsChain NoComment) (after : List Char) :
    readFrom p (cs ++ after) = (readFrom (p.pastAll cs) after).map (tokens ++ ·) := by
  induction cs using words_induct generalizing p tokens with
  | nil =>
    have hnil : [] = tokens := List.append_cancel_right (Except.ok.inj h)
    rw [← hnil]
    rw [List.nil_append, Position.pastAll_nil]
    cases readFrom p after <;> rfl
  | blank c cs hblank ih =>
    rw [readFrom_blank hblank] at h
    rw [List.cons_append, readFrom_blank hblank]
    exact ih hlines.tail h hplain
  | token c run rest kind value hblank hscan ih =>
    obtain ⟨ts, rfl, hrest⟩ := readFrom_first hblank hscan h
    have hlonger := extends_scan hblank hlines.endsLine (by rw [hscan]; exact nofun) (by
      rw [hscan]
      rintro _ _ _ ⟨⟩
      exact head?_ne_star rfl hplain hrest) after
    rw [hscan] at hlonger
    rw [Position.pastAll_run] at hrest ⊢
    rw [List.cons_append, readFrom_token hlonger, ih hlines.behind hrest hplain.tail]
    cases readFrom ((p.pastAll (c :: run)).pastAll rest) after <;> rfl
  | comment c run rest hblank hscan ih =>
    have hlonger := extends_scan hblank hlines.endsLine (by rw [hscan]; exact nofun)
      (by rw [hscan]; exact nofun) after
    rw [readFrom_skip hscan] at h
    rw [hscan] at hlonger
    rw [Position.pastAll_run] at h ⊢
    rw [List.cons_append, readFrom_skip hlonger]
    exact ih hlines.behind h hplain
  | fault c cs cause hscan =>
    rw [readFrom_fault hscan] at h
    cases h

end Stackling
