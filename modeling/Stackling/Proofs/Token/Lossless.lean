import Stackling.Proofs.Token.Patterns
import Stackling.Proofs.Token.Reading
import Stackling.Token.Cursor

/-
  File:     Stackling/Proofs/Token/Lossless.lean
  Subject:  Reading a text loses nothing.

  The tokens of a text lie in it one behind the other, and what lies between them is white
  space and comments. Each of them is what its own stretch of the text is read as. Where a text
  cannot be read, the text before that place can.

  * `slice`, `gaps`, `stretches` -- parts of a text by their places;
  * `Spaced`                     -- a text cut into tokens and what is skipped;
  * `Lossless`                   -- what the tokens of a text say about the text;
  * `Stops`                      -- what a fault says about it;
  * `tokenize_lossless`          -- every text is read so.
-/
namespace Stackling

open Text

/-! ## 1. Parts of a text -/

/-- The characters of a stretch. -/
def slice (source : List Char) (s : Span) : List Char :=
  (splitBytes (s.stop.offset - s.start.offset) (splitBytes s.start.offset source).2).1

/-- The stretches before the tokens, each from where the token before it ends. -/
def gaps (p : Position) : List Token → List Span
  | [] => []
  | t :: rest => ⟨p, t.span.start⟩ :: gaps t.span.stop rest

/-- The tokens' stretches and those before them, in order. -/
def stretches (p : Position) : List Token → List Span
  | [] => []
  | t :: rest => ⟨p, t.span.start⟩ :: t.span :: stretches t.span.stop rest

/-- **A text is cut at the end of a part** by the bytes of the part. -/
theorem splitBytes_byteLength (cs ds : List Char) :
    splitBytes (byteLength cs) (cs ++ ds) = (cs, ds) := by
  induction cs with
  | nil =>
    cases ds with
    | nil => rfl
    | cons d ds =>
      have hd := d.utf8Size_pos
      exact if_neg (Nat.not_le.mpr hd)
  | cons c cs ih =>
    have hle : c.utf8Size ≤ byteLength (c :: cs) := Nat.le_add_right _ _
    have hsub : byteLength (c :: cs) - c.utf8Size = byteLength cs := Nat.add_sub_cancel_left ..
    rw [List.cons_append, splitBytes, if_pos hle, hsub, ih]

theorem slice_eq (before part after : List Char) :
    slice (before ++ (part ++ after)) ⟨Position.origin.pastAll before,
      (Position.origin.pastAll before).pastAll part⟩ = part := by
  simp only [slice, Position.pastAll_offset, Position.origin, Nat.zero_add, Nat.add_sub_cancel_left,
    splitBytes_byteLength]

/-! ## 2. Tokens and what is skipped -/

/-- **A text is skipped whole:** it is white space and comments, one behind the other. -/
inductive Skipped : List Char → Prop
  | nil : Skipped []
  | cons {part rest} (h : SkipText part) (hr : Skipped rest) : Skipped (part ++ rest)

/-- **A text is one token:** read alone, it has this token and the end of the text. -/
def Alone (lexeme : List Char) (kind : TokenKind) (value : String) : Prop :=
  tokenize (String.ofList lexeme) =
    .ok [⟨kind, value, ⟨.origin, Position.origin.pastAll lexeme⟩⟩,
      Token.finish (Position.origin.pastAll lexeme)]

/-- **A text from the place `p` on, cut into tokens** and what is skipped before them. -/
inductive Spaced : Position → List Char → List Token → Prop
  | finish {p gap} (hg : Skipped gap) : Spaced p gap [Token.finish (p.pastAll gap)]
  | token {p gap lexeme rest kind value tokens} (hg : Skipped gap) (hne : lexeme ≠ [])
      (ha : Alone lexeme kind value)
      (hr : Spaced ((p.pastAll gap).pastAll lexeme) rest tokens) :
      Spaced p (gap ++ (lexeme ++ rest))
        (⟨kind, value, ⟨p.pastAll gap, (p.pastAll gap).pastAll lexeme⟩⟩ :: tokens)

/-- What is skipped before a text. -/
theorem Spaced.skip {p : Position} {part rest : List Char} {tokens : List Token}
    (h : SkipText part) (hr : Spaced (p.pastAll part) rest tokens) :
    Spaced p (part ++ rest) tokens := by
  cases hr with
  | finish hg =>
    rw [← Position.pastAll_append]
    exact .finish (.cons h hg)
  | @token _ gap _ _ _ _ _ hg hne ha hr =>
    rw [← List.append_assoc]
    rw [← Position.pastAll_append p part gap] at hr ⊢
    exact .token (.cons h hg) hne ha hr

variable {c : Char} {cs run rest : List Char} {kind : TokenKind} {value : String}

/-- **A token is what it is read as alone.** -/
theorem alone_of_scan (h : scan c (run ++ rest) = .token kind value (c :: run) rest) :
    Alone (c :: run) kind value := by
  have hkeeps := keeps_scan c (run ++ rest)
  rw [h] at hkeeps
  have hcut := hkeeps run [] rest rfl rfl
  rw [List.append_nil] at hcut
  rw [Alone, tokenize_eq, String.toList_ofList, readFrom_token hcut, readFrom_nil]
  rfl

/-- **What is read is cut into tokens.** -/
theorem readFrom_spaced {p : Position} {cs : List Char} {tokens : List Token}
    (h : readFrom p cs = .ok tokens) : Spaced p cs tokens := by
  induction cs using words_induct generalizing p tokens with
  | nil =>
    cases h
    exact .finish .nil
  | blank c cs hblank ih =>
    rw [readFrom_blank hblank] at h
    have hskip : SkipText [c] := .blank (List.forall_mem_singleton.mpr hblank)
    exact .skip hskip (ih h)
  | token c run rest kind value _ hscan ih =>
    obtain ⟨behind, hrest, rfl⟩ := readFrom_token_ok hscan h
    exact .token .nil (List.cons_ne_nil _ _) (alone_of_scan hscan) (ih hrest)
  | comment c run rest _ hscan ih =>
    rw [readFrom_skip hscan] at h
    exact .skip (skipText_scan hscan) (ih h)
  | fault c cs cause hscan =>
    rw [readFrom_fault hscan] at h
    cases h

/-! ## 3. What tokens say about a text -/

/-- **What the tokens of a text say about it.** -/
structure Lossless (source : List Char) (tokens : List Token) : Prop where
  /-- the last token is an empty stretch at the end of the text -/
  closed : tokens.getLast? = some (Token.finish ⟨byteLength source, 1 + newlines source⟩)
  /-- each other takes a stretch of the text, and is what the stretch is read as alone -/
  alone : ∀ t ∈ tokens.dropLast, t.span.start.offset < t.span.stop.offset ∧
    Alone (slice source t.span) t.kind t.value
  /-- the stretches are in order, and do not overlap -/
  ordered : tokens.Pairwise fun t u => t.span.stop.offset ≤ u.span.start.offset
  /-- before, between and behind them is only what is skipped -/
  gaps : ∀ s ∈ gaps .origin tokens, Skipped (slice source s)
  /-- and all of it is the text -/
  whole : (stretches .origin tokens).flatMap (slice source) = source

namespace Spaced

variable {p : Position} {tokens : List Token}

theorem ne_nil (h : Spaced p cs tokens) : tokens ≠ [] := by
  cases h <;> exact List.cons_ne_nil _ _

theorem closed (h : Spaced p cs tokens) :
    tokens.getLast? = some (Token.finish (p.pastAll cs)) := by
  induction h with
  | finish => rfl
  | token hg hne ha hr ih =>
    rw [List.getLast?_cons_of_ne_nil hr.ne_nil, ih, Position.pastAll_append,
      Position.pastAll_append]

/-- The tokens stand behind the place where the text starts. -/
theorem start_le (h : Spaced p cs tokens) : ∀ t ∈ tokens, p.offset ≤ t.span.start.offset := by
  induction h with
  | @finish p gap hg =>
    intro t ht
    rw [List.mem_singleton.mp ht]
    show p.offset ≤ (p.pastAll gap).offset
    rw [Position.pastAll_offset]
    exact Nat.le_add_right _ _
  | @token p gap lexeme rest kind value tokens hg hne ha hr ih =>
    intro t ht
    rcases List.mem_cons.mp ht with rfl | ht
    · show p.offset ≤ (p.pastAll gap).offset
      rw [Position.pastAll_offset]
      exact Nat.le_add_right _ _
    · have hle := ih t ht
      simp only [Position.pastAll_offset] at hle
      omega

theorem ordered (h : Spaced p cs tokens) :
    tokens.Pairwise fun t u => t.span.stop.offset ≤ u.span.start.offset := by
  induction h with
  | finish => exact List.pairwise_singleton ..
  | token hg hne ha hr ih => exact List.pairwise_cons.mpr ⟨fun t ht => hr.start_le t ht, ih⟩

/-- **The parts of a text by their places,** the text starting behind `before`. -/
theorem parts (h : Spaced p cs tokens) (before : List Char)
    (hp : p = Position.origin.pastAll before) :
    (∀ t ∈ tokens.dropLast, t.span.start.offset < t.span.stop.offset ∧
      Alone (slice (before ++ cs) t.span) t.kind t.value) ∧
    (∀ s ∈ Stackling.gaps p tokens, Skipped (slice (before ++ cs) s)) ∧
    (stretches p tokens).flatMap (slice (before ++ cs)) = cs := by
  induction h generalizing before with
  | @finish p gap hg =>
    subst hp
    have hgap := slice_eq before gap []
    rw [List.append_nil] at hgap
    have hend := slice_eq (before ++ gap) [] []
    simp only [List.append_nil, Position.pastAll_append, Position.pastAll_nil] at hend
    refine ⟨nofun, fun s hs => ?_, ?_⟩
    · rw [List.mem_singleton.mp hs]
      show Skipped (slice (before ++ gap) ⟨_, (Position.origin.pastAll before).pastAll gap⟩)
      rwa [hgap]
    · simp only [stretches, Token.finish, List.flatMap_cons, List.flatMap_nil, hgap, hend,
        List.append_nil]
  | @token p gap lexeme rest kind value tokens hg hne ha hr ih =>
    subst hp
    have hgap := slice_eq before gap (lexeme ++ rest)
    have hlexeme := slice_eq (before ++ gap) lexeme rest
    rw [List.append_assoc, Position.pastAll_append] at hlexeme
    obtain ⟨hall, hgaps, hwhole⟩ := ih (before ++ (gap ++ lexeme)) (by
      rw [Position.pastAll_append, Position.pastAll_append])
    rw [List.append_assoc, List.append_assoc] at hall hgaps hwhole
    have hlt : (Position.origin.pastAll before |>.pastAll gap).offset <
        ((Position.origin.pastAll before |>.pastAll gap).pastAll lexeme).offset := by
      rw [Position.pastAll_offset _ lexeme]
      have := length_le_byteLength lexeme
      have := List.length_pos_iff.mpr hne
      omega
    refine ⟨fun t ht => ?_, fun s hs => ?_, ?_⟩
    · rw [List.dropLast_cons_of_ne_nil hr.ne_nil] at ht
      rcases List.mem_cons.mp ht with rfl | ht
      · exact ⟨hlt, hlexeme.symm ▸ ha⟩
      · exact hall t ht
    · rcases List.mem_cons.mp hs with rfl | hs
      · exact hgap.symm ▸ hg
      · exact hgaps s hs
    · simp only [stretches, List.flatMap_cons, hgap, hlexeme]
      exact congrArg (gap ++ ·) (congrArg (lexeme ++ ·) hwhole)

end Spaced

theorem lossless_of_spaced {source : List Char} {tokens : List Token}
    (h : Spaced .origin source tokens) : Lossless source tokens := by
  obtain ⟨halone, hgaps, hwhole⟩ := h.parts [] rfl
  refine ⟨?_, halone, h.ordered, hgaps, hwhole⟩
  have hend : Position.origin.pastAll source = ⟨byteLength source, 1 + newlines source⟩ := by
    have ho := Position.pastAll_offset .origin source
    have hl := Position.pastAll_line .origin source
    cases hq : Position.origin.pastAll source with
    | mk offset line =>
      rw [hq] at ho hl
      simp only [Position.origin, Nat.zero_add] at ho hl
      rw [ho, hl]
  rw [h.closed, hend]

/-! ## 4. What a fault says about a text -/

/-- **A text that no word starts:** no pattern fits, or a character literal starts it that does
    not hold one character. -/
inductive Faulty : List Char → SyntaxCause → Prop
  | unrecognised {c : Char} {cs : List Char} (h : NoPattern (c :: cs)) :
      Faulty (c :: cs) (.unrecognised (String.singleton c))
  | badCharacter {body rest : List Char} (hb : QuotedBody '\x27' body)
      (hone : (unescape body).length ≠ 1) :
      Faulty ('\x27' :: body ++ '\x27' :: rest)
        (.badCharacter (String.ofList ('\x27' :: body ++ ['\x27'])))

/-- **What a fault at a place says about a text:** the text before it can be read, and no word
    starts there. -/
structure Stops (source : List Char) (e : SyntaxError) : Prop where
  /-- the place does not stand inside a character -/
  cut : byteLength (splitBytes e.place.offset source).1 = e.place.offset
  before : ∃ tokens, tokenize (String.ofList (splitBytes e.place.offset source).1) = .ok tokens
  behind : Faulty (splitBytes e.place.offset source).2 e.cause

/-- **Where reading stops,** the text before can be read. -/
theorem readFrom_stops {p : Position} {cs : List Char} {e : SyntaxError}
    (h : readFrom p cs = .error e) :
    ∃ before after, cs = before ++ after ∧ e.place = p.pastAll before ∧
      (∃ tokens, readFrom p before = .ok tokens) ∧ Faulty after e.cause := by
  induction cs using words_induct generalizing p with
  | nil => cases h
  | blank c cs hblank ih =>
    rw [readFrom_blank hblank] at h
    obtain ⟨before, after, rfl, hplace, ⟨tokens, hread⟩, hfault⟩ := ih h
    exact ⟨c :: before, after, rfl, hplace, ⟨tokens, (readFrom_blank hblank _ _).trans hread⟩,
      hfault⟩
  | token c run rest kind value _ hscan ih =>
    have hkeeps := keeps_scan c (run ++ rest)
    rw [hscan] at hkeeps
    rw [readFrom_token hscan] at h
    cases hrest : readFrom (p.pastAll (c :: run)) rest with
    | ok tokens =>
      rw [hrest] at h
      cases h
    | error e' =>
      rw [hrest] at h
      cases h
      obtain ⟨before, after, rfl, hplace, ⟨tokens, hread⟩, hfault⟩ := ih hrest
      refine ⟨c :: run ++ before, after, (List.append_assoc (c :: run) before after).symm,
        ?_, ?_, hfault⟩
      · rw [hplace, Position.pastAll_append]
      · rw [List.cons_append, readFrom_token (hkeeps run before after rfl rfl), hread]
        exact ⟨_, rfl⟩
  | comment c run rest _ hscan ih =>
    have hkeeps := keeps_scan c (run ++ rest)
    rw [hscan] at hkeeps
    rw [readFrom_skip hscan] at h
    obtain ⟨before, after, rfl, hplace, ⟨tokens, hread⟩, hfault⟩ := ih h
    refine ⟨c :: run ++ before, after, (List.append_assoc (c :: run) before after).symm,
      ?_, ?_, hfault⟩
    · rw [hplace, Position.pastAll_append]
    · rw [List.cons_append, readFrom_skip (hkeeps run before after rfl rfl), hread]
      exact ⟨_, rfl⟩
  | fault c cs cause hscan =>
    rw [readFrom_fault hscan] at h
    cases h
    refine ⟨[], c :: cs, rfl, rfl, ⟨_, readFrom_nil p⟩, ?_⟩
    rcases faulty_scan hscan with ⟨hno, rfl⟩ | ⟨body, rest, heq, hb, hone, rfl⟩
    · exact .unrecognised hno
    · rw [heq]
      exact .badCharacter hb hone

/-- **Every text is read to its end,** however many rounds more are allowed, and nothing of it
    is lost; or reading stops at a place where no word starts, behind a text that is read to
    its end. -/
theorem tokenize_lossless (source : String) :
    (∀ rounds ≥ source.toList.length,
      readTokens rounds .origin source.toList [] = tokenize source) ∧
    (∀ tokens, tokenize source = .ok tokens → Lossless source.toList tokens) ∧
    ∀ e, tokenize source = .error e → Stops source.toList e := by
  refine ⟨fun rounds hr => readTokens_fuel hr (Nat.le_refl _) _ _, fun tokens h =>
    lossless_of_spaced (readFrom_spaced h), fun e h => ?_⟩
  obtain ⟨before, after, hsource, hplace, hread, hfault⟩ := readFrom_stops h
  have hoffset : e.place.offset = byteLength before := by
    rw [hplace, Position.pastAll_offset]
    exact Nat.zero_add _
  have hsplit : splitBytes e.place.offset source.toList = (before, after) := by
    rw [hsource, hoffset, splitBytes_byteLength]
  refine ⟨?_, ?_, ?_⟩ <;> rw [hsplit]
  · exact hoffset.symm
  · rw [tokenize_eq, String.toList_ofList]
    exact hread
  · exact hfault

/-- A text with comments between its words loses nothing, and an empty character literal stops
    the reading of another one. -/
theorem commented_lossless :
    (∃ tokens, tokenize "a/* b */==// c\n'd'" = .ok tokens ∧ tokens.length = 4 ∧
      Lossless "a/* b */==// c\n'd'".toList tokens) ∧
    ∃ e, tokenize "a ''" = .error e ∧ Stops "a ''".toList e := by
  obtain ⟨-, hread, -⟩ := tokenize_lossless "a/* b */==// c\n'd'"
  obtain ⟨-, -, hstops⟩ := tokenize_lossless "a ''"
  exact ⟨⟨_, rfl, rfl, hread _ rfl⟩, _, rfl, hstops _ rfl⟩

end Stackling
