import Stackling.Proofs.Syntax.Bounds
import Stackling.Proofs.Token.Written

/-
  File:     Stackling/Proofs/Syntax/Layout.lean
  Subject:  What the layout of a text decides.

  The places of tokens go into every node of the tree and into every error. None of them comes back
  into a decision, but for one: whether the token behind a `return` starts on its line. Tokens of
  the same words in another layout are therefore alike as soon as these answers are, and what is
  alike is read alike.

  * `StaysOnLine`           -- the next token starts on the line of this one;
  * `parse_ignores_layout`  -- the same words, with the same answers behind each `return`.
-/
namespace Stackling

variable {tokens tokens' as bs : List Token}

/-! ## 1. Words without places -/

/-- What is left of places that are not looked at. -/
def Position.forgotten (_ : Position) : Position := .origin

/-- **A program without its stretches:** names, types, literals and the numbers of expressions
    stay. -/
def Program.withoutPlaces (p : Program) : Program := p.moved Position.forgotten

/-- The token behind the `i`-th one starts on its line. -/
def StaysOnLine (tokens : List Token) (i : Nat) : Prop :=
  ∃ a ∈ tokens[i]?, ∃ b ∈ tokens[i + 1]?, b.span.line = a.span.line

instance (tokens : List Token) (i : Nat) : Decidable (StaysOnLine tokens i) :=
  inferInstanceAs (Decidable (∃ a ∈ tokens[i]?, ∃ b ∈ tokens[i + 1]?, b.span.line = a.span.line))

theorem Token.moved_forgotten {a b : Token} (h : a.word = b.word) :
    a.moved Position.forgotten = b.moved Position.forgotten := by
  injection h with hkind hvalue
  rw [Token.moved, Token.moved, hkind, hvalue]
  rfl

theorem Token.kind_of_word {a b : Token} (h : a.word = b.word) : a.kind = b.kind :=
  congrArg Word.kind h

/-- **Tokens of the same words are alike,** if a `return` has the same answer in both. What ends
    the text needs none. -/
theorem alike_of_words (hwords : as.map Token.word = bs.map Token.word)
    (hend : as.getLast?.map Token.kind = some .endOfText)
    (hlines : ∀ i a b, as[i]? = some a → as[i + 1]? = some b → a.kind = .returnWord →
      b.kind ≠ .endOfText → (StaysOnLine as i ↔ StaysOnLine bs i)) :
    Alike Position.forgotten as bs := by
  induction as generalizing bs with
  | nil => cases hend
  | cons a as ih =>
    obtain ⟨b, bs, rfl⟩ : ∃ b bs', bs = b :: bs' :=
      List.exists_cons_of_ne_nil fun h => List.cons_ne_nil _ _ (hwords.trans (congrArg _ h))
    obtain ⟨hword, hwords⟩ := List.cons_eq_cons.mp hwords
    have hmoved := Token.moved_forgotten hword
    by_cases hk : a.kind = .endOfText
    · exact .finish as bs hmoved hk
    · cases as with
      | nil => exact absurd (Option.some.inj hend) hk
      | cons c as =>
        obtain ⟨d, bs, rfl⟩ : ∃ d bs', bs = d :: bs' :=
          List.exists_cons_of_ne_nil fun h => List.cons_ne_nil _ _ (hwords.trans (congrArg _ h))
        refine .cons hmoved hk (fun hreturn hc => ?_) (ih hwords hend fun i => hlines (i + 1))
        have hfirst : ∀ {x y : Token} {l : List Token},
            StaysOnLine (x :: y :: l) 0 ↔ y.span.line = x.span.line := by
          intro x y l
          constructor
          · rintro ⟨_, ⟨⟩, _, ⟨⟩, h⟩
            exact h
          · exact fun h => ⟨x, rfl, y, rfl, h⟩
        exact hfirst.symm.trans ((hlines 0 a c rfl rfl hreturn hc).trans hfirst)

/-! ## 2. Closed lists -/

/-- **A list is closed by end tokens,** the same for the same words. -/
theorem Stream.closed_of_words (h : tokens.map Token.word = tokens'.map Token.word) :
    ∃ more more', closed tokens = tokens ++ more ∧ closed tokens' = tokens' ++ more' ∧
      more.map Token.word = more'.map Token.word ∧ ∀ a ∈ more, a.kind = .endOfText := by
  have hlast : tokens.getLast?.map Token.word = tokens'.getLast?.map Token.word := by
    rw [← List.getLast?_map, ← List.getLast?_map, h]
  rw [closed, closed]
  cases ht : tokens.getLast? with
  | none =>
    rw [ht] at hlast
    rw [Option.map_eq_none_iff.mp hlast.symm, List.getLast?_eq_none_iff.mp ht]
    refine ⟨_, _, rfl, ?_, rfl, ?_⟩
    · rw [List.getLast?_eq_none_iff.mp (Option.map_eq_none_iff.mp hlast.symm), List.nil_append]
    · rintro a (_ | ⟨_, ⟨⟩⟩)
      rfl
  | some a =>
    rw [ht] at hlast
    obtain ⟨b, hb, hword⟩ := Option.map_eq_some_iff.mp hlast.symm
    rw [hb]
    dsimp only
    rw [Token.kind_of_word hword]
    by_cases hk : a.kind = .endOfText
    · rw [if_pos hk, if_pos hk]
      exact ⟨[], [], (List.append_nil _).symm, (List.append_nil _).symm, rfl,
        List.forall_mem_nil _⟩
    · rw [if_neg hk, if_neg hk]
      refine ⟨_, _, rfl, rfl, rfl, ?_⟩
      rintro a (_ | ⟨_, ⟨⟩⟩)
      rfl

/-- What was put behind a list does not change what stands on a line in it. -/
theorem staysOnLine_append {i : Nat} {b : Token} (more : List Token) (hb : tokens[i + 1]? = some b) :
    StaysOnLine (tokens ++ more) i ↔ StaysOnLine tokens i := by
  obtain ⟨hi, -⟩ := List.getElem?_eq_some_iff.mp hb
  unfold StaysOnLine
  rw [List.getElem?_append_left hi, List.getElem?_append_left (Nat.lt_of_succ_lt hi)]

/-- **The words and the answers behind each `return`** make two lists alike. -/
theorem alike_closed (hwords : tokens.map Token.word = tokens'.map Token.word)
    (hlines : ∀ i a, tokens[i]? = some a → a.kind = .returnWord →
      (StaysOnLine tokens i ↔ StaysOnLine tokens' i)) :
    Alike Position.forgotten (Stream.closed tokens) (Stream.closed tokens') := by
  have hend := Stream.kind_getLast?_closed tokens
  obtain ⟨more, more', hclosed, hclosed', hmore, hfinish⟩ := Stream.closed_of_words hwords
  rw [hclosed] at hend
  rw [hclosed, hclosed']
  refine alike_of_words ?_ hend fun i a b ha hb hreturn hk => ?_
  · rw [List.map_append, List.map_append, hwords, hmore]
  · -- A token that ends nothing is one of the list, and so is the one at its place in the other.
    have hi : i + 1 < tokens.length := by
      by_contra hout
      rw [List.getElem?_append_right (Nat.le_of_not_lt hout)] at hb
      exact hk (hfinish b (List.mem_of_getElem? hb))
    have hlength : tokens.length = tokens'.length := by
      rw [← List.length_map Token.word, hwords, List.length_map]
    have hi' : i + 1 < tokens'.length := hlength ▸ hi
    rw [List.getElem?_append_left (Nat.lt_of_succ_lt hi)] at ha
    rw [staysOnLine_append more (List.getElem?_eq_getElem hi),
      staysOnLine_append more' (List.getElem?_eq_getElem hi')]
    exact hlines i a ha hreturn

/-! ## 3. Reading -/

/-- **Layout decides nothing but what belongs to a `return`.** Two lists of the same words, in
    which each `return` gets the same answer to whether the next token starts on its line, are read
    as programs that are the same up to their stretches, or both are refused for the same cause. -/
theorem parse_ignores_layout (tokens tokens' : List Token)
    (hwords : tokens.map Token.word = tokens'.map Token.word)
    (hlines : ∀ i a, tokens[i]? = some a → a.kind = .returnWord →
      (StaysOnLine tokens i ↔ StaysOnLine tokens' i)) :
    (∃ p p', parse tokens = .ok p ∧ parse tokens' = .ok p' ∧
      p.withoutPlaces = p'.withoutPlaces) ∨
    ∃ e e', parse tokens = .error e ∧ parse tokens' = .error e' ∧ e.cause = e'.cause := by
  have hmoved := parse_alike (alike_closed hwords hlines)
  cases hread : parse tokens with
  | ok p =>
    cases hread' : parse tokens' with
    | ok p' =>
      rw [hread, hread'] at hmoved
      injection hmoved with hsame
      exact .inl ⟨p, p', rfl, rfl, hsame⟩
    | error e' =>
      rw [hread, hread'] at hmoved
      cases hmoved
  | error e =>
    cases hread' : parse tokens' with
    | ok p' =>
      rw [hread, hread'] at hmoved
      cases hmoved
    | error e' =>
      rw [hread, hread'] at hmoved
      injection hmoved with hsame
      injection hsame with hcause
      exact .inr ⟨e, e', rfl, rfl, hcause⟩

/-- A program that gives a value back, with each token on the line that `lines` has for it. -/
def returnTokens (lines : List Nat) : List Token :=
  let words : List Word := [⟨.fnWord, "fn"⟩, ⟨.identifier, "main"⟩, ⟨.openParen, "("⟩,
    ⟨.closeParen, ")"⟩, ⟨.openCurly, "\x7b"⟩, ⟨.returnWord, "return"⟩, ⟨.number, "1"⟩,
    ⟨.plus, "+"⟩, ⟨.number, "2"⟩, ⟨.closeCurly, "\x7d"⟩]
  words.zipWith (fun w line => ⟨w.kind, w.value, ⟨⟨0, line⟩, ⟨0, line⟩⟩⟩) lines

/-- The program on one line. -/
def flatTokens : List Token := returnTokens [1, 1, 1, 1, 1, 1, 1, 1, 1, 1]

/-- The program on many lines. -/
def spreadTokens : List Token := returnTokens [1, 2, 3, 5, 8, 9, 9, 10, 11, 11]

/-- On one line, and on many: only what stands behind `return` has to stay there. -/
theorem spread_ignores_layout :
    ∃ p p', parse flatTokens = .ok p ∧ parse spreadTokens = .ok p' ∧
      p.withoutPlaces = p'.withoutPlaces := by
  have hlines : ∀ i < 10, ∀ a ∈ flatTokens[i]?, a.kind = .returnWord →
      (StaysOnLine flatTokens i ↔ StaysOnLine spreadTokens i) := by decide
  have hread : (parse flatTokens).isOk = true := by decide +kernel
  obtain h | ⟨e, -, he, -⟩ := parse_ignores_layout flatTokens spreadTokens rfl fun i a ha =>
    hlines i (List.getElem?_eq_some_iff.mp ha).1 a ha
  · exact h
  · rw [he] at hread
    cases hread

end Stackling
