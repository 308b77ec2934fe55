import Mathlib.Data.List.Forall2
import Stackling.Proofs.Syntax.Numbering
import Stackling.Proofs.Syntax.Rendering

/-
  File:     Stackling/Proofs/Syntax/Readable.lean
  Subject:  Readers on the words of a phrase.

  A reader is followed on the words that are left on the stream, without their places: it takes
  the words of a phrase, gives the phrase, and leaves the words behind it. Places matter once,
  as the value of a return has to start on the line of the return.

  * `Stream.Shows`                  -- the words that are left on a stream;
  * `Stream.ofTokens_shows`         -- those of all its tokens, at the start;
  * `Reads`                         -- what a reader takes, gives and leaves;
  * `Reads.bind`, `Reads.token`, `Reads.eats`, … -- the ways to compose readers;
  * `list_reads`                    -- phrases with commas between them;
  * `type_reads`, `readParams_reads` -- type annotations and parameters.
-/
namespace Stackling

open Parse

/-! ## 1. Streams -/

/-- What follows a return stands on its line. -/
def SameLine (t u : Token) : Prop := t.kind = .returnWord → t.span.line = u.span.line

/-- **The words that are left on a stream,** before the end of the text. -/
structure Stream.Shows (s : Stream) (ws : List Word) : Prop where
  grammar : s.grammar = .standard
  words : (s.current :: s.following).map Token.word = ws ++ [⟨.endOfText, "EOF"⟩]
  lined : (s.current :: s.following).IsChain SameLine

/-- **The tokens of a text show its words,** where every return has the next one on its line. -/
theorem Stream.ofTokens_shows {tokens : List Token} {ws : List Word}
    (hwords : tokens.map Token.word = ws ++ [⟨.endOfText, "EOF"⟩])
    (hlined : tokens.IsChain SameLine) : (ofTokens .standard tokens).Shows ws := by
  have hlast : tokens.getLast?.map Token.word = some ⟨.endOfText, "EOF"⟩ := by
    rw [← List.getLast?_map, hwords, List.getLast?_concat]
  have hclosed : closed tokens = tokens := by
    refine closed_eq_self ?_
    have hkind := congrArg (Option.map Word.kind) hlast
    rwa [Option.map_map] at hkind
  cases tokens with
  | nil => cases hlast
  | cons t ts =>
    rw [ofTokens, hclosed]
    exact ⟨rfl, hwords, hlined⟩

/-- The kind of the first word, or the end of the text. -/
def firstKind : List Word → TokenKind
  | [] => .endOfText
  | w :: _ => w.kind

namespace Stream.Shows

variable {s : Stream} {w : Word} {ws : List Word}

theorem current (h : s.Shows (w :: ws)) : s.current.word = w := (List.cons.inj h.words).1

theorem kind (h : s.Shows ws) : s.kind = firstKind ws := by
  cases ws with
  | nil => exact congrArg Word.kind (List.cons.inj h.words).1
  | cons w ws => exact congrArg Word.kind h.current

/-- **The next token** shows the words behind the first one. -/
theorem next (h : s.Shows (w :: ws)) :
    s.next.Shows ws ∧ SameLine s.current s.next.current := by
  have hwords := (List.cons.inj h.words).2
  have hlined := h.lined
  unfold Stream.next
  cases hf : s.following with
  | nil =>
    rw [hf] at hwords
    cases ws <;> cases hwords
  | cons t ts =>
    rw [hf] at hwords hlined
    obtain ⟨hline, hlined⟩ := List.isChain_cons_cons.mp hlined
    exact ⟨⟨h.grammar, hwords, hlined⟩, hline⟩

/-- The token behind the current one has the word behind the first one. -/
theorem peek {w' : Word} (h : s.Shows (w :: w' :: ws)) : s.peek.word = w' := by
  have hwords := (List.cons.inj h.words).2
  cases hf : s.following with
  | nil =>
    rw [hf] at hwords
    cases hwords
  | cons t ts =>
    rw [hf] at hwords
    rw [Stream.peek, hf]
    exact (List.cons.inj hwords).1

/-- There are more tokens than words. -/
theorem size (h : s.Shows ws) : s.size = ws.length + 1 := by
  have hlength := congrArg List.length h.words
  simpa [Stream.size] using hlength

end Stream.Shows

/-! ## 2. Readers -/

variable {α β : Type} {m : Parse α} {f : α → Parse β} {ws ws' rest : List Word}
  {post : α → Prop} {post' : β → Prop}

/-- **A reader takes the words `ws`,** gives what `post` says, and leaves the rest. -/
def Reads (m : Parse α) (ws rest : List Word) (post : α → Prop) : Prop :=
  ∀ s : Stream, s.Shows (ws ++ rest) → ∃ x s', m s = .ok x s' ∧ post x ∧ s'.Shows rest

namespace Reads

theorem pure {x : α} (h : post x) : Reads (Pure.pure x) [] rest post :=
  fun s hs => ⟨x, s, rfl, h, hs⟩

/-- **One reader after the other.** -/
theorem bind (hm : Reads m ws (ws' ++ rest) post) (hf : ∀ x, post x → Reads (f x) ws' rest post') :
    Reads (m >>= f) (ws ++ ws') rest post' := by
  intro s hs
  rw [List.append_assoc] at hs
  obtain ⟨x, s₁, hx, hpost, hs₁⟩ := hm s hs
  obtain ⟨y, s₂, hy, hpost', hs₂⟩ := hf x hpost s₁ hs₁
  exact ⟨y, s₂, bind_eq_ok.mpr ⟨x, s₁, hx, hy⟩, hpost', hs₂⟩

/-- After a reader that takes one word. -/
theorem one {w : Word} (hm : Reads m [w] (ws ++ rest) post)
    (hf : ∀ x, post x → Reads (f x) ws rest post') : Reads (m >>= f) (w :: ws) rest post' :=
  bind hm hf

/-- After a reader that takes no word. -/
theorem after (hm : Reads m [] (ws ++ rest) post) (hf : ∀ x, post x → Reads (f x) ws rest post') :
    Reads (m >>= f) ws rest post' := bind hm hf

/-- What follows a reader that takes all words takes none. -/
theorem last (hm : Reads m ws rest post) (hf : ∀ x, post x → Reads (f x) [] rest post') :
    Reads (m >>= f) ws rest post' := by
  intro s hs
  obtain ⟨x, s₁, hx, hpost, hs₁⟩ := hm s hs
  obtain ⟨y, s₂, hy, hpost', hs₂⟩ := hf x hpost s₁ hs₁
  exact ⟨y, s₂, bind_eq_ok.mpr ⟨x, s₁, hx, hy⟩, hpost', hs₂⟩

theorem map {g : α → β} (hm : Reads m ws rest post) (hg : ∀ x, post x → post' (g x)) :
    Reads (g <$> m) ws rest post' := by
  rw [← bind_pure_comp]
  exact hm.last fun x hx => .pure (hg x hx)

/-- A reader that looks at the stream. -/
theorem look {f : Stream → Parse β} (h : ∀ s : Stream, s.Shows (ws ++ rest) →
    Reads (f s) ws rest post') : Reads (get >>= f) ws rest post' := by
  intro s hs
  obtain ⟨y, s', hy, hpost, hs'⟩ := h s hs s hs
  exact ⟨y, s', bind_eq_ok.mpr ⟨s, s, rfl, hy⟩, hpost, hs'⟩

theorem advance (w : Word) : Reads Parse.advance [w] rest fun t => t.word = w :=
  fun s hs => ⟨s.current, s.next, rfl, hs.current, hs.next.1⟩

/-- **A token of the kind that is expected.** -/
theorem expectOr {k : TokenKind} {w : Word} (hk : w.kind = k) (otherwise : Parse Token) :
    Reads (Parse.expectOr k otherwise) [w] rest fun t => t.word = w := by
  refine look fun s hs => ?_
  rw [if_pos (hs.kind.trans hk)]
  exact advance w

/-- The same, with what follows. -/
theorem token {k : TokenKind} {w : Word} {f : Token → Parse β} (hk : w.kind = k)
    (hf : ∀ t, t.word = w → Reads (f t) ws rest post') :
    Reads (expect k >>= f) (w :: ws) rest post' := one (expectOr hk _) hf

theorem tokenOr {k : TokenKind} {w : Word} {f : Token → Parse β} {otherwise : Parse Token}
    (hk : w.kind = k) (hf : ∀ t, t.word = w → Reads (f t) ws rest post') :
    Reads (Parse.expectOr k otherwise >>= f) (w :: ws) rest post' :=
  one (expectOr hk _) hf

/-- The first token, whatever it is, with what follows. -/
theorem opening {w : Word} {f : Token → Parse β}
    (hf : ∀ t, t.word = w → Reads (f t) ws rest post') :
    Reads (Parse.advance >>= f) (w :: ws) rest post' := one (advance w) hf

/-- The first token, with what follows on its line. -/
theorem openingLook {w : Word} {f : Token → Stream → Parse β}
    (hf : ∀ t, t.word = w → ∀ s : Stream, s.Shows (ws ++ rest) → SameLine t s.current →
      Reads (f t s) ws rest post') :
    Reads (Parse.advance >>= fun t => get >>= f t) (w :: ws) rest post' := by
  intro s hs
  obtain ⟨hnext, hline⟩ := hs.next
  exact hf s.current hs.current s.next hnext hline s.next hnext

theorem discard (hm : Reads m ws rest post) : Reads (Functor.discard m) ws rest fun _ => True :=
  hm.map fun _ _ => trivial

/-- The first token is left out. -/
theorem skip {w : Word} {f : PUnit → Parse β} (hf : Reads (f ⟨⟩) ws rest post') :
    Reads (Functor.discard Parse.advance >>= f) (w :: ws) rest post' :=
  one (advance w).discard fun _ _ => hf

/-- A token that may stand here, and does. -/
theorem eats {k : TokenKind} {w : Word} (hk : w.kind = k) :
    Reads (eat k) [w] rest fun found => found = true := by
  refine look fun s hs => ?_
  rw [if_pos (hs.kind.trans hk)]
  exact skip (.pure rfl)

/-- A token that may stand here, and does not. -/
theorem eatsNot {k : TokenKind} (hk : firstKind rest ≠ k) :
    Reads (eat k) [] rest fun found => found = false := by
  refine look fun s hs => ?_
  rw [if_neg (fun h => hk (hs.kind.symm.trans h))]
  exact .pure rfl

theorem freshId : Reads Parse.freshId [] rest fun _ => True :=
  fun s hs => ⟨s.nextId, _, rfl, trivial, ⟨hs.grammar, hs.words, hs.lined⟩⟩

theorem spanFrom (start : Position) : Reads (Parse.spanFrom start) [] rest fun _ => True :=
  look fun _ _ => .pure trivial

theorem finishNode (start : Position) : Reads (Stackling.finishNode start) [] rest fun _ => True :=
  after freshId fun _ _ => after (spanFrom start) fun _ _ => .pure trivial

/-- What is read may be said in other words. -/
theorem mono {post₁ : α → Prop} (h : Reads m ws rest post) (hp : ∀ x, post x → post₁ x) :
    Reads m ws rest post₁ := by
  intro s hs
  obtain ⟨x, s', hx, hpost, hs'⟩ := h s hs
  exact ⟨x, s', hx, hp x hpost, hs'⟩

end Reads

/-! ## 3. Phrases with commas between them -/

theorem firstKind_append (h : ws ≠ []) : firstKind (ws ++ rest) = firstKind ws := by
  cases ws with
  | nil => exact absurd rfl h
  | cons w ws => rfl

/-- **The reader of a list** reads items with commas between them, up to the token that closes the
    list. -/
def ListReader (item : Nat → Parse α) (closing : TokenKind) (list : Nat → Parse (List α)) : Prop :=
  ∀ fuel, list (fuel + 1) = (do
    if (← get).kind = closing then return []
    let first ← item fuel
    if ← eat .comma then return first :: (← list fuel)
    return [first])

/-- **A part of a list is read,** given fuel for each of its words, up to a comma or the token
    that closes the list. -/
structure ReadsPart {γ : Type} (item : Nat → Parse α) (closing : TokenKind)
    (same : α → γ → Prop) (part : List Word) (y : γ) : Prop where
  ne_nil : part ≠ []
  open_ : firstKind part ≠ closing
  reads : ∀ fuel, 8 * part.length ≤ fuel → ∀ rest,
    firstKind rest = .comma ∨ firstKind rest = closing →
    Reads (item fuel) part rest fun x => same x y

/-- **A list is read,** if its parts are. -/
theorem list_reads {γ : Type} {item : Nat → Parse α} {list : Nat → Parse (List α)}
    {closing : TokenKind} {same : α → γ → Prop} (hlist : ListReader item closing list)
    (hclosing : closing ≠ .comma) {parts : List (List Word)} {ys : List γ}
    (h : List.Forall₂ (ReadsPart item closing same) parts ys) (fuel : Nat)
    (hfuel : 8 * (commaSeparated parts).length < fuel) (rest : List Word)
    (hrest : firstKind rest = closing) :
    Reads (list fuel) (commaSeparated parts) rest fun xs => List.Forall₂ same xs ys := by
  induction h generalizing fuel with
  | nil =>
    obtain ⟨fuel, rfl⟩ := Nat.exists_eq_add_one_of_ne_zero (Nat.ne_of_gt hfuel)
    rw [hlist]
    refine Reads.look fun s hs => ?_
    rw [if_pos (hs.kind.trans hrest)]
    exact .pure .nil
  | @cons part y parts ys hpart hparts ih =>
    obtain ⟨fuel, rfl⟩ := Nat.exists_eq_add_one_of_ne_zero (Nat.ne_zero_of_lt hfuel)
    rw [hlist]
    cases hparts with
    | nil =>
      refine Reads.look fun s hs => ?_
      have hopen : s.kind ≠ closing := by
        rw [hs.kind, commaSeparated, firstKind_append hpart.ne_nil]
        exact hpart.open_
      rw [if_neg hopen]
      have hle : 8 * part.length ≤ fuel := Nat.le_of_lt_succ hfuel
      refine (hpart.reads fuel hle rest (.inr hrest)).last fun x hx => ?_
      refine Reads.after (.eatsNot fun h => hclosing (hrest.symm.trans h)) fun found hfound => ?_
      subst hfound
      exact .pure (.cons hx .nil)
    | @cons part' y' parts ys hpart' hparts =>
      rw [commaSeparated_cons] at hfuel ⊢
      rw [List.length_append, List.length_cons] at hfuel
      refine Reads.look fun s hs => ?_
      have hopen : s.kind ≠ closing := by
        rw [hs.kind, List.append_assoc, firstKind_append hpart.ne_nil]
        exact hpart.open_
      rw [if_neg hopen]
      refine Reads.bind (hpart.reads fuel (by omega) _ (.inl rfl)) fun x hx => ?_
      refine Reads.one (.eats rfl) fun found hfound => ?_
      subst hfound
      exact (ih fuel (by omega)).last fun xs hxs => .pure (.cons hx hxs)

/-- Lists whose entries are the same in some sense have the same images. -/
theorem map_eq_map {γ : Type} {g : α → γ} {xs ys : List α}
    (h : List.Forall₂ (fun x y => g x = g y) xs ys) : xs.map g = ys.map g := by
  induction h with
  | nil => rfl
  | cons hxy _ ih => rw [List.map_cons, List.map_cons, hxy, ih]

/-! ## 4. Type annotations and parameters -/

theorem TypeExpr.words_start (t : TypeExpr) :
    t.words ≠ [] ∧ (firstKind t.words = .identifier ∨ firstKind t.words = .fnWord) := by
  cases t <;> rw [TypeExpr.words] <;>
    exact ⟨List.cons_ne_nil _ _, by simp [firstKind, Word.name, Word.of]⟩

theorem typesWith_lists : ListReader typeWith .closeParen typesWith := fun fuel => by rw [typesWith]

mutual
/-- **A type annotation is read.** -/
theorem type_reads : (t : TypeExpr) → (fuel : Nat) → 8 * t.words.length ≤ fuel →
    (rest : List Word) → Reads (typeWith fuel) t.words rest fun x => x = t
  | .int, fuel, hfuel, rest | .string, fuel, hfuel, rest | .bool, fuel, hfuel, rest
  | .char, fuel, hfuel, rest | .void, fuel, hfuel, rest => by
    rw [TypeExpr.words] at hfuel ⊢
    rw [List.length_singleton] at hfuel
    obtain ⟨fuel, rfl⟩ := Nat.exists_eq_add_one_of_ne_zero (by omega : fuel ≠ 0)
    rw [typeWith]
    refine Reads.look fun s hs => ?_
    rw [hs.grammar, hs.kind]
    refine Reads.token rfl fun t ht => ?_
    rw [show t.value = _ from congrArg Word.value ht]
    exact .pure rfl
  | .array element, fuel, hfuel, rest => by
    rw [TypeExpr.words] at hfuel ⊢
    simp only [List.length_cons, List.length_append, List.length_nil] at hfuel
    obtain ⟨fuel, rfl⟩ := Nat.exists_eq_add_one_of_ne_zero (by omega : fuel ≠ 0)
    rw [typeWith]
    refine Reads.look fun s hs => ?_
    rw [hs.grammar, hs.kind]
    refine Reads.token rfl fun t ht => ?_
    rw [show t.value = _ from congrArg Word.value ht]
    refine Reads.token rfl fun _ _ => ?_
    refine Reads.bind (type_reads element fuel (by omega) _) fun x hx => ?_
    refine Reads.token rfl fun _ _ => ?_
    exact .pure (by rw [hx])
  | .hash key value, fuel, hfuel, rest => by
    rw [TypeExpr.words] at hfuel ⊢
    simp only [List.length_cons, List.length_append, List.length_nil] at hfuel
    obtain ⟨fuel, rfl⟩ := Nat.exists_eq_add_one_of_ne_zero (by omega : fuel ≠ 0)
    rw [typeWith]
    refine Reads.look fun s hs => ?_
    rw [hs.grammar, hs.kind]
    refine Reads.token rfl fun t ht => ?_
    rw [show t.value = _ from congrArg Word.value ht]
    refine Reads.token rfl fun _ _ => ?_
    refine Reads.bind (type_reads key fuel (by omega) _) fun k hk => ?_
    refine Reads.token rfl fun _ _ => ?_
    refine Reads.bind (type_reads value fuel (by omega) _) fun v hv => ?_
    refine Reads.token rfl fun _ _ => ?_
    exact .pure (by rw [hk, hv])
  | .fn params returns, fuel, hfuel, rest => by
    rw [TypeExpr.words] at hfuel ⊢
    simp only [List.length_cons, List.length_append] at hfuel
    obtain ⟨fuel, rfl⟩ := Nat.exists_eq_add_one_of_ne_zero (by omega : fuel ≠ 0)
    rw [typeWith]
    refine Reads.look fun s hs => ?_
    rw [hs.grammar, hs.kind]
    refine Reads.token rfl fun _ _ => ?_
    refine Reads.token rfl fun _ _ => ?_
    refine Reads.bind (list_reads typesWith_lists (by decide)
      (types_read params) fuel (by omega) _ rfl) fun xs hxs => ?_
    refine Reads.token rfl fun _ _ => ?_
    refine Reads.token rfl fun _ _ => ?_
    refine Reads.last (type_reads returns fuel (by omega) _) fun x hx => ?_
    exact .pure (by rw [List.forall₂_eq_eq_eq] at hxs; rw [hx, hxs])

theorem types_read : (ts : List TypeExpr) →
    List.Forall₂ (ReadsPart typeWith .closeParen fun x t => x = t) (typeWords ts) ts
  | [] => .nil
  | t :: ts => by
    obtain ⟨hne, hstart⟩ := t.words_start
    refine .cons ⟨hne, ?_, fun fuel hfuel rest _ => type_reads t fuel hfuel rest⟩ (types_read ts)
    rcases hstart with h | h <;> rw [h] <;> decide
end

/-- A type annotation is read with the fuel that there is. -/
theorem readType_reads (t : TypeExpr) (rest : List Word) :
    Reads readType t.words rest fun x => x = t := by
  refine Reads.look fun s hs => type_reads t _ ?_ rest
  have hsize := hs.size
  rw [List.length_append] at hsize
  rw [Stream.budget]
  omega

/-- A parameter, as the list of parameters reads it. -/
def readParam : Parse Param := do
  let name ← expect .identifier
  let _ ← expect .colon
  let written ← readType
  let span ← spanFrom name.span.start
  return ⟨name.value, written, span⟩

theorem paramsWith_lists : ListReader (fun _ => readParam) .closeParen paramsWith := by
  intro fuel
  rw [paramsWith]
  simp only [readParam, bind_assoc, pure_bind]

theorem readParam_reads (p : Param) (rest : List Word) :
    Reads readParam p.words rest fun x => x.bare = p.bare := by
  refine Reads.token rfl fun name hname => ?_
  refine Reads.token rfl fun _ _ => ?_
  refine (readType_reads p.written rest).last fun written hwritten => ?_
  refine Reads.after (.spanFrom _) fun span _ => .pure ?_
  have hvalue : name.value = p.name := congrArg Word.value hname
  rw [Param.bare, Param.bare, hvalue, hwritten]

/-- **Parameters are read.** -/
theorem readParams_reads (ps : List Param) (rest : List Word) :
    Reads readParams (paramWords ps) rest fun xs => xs.map Param.bare = ps.map Param.bare := by
  have hparts : List.Forall₂ (ReadsPart (fun _ => readParam) .closeParen
      fun x p => x.bare = p.bare) (ps.map Param.words) ps := by
    rw [List.forall₂_map_left_iff, List.forall₂_same]
    intro p _
    exact ⟨List.cons_ne_nil _ _, nofun, fun _ _ rest _ => readParam_reads p rest⟩
  refine Reads.token rfl fun _ _ => ?_
  refine Reads.look fun s hs => ?_
  have hsize := hs.size
  rw [List.length_append, List.length_append] at hsize
  refine Reads.bind (list_reads paramsWith_lists (by decide) hparts s.budget
    (by rw [Stream.budget]; omega) _ rfl) fun xs hxs => ?_
  refine Reads.token rfl fun _ _ => .pure ?_
  exact map_eq_map hxs

end Stackling
