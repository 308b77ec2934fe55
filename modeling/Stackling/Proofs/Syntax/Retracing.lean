import Stackling.Proofs.Syntax.Phrases
import Stackling.Proofs.Token.LineEnds

/-
  File:     Stackling/Proofs/Syntax/Retracing.lean
  Subject:  A phrase is read alike wherever it stands.

  A reader sees of a text the tokens it takes, and the kind of the one behind them. So a run of
  it can be retraced on another stream, on which the same words stand, all of them the same
  number of lines further down. What stands behind them may be another token there, if the run
  ended at a closing curly bracket and the reader does not go on with the other token either.

  * `Takes`, `Along`    -- the tokens a run takes, and another stream that has them;
  * `Retraces`          -- a run can be retraced, with a lemma for every way of composing;
  * `type_retraces`, `readParams_retraces` -- annotations and parameters.
-/
namespace Stackling

open Parse

/-! ## 1. What a run takes -/

/-- The tokens that are left on a stream. -/
def Stream.left (s : Stream) : List Token := s.current :: s.following

/-- The grammar is that of the language, and the text ends with the last token. -/
structure Stream.Whole (s : Stream) : Prop where
  grammar : s.grammar = .standard
  finish : s.left.getLast?.map Token.kind = some .endOfText

/-- **A run takes the tokens `ts`,** none of which opens a comment with the next one. -/
structure Takes (ts : List Token) (s t : Stream) : Prop where
  left : s.left = ts ++ t.left
  previous : t.previous? = ts.getLast?.or s.previous?
  plain : (ts ++ [t.current]).IsChain NoComment

/-- **The stream of a list of tokens** has the closed list left. -/
theorem Stream.ofTokens_closed (tokens : List Token) :
    (ofTokens .standard tokens).Whole ∧ (ofTokens .standard tokens).left = closed tokens := by
  have hfinish := kind_getLast?_closed tokens
  rw [ofTokens]
  cases hclosed : closed tokens with
  | nil =>
    rw [hclosed] at hfinish
    cases hfinish
  | cons a as =>
    rw [hclosed] at hfinish
    exact ⟨⟨rfl, hfinish⟩, rfl⟩

/-- **A stream of tokens that end a text** has all of them left. -/
theorem Stream.ofTokens_whole {tokens : List Token}
    (h : tokens.getLast?.map Token.kind = some .endOfText) :
    (ofTokens .standard tokens).Whole ∧ (ofTokens .standard tokens).left = tokens := by
  have hclosed := ofTokens_closed tokens
  rwa [closed_eq_self h] at hclosed

namespace Stream

variable {s : Stream} {t u : Token} {ts : List Token}

/-- **The next stream** has one token less, except at the end of the text. -/
theorem Whole.next (h : s.Whole) (hk : s.kind ≠ .endOfText) :
    s.next.Whole ∧ s.left = s.current :: s.next.left := by
  have hfinish := h.finish
  unfold Stream.next
  cases hf : s.following with
  | nil =>
    rw [left, hf] at hfinish
    exact absurd (Option.some.inj hfinish) hk
  | cons t ts =>
    rw [left, hf, List.getLast?_cons_cons] at hfinish
    refine ⟨⟨h.grammar, hfinish⟩, ?_⟩
    rw [left, hf]
    rfl

theorem left_next (h : s.left = t :: u :: ts) : s.next.left = u :: ts := by
  have hf : s.following = u :: ts := (List.cons.inj h).2
  rw [Stream.next, hf]
  rfl

theorem previous_next (h : s.left = s.current :: s.next.left) :
    s.next.previous? = some s.current := by
  unfold Stream.next at h ⊢
  cases hf : s.following with
  | nil =>
    rw [hf] at h
    exact absurd (congrArg List.length h) (Nat.ne_of_lt (Nat.lt_succ_self _))
  | cons t ts => rfl

theorem grammar_next (s : Stream) : s.next.grammar = s.grammar := by
  unfold Stream.next
  split <;> rfl

theorem length_left (s : Stream) : s.left.length = s.size := rfl

end Stream

namespace Takes

variable {ts us : List Token} {s t u : Stream}

theorem nil (s : Stream) : Takes [] s s := ⟨rfl, rfl, .singleton _⟩

theorem append (h : Takes ts s t) (h' : Takes us t u) : Takes (ts ++ us) s u where
  left := by rw [h.left, h'.left, List.append_assoc]
  previous := by rw [h'.previous, h.previous, List.getLast?_append, Option.or_assoc]
  plain := by
    have hfirst := List.isChain_append.mp h.plain
    rw [List.append_assoc]
    refine List.isChain_append.mpr ⟨hfirst.1, h'.plain, fun a ha b hb => ?_⟩
    -- the token after the first run is the one that the second run starts with
    have hhead : (us ++ [u.current]).head? = [t.current].head? := by
      have hleft := congrArg List.head? h'.left
      rw [List.head?_append] at hleft ⊢
      exact hleft.symm
    exact hfirst.2.2 a ha b (hhead ▸ hb)

theorem unique (h : Takes ts s t) (h' : Takes us s t) : ts = us :=
  List.append_cancel_right (h.left.symm.trans h'.left)

theorem length_le (h : Takes ts s t) : t.left.length ≤ s.left.length := by
  rw [h.left, List.length_append]
  exact Nat.le_add_left _ _

/-- A run that takes nothing stays where it is. -/
theorem current (h : Takes [] s t) : t.current = s.current := (List.cons.inj h.left).1.symm

end Takes

/-- **Another stream has the tokens of a run,** lower down, with `rest` behind them. -/
structure Along (lines : Nat) (after : TokenKind → Prop) (ts : List Token) (t : Stream)
    (ts' rest : List Token) (s' : Stream) : Prop where
  grammar : s'.grammar = .standard
  left : s'.left = ts' ++ rest
  lowered : List.Forall₂ (Lowered lines) ts ts'
  size : t.left.length ≤ rest.length
  /-- the token behind them is the same, or else it may stand where a bracket closed -/
  joins : ∃ b, rest.head? = some b ∧ (Lowered lines t.current b ∨
    t.kind = .closeCurly ∧ after b.kind ∧ ∀ u ∈ ts', u.span.line ≠ b.span.line)

/-- What a reader sees of another stream before it takes anything. -/
structure Agrees (after : TokenKind → Prop) (s s' : Stream) : Prop where
  grammar : s.grammar = .standard ∧ s'.grammar = .standard
  size : s.size ≤ s'.size
  word : s'.current.word = s.current.word ∨ s.kind = .closeCurly ∧ after s'.kind

/-- **Whether the second token stands on the line of the first one** is the same on both streams,
    unless a bracket closes on the one, and another token stands on a later line of the other. -/
def LineAlike (s s' : Stream) : Prop :=
  s'.next.current.word = s.next.current.word ∧
      (s'.next.current.span.line = s'.current.span.line ↔
        s.next.current.span.line = s.current.span.line) ∨
    s.next.kind = .closeCurly ∧ s'.next.current.span.line ≠ s'.current.span.line

/-! ## 2. Runs that can be retraced -/

variable {α β γ δ : Type} {lines fuel n : Nat} {after after' : TokenKind → Prop} {view : α → γ}
  {view' : β → δ} {m m' : Parse α} {f f' : α → Parse β} {s s' : Stream}

/-- **A run of `m` can be retraced** by `m'` on another stream, up to what `view` leaves out. -/
def Retraces (lines : Nat) (after : TokenKind → Prop) (view : α → γ) (m m' : Parse α)
    (s s' : Stream) : Prop :=
  s.Whole → ∀ x t, m s = .ok x t → t.Whole ∧ ∃ ts, Takes ts s t ∧
    ∀ ts' rest, Along lines after ts t ts' rest s' →
      ∃ x' t', m' s' = .ok x' t' ∧ view x' = view x ∧ t'.grammar = .standard ∧ t'.left = rest

theorem forall₂_split {R : α → β → Prop} {xs xs' : List α} {ys : List β}
    (h : List.Forall₂ R (xs ++ xs') ys) :
    ∃ zs zs', ys = zs ++ zs' ∧ List.Forall₂ R xs zs ∧ List.Forall₂ R xs' zs' :=
  ⟨ys.take xs.length, ys.drop xs.length, (List.take_append_drop _ _).symm,
    (List.forall₂_take_append _ _ _ h.flip).flip, (List.forall₂_drop_append _ _ _ h.flip).flip⟩

namespace Along

variable {ts us ts' us' rest : List Token} {t u : Stream}

theorem mono (h : Along lines after ts t ts' rest s') (hp : ∀ k, after k → after' k) :
    Along lines after' ts t ts' rest s' where
  grammar := h.grammar
  left := h.left
  lowered := h.lowered
  size := h.size
  joins := by
    obtain ⟨b, hb, hjoin⟩ := h.joins
    exact ⟨b, hb, hjoin.imp_right fun ⟨hk, ha, hl⟩ => ⟨hk, hp _ ha, hl⟩⟩

/-- What a stream shows to the first of two runs. If the second one takes something, or if it
    does not start at a closing bracket, then what stands between them is the same on both. -/
theorem first (h : Along lines after (ts ++ us) u (ts' ++ us') rest s')
    (hts : List.Forall₂ (Lowered lines) ts ts') (hus : List.Forall₂ (Lowered lines) us us')
    (htakes : Takes us t u) (hp : us ≠ [] ∨ t.kind ≠ .closeCurly ∨ ∀ k, after k → after' k) :
    Along lines after' ts t ts' (us' ++ rest) s' where
  grammar := h.grammar
  left := by rw [h.left, List.append_assoc]
  lowered := hts
  size := by
    rw [htakes.left, List.length_append, List.length_append, hus.length_eq]
    exact Nat.add_le_add_left h.size _
  joins := by
    cases hus with
    | nil =>
      obtain ⟨b, hb, hjoin⟩ := h.joins
      have hp := hp.resolve_left fun hne => hne rfl
      rw [Stream.kind, htakes.current] at hjoin
      refine ⟨b, hb, hjoin.imp_right fun ⟨hk, ha, hl⟩ => ⟨hk, ?_, fun v hv => ?_⟩⟩
      · exact hp.resolve_left (fun hne => hne hk) _ ha
      · exact hl v (List.mem_append_left _ hv)
    | @cons a b as bs hab _ =>
      have hcurrent : t.current = a := (List.cons.inj htakes.left).1
      exact ⟨b, rfl, .inl (hcurrent ▸ hab)⟩

/-- What the stream behind the first of two runs shows to the second one. -/
theorem second {s'' : Stream} (h : Along lines after (ts ++ us) u (ts' ++ us') rest s')
    (hus : List.Forall₂ (Lowered lines) us us') (hg : s''.grammar = .standard)
    (hl : s''.left = us' ++ rest) : Along lines after us u us' rest s'' where
  grammar := hg
  left := hl
  lowered := hus
  size := h.size
  joins := by
    obtain ⟨b, hb, hjoin⟩ := h.joins
    refine ⟨b, hb, hjoin.imp_right fun ⟨hk, ha, hl⟩ => ⟨hk, ha, fun v hv => ?_⟩⟩
    exact hl v (List.mem_append_right _ hv)

/-- A stream shows the first token of a run that takes one. -/
theorem word (h : Along lines after ts t ts' rest s') (htakes : Takes ts s t) (hne : ts ≠ []) :
    s'.current.word = s.current.word := by
  have hleft := h.left
  have htaken := htakes.left
  cases h.lowered with
  | nil => exact absurd rfl hne
  | cons hab _ =>
    rw [(List.cons.inj hleft).1, (List.cons.inj htaken).1]
    exact hab.word

/-- What the stream behind the first token shows. -/
theorem behind (h : Along lines after (s.current :: us) u ts' rest s') :
    Lowered lines s.current s'.current ∧ ∃ us', ts' = s'.current :: us' ∧
      Along lines after us u us' rest s'.next := by
  obtain ⟨o', us', ho, hus, rfl⟩ := List.forall₂_cons_left_iff.mp h.lowered
  have hleft : s'.left = o' :: (us' ++ rest) := h.left
  obtain rfl : s'.current = o' := (List.cons.inj hleft).1
  have hnext : s'.next.left = us' ++ rest := by
    obtain ⟨b, hb, -⟩ := h.joins
    obtain ⟨rest, rfl⟩ := List.head?_eq_some_iff.mp hb
    cases us' with
    | nil => exact Stream.left_next hleft
    | cons v vs => exact Stream.left_next hleft
  have h' : Along lines after ([s.current] ++ us) u ([s'.current] ++ us') rest s' := h
  exact ⟨ho, us', rfl, h'.second hus ((Stream.grammar_next s').trans h.grammar) hnext⟩

/-- **Whether the second token stands on the line of the first one.** -/
theorem line (h : Along lines after (s.current :: us) u ts' rest s')
    (htakes : Takes us s.next u) : LineAlike s s' := by
  obtain ⟨ho, us', rfl, hbehind⟩ := h.behind
  have hl := hbehind.left
  have hsame : Lowered lines s.next.current s'.next.current → LineAlike s s' := fun hc =>
    .inl ⟨hc.word, by rw [hc.line, ho.line, Nat.add_right_cancel_iff]⟩
  cases hbehind.lowered with
  | nil =>
    obtain ⟨b, hb, hjoin⟩ := h.joins
    rw [List.nil_append] at hl
    rw [← hl] at hb
    obtain rfl : s'.next.current = b := Option.some.inj hb
    rw [Stream.kind, htakes.current] at hjoin
    rcases hjoin with hc | ⟨hk, -, hne⟩
    · exact hsame hc
    · exact .inr ⟨hk, (hne _ List.mem_cons_self).symm⟩
  | cons hab _ =>
    refine hsame ?_
    rw [(List.cons.inj hl).1, (List.cons.inj htakes.left).1]
    exact hab

/-- What a reader sees of the stream. -/
theorem agrees (h : Along lines after ts t ts' rest s') (hs : s.Whole) (htakes : Takes ts s t) :
    Agrees after s s' where
  grammar := ⟨hs.grammar, h.grammar⟩
  size := by
    rw [← Stream.length_left, ← Stream.length_left, htakes.left, h.left, List.length_append,
      List.length_append, h.lowered.length_eq]
    exact Nat.add_le_add_left h.size _
  word := by
    by_cases hne : ts = []
    · subst hne
      obtain ⟨b, hb, hjoin⟩ := h.joins
      have hleft := h.left
      rw [List.forall₂_nil_left_iff.mp h.lowered, List.nil_append] at hleft
      rw [← hleft] at hb
      obtain rfl : s'.current = b := Option.some.inj hb
      rw [Stream.kind, htakes.current] at hjoin
      exact hjoin.imp Lowered.word fun ⟨hk, ha, _⟩ => ⟨hk, ha⟩
    · exact .inl (h.word htakes hne)

end Along

namespace Agrees

theorem refl (hs : s.Whole) : Agrees after s s := ⟨⟨hs.grammar, hs.grammar⟩, Nat.le_refl _, .inl rfl⟩

theorem budget (h : Agrees after s s') : s.budget ≤ s'.budget :=
  Nat.mul_le_mul_left 8 (Nat.succ_le_succ h.size)

theorem kind (h : Agrees after s s') :
    s'.kind = s.kind ∨ s.kind = .closeCurly ∧ after s'.kind :=
  h.word.imp_left fun hw => congrArg Word.kind hw

/-- Where nothing else may stand, the next token is the same word. -/
theorem same (h : Agrees (fun _ => False) s s') : s'.current.word = s.current.word :=
  h.word.resolve_right fun h => h.2

end Agrees

theorem failAt_fails (cause : SyntaxCause) (place : Position) (s : Stream) (x : α) (t : Stream) :
    (failAt cause place : Parse α) s ≠ .ok x t := by
  intro h
  cases show EStateM.Result.error _ _ = EStateM.Result.ok x t from h

theorem failHere_fails (cause : SyntaxCause) (s : Stream) (x : α) (t : Stream) :
    (failHere cause : Parse α) s ≠ .ok x t := failAt_fails cause s.place s x t

theorem unexpected_fails (s : Stream) (x : α) (t : Stream) :
    (unexpected : Parse α) s ≠ .ok x t := failHere_fails _ s x t

theorem unexpectedBecause_fails (detail : String) (s : Stream) (x : α) (t : Stream) :
    (unexpectedBecause detail : Parse α) s ≠ .ok x t := failHere_fails _ s x t

namespace Retraces

/-- **A run is retraced.** -/
theorem along {ts ts' rest : List Token} {x : α} {t : Stream}
    (h : Retraces lines after view m m' s s') (hs : s.Whole) (hx : m s = .ok x t)
    (htakes : Takes ts s t) (ha : Along lines after ts t ts' rest s') :
    ∃ x' t', m' s' = .ok x' t' ∧ view x' = view x ∧ t'.grammar = .standard ∧ t'.left = rest := by
  obtain ⟨-, us, htakes', hretrace⟩ := h hs x t hx
  obtain rfl := htakes'.unique htakes
  exact hretrace ts' rest ha

theorem mono (h : Retraces lines after view m m' s s') (hp : ∀ k, after' k → after k) :
    Retraces lines after' view m m' s s' := by
  intro hs x t hx
  obtain ⟨ht, ts, htakes, hretrace⟩ := h hs x t hx
  exact ⟨ht, ts, htakes, fun ts' rest ha => hretrace ts' rest (ha.mono hp)⟩

/-- The same before a token that has to be the same. -/
theorem inner (h : Retraces lines after view m m' s s') :
    Retraces lines (fun _ => False) view m m' s s' := h.mono fun _ => False.elim

/-- A run that fails. -/
theorem fails (h : ∀ x t, m s ≠ .ok x t) : Retraces lines after view m m' s s' :=
  fun _ x t hx => absurd hx (h x t)

/-- A run that fails, whatever would follow. -/
theorem failsThen {m'' : Parse β} (h : ∀ x t, m s ≠ .ok x t) :
    Retraces lines after view' (m >>= f) m'' s s' := by
  refine fails fun y u hy => ?_
  obtain ⟨x, t, hx, -⟩ := bind_eq_ok.mp hy
  exact h x t hx

theorem failAt {cause : SyntaxCause} {place : Position} :
    Retraces lines after view (Parse.failAt cause place) m' s s' :=
  fails (failAt_fails cause place s)

theorem unexpected : Retraces lines after view Parse.unexpected m' s s' :=
  fails (unexpected_fails s)

theorem unexpectedBecause {detail : String} :
    Retraces lines after view (Parse.unexpectedBecause detail) m' s s' :=
  fails (unexpectedBecause_fails detail s)

theorem pure {x x' : α} (h : view x' = view x) :
    Retraces lines after view (Pure.pure x) (Pure.pure x') s s' := by
  rintro hs _ _ ⟨⟩
  refine ⟨hs, [], .nil s, fun ts' rest ha => ⟨x', s', rfl, h, ha.grammar, ?_⟩⟩
  have hleft := ha.left
  cases ha.lowered
  exact hleft

/-- **Two runs, one after the other.** What may follow the second one may follow the first one
    too, unless the second one takes something or does not start at a closing bracket. -/
theorem bindOf (hm : Retraces lines after' view m m' s s')
    (hf : ∀ x x' t t', view x' = view x → Retraces lines after view' (f x) (f' x') t t')
    (hp : ∀ x t y u, t.Whole → f x t = .ok y u → u.left.length < t.left.length ∨
      t.kind ≠ .closeCurly ∨ ∀ k, after k → after' k) :
    Retraces lines after view' (m >>= f) (m' >>= f') s s' := by
  intro hs y u h
  obtain ⟨x, t, hx, hy⟩ := bind_eq_ok.mp h
  obtain ⟨ht, ts, htakes, hretrace⟩ := hm hs x t hx
  obtain ⟨hu, us, htakes', -⟩ := hf x x t t rfl ht y u hy
  have hne : u.left.length < t.left.length → us ≠ [] := by
    rintro hless rfl
    rw [htakes'.left] at hless
    exact Nat.lt_irrefl _ hless
  have hp' := (hp x t y u ht hy).imp_left hne
  refine ⟨hu, ts ++ us, htakes.append htakes', fun both rest ha => ?_⟩
  obtain ⟨ts', us', rfl, hts, hus⟩ := forall₂_split ha.lowered
  obtain ⟨x', t', hx', hview, hg, hl⟩ := hretrace _ _ (ha.first hts hus htakes' hp')
  obtain ⟨y', u', hy', hrest⟩ :=
    (hf x x' t t' hview).along ht hy htakes' (ha.second hus hg hl)
  exact ⟨y', u', bind_eq_ok.mpr ⟨x', t', hx', hy'⟩, hrest⟩

theorem bind (hm : Retraces lines after view m m' s s')
    (hf : ∀ x x' t t', view x' = view x → Retraces lines after view' (f x) (f' x') t t') :
    Retraces lines after view' (m >>= f) (m' >>= f') s s' :=
  hm.bindOf hf fun _ _ _ _ _ _ => .inr (.inr fun _ => id)

theorem map {g g' : α → β} (hm : Retraces lines after view m m' s s')
    (hg : ∀ x x', view x' = view x → view' (g' x') = view' (g x)) :
    Retraces lines after view' (g <$> m) (g' <$> m') s s' := by
  rw [← bind_pure_comp, ← bind_pure_comp]
  exact hm.bind fun x x' _ _ hx => .pure (hg x x' hx)

/-- **A reader that looks at the stream.** -/
theorem look {f f' : Stream → Parse β}
    (h : ∀ s', Agrees after s s' → Retraces lines after view' (f s) (f' s') s s') :
    Retraces lines after view' (get >>= f) (get >>= f') s s' := by
  intro hs y t hy
  obtain ⟨ht, ts, htakes, -⟩ := h s (.refl hs) hs y t hy
  exact ⟨ht, ts, htakes, fun ts' rest ha =>
    (h s' (ha.agrees hs htakes)).along hs hy htakes ha⟩

/-- **One token is taken,** whatever it is. -/
theorem advance (hk : s.kind ≠ .endOfText) (hslash : NoComment s.current s.next.current) :
    Retraces lines after Token.word Parse.advance Parse.advance s s' := by
  rintro hs _ _ ⟨⟩
  obtain ⟨hnext, hleft⟩ := hs.next hk
  refine ⟨hnext, [s.current], ⟨hleft, Stream.previous_next hleft, List.isChain_pair.mpr hslash⟩, fun ts' rest ha => ?_⟩
  have hleft' := ha.left
  obtain ⟨b, hb, -⟩ := ha.joins
  obtain ⟨rest, rfl⟩ := List.head?_eq_some_iff.mp hb
  cases ha.lowered with
  | cons hab hnil =>
    cases hnil
    refine ⟨s'.current, s'.next, rfl, ?_, ?_, Stream.left_next hleft'⟩
    · rw [(List.cons.inj hleft').1]
      exact hab.word
    · rw [Stream.grammar_next]
      exact ha.grammar

theorem freshId : Retraces lines after (fun _ => ()) Parse.freshId Parse.freshId s s' := by
  rintro hs _ _ ⟨⟩
  refine ⟨⟨hs.grammar, hs.finish⟩, [], ⟨rfl, rfl, .singleton _⟩, fun ts' rest ha => ?_⟩
  have hleft := ha.left
  cases ha.lowered
  exact ⟨_, _, rfl, rfl, ha.grammar, hleft⟩

theorem spanFrom {p q : Position} :
    Retraces lines after (fun _ => ()) (Parse.spanFrom p) (Parse.spanFrom q) s s' :=
  look fun _ _ => .pure rfl

theorem finishNode {p q : Position} :
    Retraces lines after (fun _ => ()) (Stackling.finishNode p) (Stackling.finishNode q) s s' :=
  freshId.bind fun _ _ _ _ _ => spanFrom.bind fun _ _ _ _ _ => .pure rfl

theorem discard (hm : Retraces lines after view m m' s s') :
    Retraces lines after (fun _ => ()) (Functor.discard m) (Functor.discard m') s s' :=
  hm.map fun _ _ _ => rfl

/-- The first token is left out. -/
theorem skip {f f' : PUnit → Parse β} (hk : s.kind ≠ .endOfText)
    (hslash : NoComment s.current s.next.current)
    (hf : ∀ t t', Retraces lines after view' (f ⟨⟩) (f' ⟨⟩) t t') :
    Retraces lines after view' (Functor.discard Parse.advance >>= f)
      (Functor.discard Parse.advance >>= f') s s' :=
  (advance hk hslash).discard.bind fun _ _ _ _ _ => hf _ _

/-- A token that neither ends the text nor is a slash. -/
theorem plain {k : TokenKind} (hk : s.kind = k) (hne : k ≠ .endOfText ∧ k ≠ .slash) :
    s.kind ≠ .endOfText ∧ NoComment s.current s.next.current :=
  ⟨hk ▸ hne.1, fun h => absurd (hk.symm.trans h) hne.2⟩

/-- **A token of the kind that is expected.** -/
theorem expectOr {k : TokenKind} (hne : k ≠ .endOfText ∧ k ≠ .slash)
    {otherwise otherwise' : Parse Token} (hfails : ∀ s x t, otherwise s ≠ .ok x t) :
    Retraces lines after Token.word (Parse.expectOr k otherwise) (Parse.expectOr k otherwise')
      s s' := by
  have hrun : ∀ (s : Stream) (otherwise : Parse Token),
      Parse.expectOr k otherwise s = (if s.kind = k then Parse.advance else otherwise) s :=
    fun _ _ => rfl
  intro hs x t hx
  rw [hrun] at hx
  split at hx
  · rename_i hk
    obtain ⟨hend, hslash⟩ := plain hk hne
    obtain ⟨ht, ts, htakes, hretrace⟩ := advance hend hslash hs x t hx
    refine ⟨ht, ts, htakes, fun ts' rest ha => ?_⟩
    have hk' : s'.kind = k := by
      refine (congrArg Word.kind (ha.word htakes ?_)).trans hk
      rintro rfl
      cases hx
      have hleft := congrArg List.length (htakes.left.symm.trans (hs.next hend).2)
      simp at hleft
    rw [hrun, if_pos hk']
    exact hretrace ts' rest ha
  · exact absurd hx (hfails s x t)

/-- What a reader does that expects a token and finds it. -/
theorem expectOr_ok {k : TokenKind} {otherwise : Parse Token} {x : Token} {t : Stream}
    (hfails : ∀ s x t, otherwise s ≠ .ok x t) (h : Parse.expectOr k otherwise s = .ok x t) :
    s.kind = k ∧ t = s.next := by
  have hrun : (if s.kind = k then Parse.advance else otherwise) s = .ok x t := h
  split at hrun
  · rename_i hk
    cases hrun
    exact ⟨hk, rfl⟩
  · exact absurd hrun (hfails s x t)

/-- A token of the kind that is expected, with what follows. -/
theorem token {k : TokenKind} (hne : k ≠ .endOfText ∧ k ≠ .slash) {f f' : Token → Parse β}
    (hf : ∀ x x' t t', Token.word x' = x.word → Retraces lines after view' (f x) (f' x') t t') :
    Retraces lines after view' (expect k >>= f) (expect k >>= f') s s' :=
  (expectOr hne (unexpectedBecause_fails _)).bind hf

/-- **A run before a token that is expected.** Nothing but this token may follow it. -/
theorem beforeOr {k : TokenKind} (hne : k ≠ .endOfText ∧ k ≠ .slash) {f f' : α → Token → Parse β}
    {otherwise otherwise' : Parse Token} (hfails : ∀ s x t, otherwise s ≠ .ok x t)
    (hm : Retraces lines (fun _ => False) view m m' s s')
    (hf : ∀ x x' a a' t t', view x' = view x → Token.word a' = a.word →
      Retraces lines after view' (f x a) (f' x' a') t t') :
    Retraces lines after view' (m >>= fun x => Parse.expectOr k otherwise >>= f x)
      (m' >>= fun x => Parse.expectOr k otherwise' >>= f' x) s s' := by
  refine hm.bindOf (fun x x' t t' hx => (expectOr hne hfails).bind fun a a' u u' ha =>
    hf _ _ _ _ _ _ hx ha) fun x t y u ht hy => .inl ?_
  obtain ⟨a, t₁, ha, hy⟩ := bind_eq_ok.mp hy
  obtain ⟨hk, rfl⟩ := expectOr_ok hfails ha
  obtain ⟨hnext, hleft⟩ := ht.next (plain hk hne).1
  obtain ⟨-, us, htakes, -⟩ := hf x x a a t.next t.next rfl rfl hnext y u hy
  rw [hleft, List.length_cons]
  exact Nat.lt_succ_of_le htakes.length_le

theorem before {k : TokenKind} (hne : k ≠ .endOfText ∧ k ≠ .slash) {f f' : α → Token → Parse β}
    (hm : Retraces lines (fun _ => False) view m m' s s')
    (hf : ∀ x x' a a' t t', view x' = view x → Token.word a' = a.word →
      Retraces lines after view' (f x a) (f' x' a') t t') :
    Retraces lines after view' (m >>= fun x => expect k >>= f x)
      (m' >>= fun x => expect k >>= f' x) s s' :=
  hm.beforeOr hne (unexpectedBecause_fails _) hf

/-- **A token that may stand here.** -/
theorem eat {k : TokenKind} (hne : k ≠ .endOfText ∧ k ≠ .slash) (hcurly : k ≠ .closeCurly)
    (hafter : ¬ after k) : Retraces lines after id (Parse.eat k) (Parse.eat k) s s' := by
  refine look fun s' ha => ?_
  by_cases hk : s.kind = k
  · have hk' : s'.kind = k := by
      rcases ha.kind with hsame | ⟨hclose, -⟩
      · exact hsame.trans hk
      · exact absurd (hk.symm.trans hclose) hcurly
    rw [if_pos hk, if_pos hk']
    obtain ⟨hend, hslash⟩ := plain hk hne
    exact skip hend hslash fun _ _ => .pure rfl
  · have hk' : s'.kind ≠ k := by
      rcases ha.kind with hsame | ⟨-, hother⟩
      · rwa [hsame]
      · rintro rfl
        exact hafter hother
    rw [if_neg hk, if_neg hk']
    exact .pure rfl

/-- **The first token, and a look at the next one,** with the lines of both. -/
theorem openingLook {f f' : Token → Stream → Parse β} (hk : s.kind ≠ .endOfText)
    (hslash : NoComment s.current s.next.current)
    (h : ∀ s' : Stream, Agrees after s.next s'.next → LineAlike s s' → Retraces lines after view'
      (f s.current s.next) (f' s'.current s'.next) s.next s'.next) :
    Retraces lines after view' (Parse.advance >>= fun o => get >>= f o)
      (Parse.advance >>= fun o => get >>= f' o) s s' := by
  intro hs y u hy
  obtain ⟨hnext, hleft⟩ := hs.next hk
  have hrun : f s.current s.next s.next = .ok y u := hy
  obtain ⟨hu, us, htakes, -⟩ := h s (.refl hnext) (.inl ⟨rfl, Iff.rfl⟩) hnext y u hrun
  have hfirst : Takes [s.current] s s.next :=
    ⟨hleft, Stream.previous_next hleft, List.isChain_pair.mpr hslash⟩
  refine ⟨hu, [s.current] ++ us, hfirst.append htakes, fun ts' rest ha => ?_⟩
  obtain ⟨-, us', rfl, hsecond⟩ := ha.behind
  exact (h s' (hsecond.agrees hnext htakes) (ha.line htakes)).along hnext hrun htakes hsecond

end Retraces

/-! ## 3. Annotations and parameters -/

/-- **Phrases with commas between them are read alike,** if each of them is. -/
theorem list_retraces {item : Nat → Parse α} {list : Nat → Parse (List α)} {closing : TokenKind}
    (hlist : ListReader item closing list)
    (hitem : ∀ s s', Retraces lines (fun _ => False) view (item fuel) (item n) s s')
    (hrest : ∀ s s', Retraces lines (fun _ => False) (List.map view) (list fuel) (list n) s s') :
    Retraces lines (fun _ => False) (List.map view) (list (fuel + 1)) (list (n + 1)) s s' := by
  rw [hlist, hlist]
  refine .look fun s' ha => ?_
  have hk : s'.kind = s.kind := congrArg Word.kind ha.same
  rw [hk]
  by_cases hclose : s.kind = closing
  · rw [if_pos hclose, if_pos hclose]
    exact .pure rfl
  · rw [if_neg hclose, if_neg hclose]
    refine (hitem _ _).bind fun x x' _ _ hx => ?_
    refine (Retraces.eat (by decide) (by decide) id).bind fun more more' _ _ hmore => ?_
    obtain rfl : more' = more := hmore
    cases more' with
    | true =>
      refine (hrest _ _).bind fun xs xs' _ _ hxs => .pure ?_
      rw [List.map_cons, List.map_cons, hx, hxs]
    | false => exact .pure (by rw [List.map_singleton, List.map_singleton, hx])

mutual
/-- **A type annotation is read alike,** whatever follows it. -/
theorem type_retraces : (fuel : Nat) → ∀ n ≥ fuel, ∀ s s' : Stream,
    Retraces lines (fun _ => True) id (typeWith fuel) (typeWith n) s s'
  | 0 => fun n _ s s' => by
    rw [typeWith]
    exact .unexpected
  | fuel + 1 => fun n hn s s' => by
    obtain ⟨n, rfl⟩ := Nat.exists_eq_add_one_of_ne_zero (Nat.ne_zero_of_lt hn)
    have hle := Nat.le_of_succ_le_succ hn
    have hinner := fun s s' => (type_retraces fuel n hle s s').inner
    rw [typeWith, typeWith]
    refine .look fun s' ha => ?_
    rcases ha.kind with hk | ⟨hk, -⟩
    · rw [ha.grammar.1, ha.grammar.2, hk]
      cases Grammar.standard.type? s.kind with
      | none => exact .unexpectedBecause
      | some rule =>
        cases rule with
        | named =>
          refine .token (by decide) fun token token' t t' hw => ?_
          have hvalue : token'.value = token.value := congrArg Word.value hw
          rw [hvalue]
          split
          any_goals exact .pure rfl
          · refine .token (by decide) fun _ _ _ _ _ => ?_
            refine .before (by decide) (hinner _ _) fun e e' _ _ _ _ he _ => .pure ?_
            rw [show e' = e from he]
          · refine .token (by decide) fun _ _ _ _ _ => ?_
            refine .before (by decide) (hinner _ _) fun k k' _ _ _ _ hk _ => ?_
            refine .before (by decide) (hinner _ _) fun v v' _ _ _ _ hv _ => .pure ?_
            rw [show k' = k from hk, show v' = v from hv]
          · exact .failAt
        | function =>
          refine .token (by decide) fun _ _ _ _ _ => .token (by decide) fun _ _ _ _ _ => ?_
          refine .before (by decide) (types_retraces fuel n hle _ _) fun ps ps' _ _ _ _ hps _ => ?_
          refine .token (by decide) fun _ _ _ _ _ => ?_
          refine (type_retraces fuel n hle _ _).bind fun r r' _ _ hr => .pure ?_
          rw [List.map_id, List.map_id] at hps
          rw [hps, show r' = r from hr]
    · rw [ha.grammar.1, hk]
      exact .unexpectedBecause

theorem types_retraces : (fuel : Nat) → ∀ n ≥ fuel, ∀ s s' : Stream,
    Retraces lines (fun _ => False) (List.map id) (typesWith fuel) (typesWith n) s s'
  | 0 => fun n _ s s' => by
    rw [typesWith]
    exact .unexpected
  | fuel + 1 => fun n hn s s' => by
    obtain ⟨n, rfl⟩ := Nat.exists_eq_add_one_of_ne_zero (Nat.ne_zero_of_lt hn)
    have hle := Nat.le_of_succ_le_succ hn
    exact list_retraces typesWith_lists
      (fun s s' => (type_retraces fuel n hle s s').inner)
      (types_retraces fuel n hle)
end

/-- A type annotation is read alike with the fuel that there is. -/
theorem readType_retraces : Retraces lines (fun _ => True) id readType readType s s' :=
  .look fun _ ha => type_retraces _ _ ha.budget _ _

theorem readParam_retraces :
    Retraces lines (fun _ => True) Param.bare readParam readParam s s' := by
  unfold readParam
  refine .token (by decide) fun name name' _ _ hname => .token (by decide) fun _ _ _ _ _ => ?_
  refine readType_retraces.bind fun t t' _ _ ht => Retraces.spanFrom.bind fun _ _ _ _ _ => ?_
  refine .pure ?_
  have hvalue : name'.value = name.value := congrArg Word.value hname
  rw [Param.bare, Param.bare, hvalue, show t' = t from ht]

theorem params_retraces (fuel : Nat) : ∀ n ≥ fuel, ∀ s s' : Stream,
    Retraces lines (fun _ => False) (List.map Param.bare) (paramsWith fuel) (paramsWith n) s s' := by
  induction fuel with
  | zero =>
    intro n _ s s'
    rw [paramsWith]
    exact .unexpected
  | succ fuel ih =>
    intro n hn s s'
    obtain ⟨n, rfl⟩ := Nat.exists_eq_add_one_of_ne_zero (Nat.ne_zero_of_lt hn)
    exact list_retraces paramsWith_lists (fun s s' => readParam_retraces.inner)
      (ih n (Nat.le_of_succ_le_succ hn))

/-- **Parameters are read alike.** -/
theorem readParams_retraces :
    Retraces lines (fun _ => True) (List.map Param.bare) readParams readParams s s' := by
  unfold readParams
  refine .token (by decide) fun _ _ _ _ _ => .look fun _ ha => ?_
  exact .before (by decide) (params_retraces _ _ ha.budget _ _) fun _ _ _ _ _ _ h _ => .pure h

end Stackling
