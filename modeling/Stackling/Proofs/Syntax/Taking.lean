import Stackling.Proofs.Syntax.Endings
import Stackling.Syntax.TopLevel

/-
  File:     Stackling/Proofs/Syntax/Taking.lean
  Subject:  Runs of a reader, and the tokens they take.

  A run of a reader takes some of the tokens before the end of the text and makes something of
  them, or it fails at the place of a token that stands no later than the end. What is said of a
  sequence of readers is said of each of them, behind the tokens that those before it took.

  * `Taken`   -- the tokens of a run;
  * `upToEnd` -- the tokens that a run may look at;
  * `Walks`   -- what a run gives, with a lemma for every way of composing.
-/
namespace Stackling

open Parse

variable {α β γ : Type} {ts us before : List Token} {s t u : Stream}

/-! ## 1. Tokens that are taken -/

/-- The tokens up to the first one that ends the text, with this one. -/
def upToEnd : List Token → List Token
  | [] => []
  | t :: ts => if t.kind = .endOfText then [t] else t :: upToEnd ts

theorem upToEnd_append (h : ∀ a ∈ ts, a.kind ≠ .endOfText) (us : List Token) :
    upToEnd (ts ++ us) = ts ++ upToEnd us := by
  induction ts with
  | nil => rfl
  | cons t ts ih =>
    rw [List.cons_append, upToEnd, if_neg (h t List.mem_cons_self),
      ih fun a ha => h a (List.mem_cons_of_mem _ ha), List.cons_append]

theorem mem_of_mem_upToEnd {a : Token} (h : a ∈ upToEnd ts) : a ∈ ts := by
  induction ts with
  | nil => exact h
  | cons t ts ih =>
    rw [upToEnd] at h
    split at h
    · rw [List.mem_singleton.mp h]
      exact List.mem_cons_self
    · rcases List.mem_cons.mp h with rfl | h
      · exact List.mem_cons_self
      · exact List.mem_cons_of_mem _ (ih h)

theorem Stream.current_mem (s : Stream) : s.current ∈ upToEnd s.left := by
  rw [Stream.left, upToEnd]
  split <;> exact List.mem_cons_self

/-- **A run takes the tokens,** none of which ends the text. -/
structure Taken (ts : List Token) (s t : Stream) : Prop where
  whole : t.Whole
  left : s.left = ts ++ t.left
  inside : ∀ a ∈ ts, a.kind ≠ .endOfText
  previous : t.previous? = ts.getLast?.or s.previous?

namespace Taken

theorem nil (h : s.Whole) : Taken [] s s := ⟨h, rfl, nofun, rfl⟩

theorem append (h : Taken ts s t) (h' : Taken us t u) : Taken (ts ++ us) s u where
  whole := h'.whole
  left := by rw [h.left, h'.left, List.append_assoc]
  inside a ha := (List.mem_append.mp ha).elim (h.inside a) (h'.inside a)
  previous := by rw [h'.previous, h.previous, List.getLast?_append, Option.or_assoc]

/-- One token is taken. -/
theorem next (h : s.Whole) (hk : s.kind ≠ .endOfText) : Taken [s.current] s s.next := by
  obtain ⟨hnext, hleft⟩ := h.next hk
  refine ⟨hnext, hleft, fun a ha => ?_, Stream.previous_next hleft⟩
  rw [List.mem_singleton.mp ha]
  exact hk

/-- What stands up to the end of the text, before and behind the tokens. -/
theorem upToEnd (h : Taken ts s t) : upToEnd s.left = ts ++ upToEnd t.left := by
  rw [h.left, upToEnd_append h.inside]

/-- The first token is the one that the run starts at. -/
theorem head? (h : Taken ts s t) (hne : ts ≠ []) : ts.head? = some s.current := by
  have hhead := congrArg List.head? h.left
  rw [List.head?_append_of_ne_nil _ hne] at hhead
  exact hhead.symm

theorem size (h : Taken ts s t) : s.size = ts.length + t.size := by
  rw [← Stream.length_left, ← Stream.length_left, h.left, List.length_append]

end Taken

/-! ## 2. Runs -/

/-- The last one of the tokens is the one that was read last. -/
def Behind (before : List Token) (s : Stream) : Prop :=
  ∀ l, before.getLast? = some l → s.previous? = some l

/-- **A run of `m` behind the tokens `before`:** what it gives, with all tokens taken so far, or the
    place of one of them, or of one that is ahead, where it fails. -/
def Walks (before : List Token) (m : Parse α) (post : List Token → α → Prop) (s : Stream) : Prop :=
  s.Whole → Behind before s →
    (∀ x t, m s = .ok x t → ∃ ts, Taken ts s t ∧ post (before ++ ts) x) ∧
      ∀ e t, m s = .error e t → ∃ a ∈ before ++ upToEnd s.left, e.place = a.span.start

/-- A reader that takes a token or more. -/
def TakesSome (ts : List Token) (_ : α) : Prop := ts ≠ []

variable {m : Parse α} {f : α → Parse β} {mid : List Token → α → Prop}
  {post : List Token → β → Prop} {k : TokenKind}

/-- A sequence of readers fails if one of them does. -/
theorem Parse.bind_eq_error {e : SyntaxError} : (m >>= f) s = .error e t ↔
    m s = .error e t ∨ ∃ x u, m s = .ok x u ∧ f x u = .error e t := by
  show EStateM.bind m f s = _ ↔ _
  unfold EStateM.bind
  cases m s with
  | ok x u => simp
  | error e' u => simp

/-- What follows a reader whose run is known. -/
theorem Parse.bind_run {x : α} (h : m s = .ok x t) : (m >>= f) s = f x t := by
  show EStateM.bind m f s = _
  rw [EStateM.bind, h]

/-- What follows a reader only depends on what this does on the stream. -/
theorem Parse.bind_of_run {m' : Parse α} (h : m s = m' s) : (m >>= f) s = (m' >>= f) s := by
  show EStateM.bind m f s = EStateM.bind m' f s
  rw [EStateM.bind, EStateM.bind, h]

theorem Behind.append (h : Behind before s) (ht : Taken ts s t) : Behind (before ++ ts) t := by
  intro l hl
  rw [ht.previous]
  cases hlast : ts.getLast? with
  | some l' =>
    rw [List.getLast?_append, hlast] at hl
    exact hl
  | none =>
    rw [List.getLast?_eq_none_iff] at hlast
    rw [hlast, List.append_nil] at hl
    exact h l hl

namespace Walks

theorem pure {x : β} (h : post before x) : Walks before (Pure.pure x) post s := by
  intro hs _
  constructor
  · rintro _ _ ⟨⟩
    exact ⟨[], .nil hs, by rwa [List.append_nil]⟩
  · rintro _ _ ⟨⟩

/-- **Two runs, one after the other.** -/
theorem bind (hm : Walks before m mid s)
    (hf : ∀ ts x t, Taken ts s t → mid (before ++ ts) x → Walks (before ++ ts) (f x) post t) :
    Walks before (m >>= f) post s := by
  intro hs hb
  obtain ⟨hok, herror⟩ := hm hs hb
  refine ⟨fun y u h => ?_, fun e u h => ?_⟩
  · obtain ⟨x, t, hx, hy⟩ := bind_eq_ok.mp h
    obtain ⟨ts, ht, hmid⟩ := hok x t hx
    obtain ⟨us, hu, hpost⟩ := (hf ts x t ht hmid ht.whole (hb.append ht)).1 y u hy
    exact ⟨ts ++ us, ht.append hu, by rwa [← List.append_assoc]⟩
  · rcases bind_eq_error.mp h with h | ⟨x, t, hx, hy⟩
    · exact herror e u h
    · obtain ⟨ts, ht, hmid⟩ := hok x t hx
      obtain ⟨a, ha, hplace⟩ := (hf ts x t ht hmid ht.whole (hb.append ht)).2 e u hy
      rw [List.append_assoc, ← ht.upToEnd] at ha
      exact ⟨a, ha, hplace⟩

/-- What is said of the tokens of one phrase, with other tokens before it. -/
theorem frame (hm : Walks [] m mid s) (before : List Token) :
    Walks before m (fun ts x => ∃ us, ts = before ++ us ∧ mid us x) s := by
  intro hs _
  obtain ⟨hok, herror⟩ := hm hs nofun
  refine ⟨fun x t hx => ?_, fun e t he => ?_⟩
  · obtain ⟨us, ht, hmid⟩ := hok x t hx
    exact ⟨us, ht, us, rfl, hmid⟩
  · obtain ⟨a, ha, hplace⟩ := herror e t he
    exact ⟨a, List.mem_append_right _ ha, hplace⟩

/-- **A phrase behind other tokens,** and what follows it. -/
theorem part (hm : Walks [] m mid s)
    (hf : ∀ us x t, Taken us s t → mid us x → Walks (before ++ us) (f x) post t) :
    Walks before (m >>= f) post s := by
  refine (hm.frame before).bind fun ts x t ht ⟨us, hts, hmid⟩ => ?_
  obtain rfl := List.append_cancel_left hts
  exact hf ts x t ht hmid

theorem mono {post' : List Token → α → Prop} (hm : Walks before m mid s)
    (h : ∀ ts x, mid ts x → post' ts x) : Walks before m post' s := by
  intro hs hb
  obtain ⟨hok, herror⟩ := hm hs hb
  refine ⟨fun x t hx => ?_, herror⟩
  obtain ⟨ts, ht, hmid⟩ := hok x t hx
  exact ⟨ts, ht, h _ _ hmid⟩

theorem map {g : α → β} (hm : Walks before m mid s) (h : ∀ ts x, mid ts x → post ts (g x)) :
    Walks before (g <$> m) post s := by
  rw [← bind_pure_comp]
  exact hm.bind fun _ _ _ _ hmid => .pure (h _ _ hmid)

/-- A reader that looks at the stream. -/
theorem look {f : Stream → Parse β} (h : Walks before (f s) post s) :
    Walks before (get >>= f) post s := h

/-- **What follows a reader whose run is known.** -/
theorem after {x : α} (hrun : m s = .ok x t) (ht : s.Whole → Taken ts s t)
    (hf : Walks (before ++ ts) (f x) post t) : Walks before (m >>= f) post s := by
  intro hs hb
  have htaken := ht hs
  obtain ⟨hok, herror⟩ := hf htaken.whole (hb.append htaken)
  rw [Parse.bind_run hrun]
  refine ⟨fun y u h => ?_, fun e u h => ?_⟩
  · obtain ⟨us, hu, hpost⟩ := hok y u h
    exact ⟨ts ++ us, htaken.append hu, by rwa [← List.append_assoc]⟩
  · obtain ⟨a, ha, hplace⟩ := herror e u h
    rw [List.append_assoc, ← htaken.upToEnd] at ha
    exact ⟨a, ha, hplace⟩

/-- What follows a reader that takes nothing. -/
theorem stay {x : α} (hrun : m s = .ok x t) (ht : s.Whole → Taken [] s t)
    (hf : Walks before (f x) post t) : Walks before (m >>= f) post s := by
  refine after hrun ht ?_
  rwa [List.append_nil]

/-- What follows a reader that fails is not read. -/
theorem stops (hm : Walks before m (fun _ _ => False) s) : Walks before (m >>= f) post s :=
  hm.bind fun _ _ _ _ h => h.elim

/-- What is known of a stream. -/
theorem whole {m : Parse β} (h : s.Whole → Walks before m post s) : Walks before m post s :=
  fun hs => h hs hs

/-- **The token here is taken.** -/
theorem opening {f : Token → Parse β} (hk : s.kind ≠ .endOfText)
    (hf : ∀ t, Taken [s.current] s t → Walks (before ++ [s.current]) (f s.current) post t) :
    Walks before (advance >>= f) post s :=
  whole fun hs => after rfl (.next · hk) (hf s.next (.next hs hk))

theorem skip {f : PUnit → Parse β} (hk : s.kind ≠ .endOfText)
    (hf : ∀ t, Taken [s.current] s t → Walks (before ++ [s.current]) (f ⟨⟩) post t) :
    Walks before (discard advance >>= f) post s := by
  rw [discard_bind]
  exact opening hk hf

/-- A run that fails at a token that was taken, or that is ahead. -/
theorem failAt {cause : SyntaxCause} {place : Position}
    (h : ∃ a ∈ before ++ upToEnd s.left, place = a.span.start) :
    Walks before (failAt cause place : Parse β) post s := by
  refine fun _ _ => ⟨?_, ?_⟩
  · exact fun x t hx => absurd hx (failAt_fails cause place s x t)
  · rintro _ _ ⟨⟩
    exact h

theorem failHere {cause : SyntaxCause} : Walks before (failHere cause : Parse β) post s :=
  look (failAt ⟨s.current, List.mem_append_right _ s.current_mem, rfl⟩)

theorem unexpected : Walks before (unexpected : Parse β) post s := look failHere

theorem unexpectedBecause {detail : String} :
    Walks before (unexpectedBecause detail : Parse β) post s := look failHere

/-- **A token of the kind that is expected.** -/
theorem tokenOr {f : Token → Parse β} {detail : String} (hk : k ≠ .endOfText)
    (hf : ∀ a t, a.kind = k → Walks (before ++ [a]) (f a) post t) :
    Walks before (expectOr k (Parse.unexpectedBecause detail) >>= f) post s := by
  have hrun : expectOr k (Parse.unexpectedBecause detail) s =
      (if s.kind = k then advance else Parse.unexpectedBecause detail) s := rfl
  by_cases hkind : s.kind = k
  · rw [if_pos hkind] at hrun
    exact after hrun (.next · (hkind ▸ hk)) (hf s.current s.next hkind)
  · rw [if_neg hkind] at hrun
    have hfails : Walks before (Parse.unexpectedBecause detail >>= f) post s :=
      stops unexpectedBecause
    unfold Walks
    rwa [Parse.bind_of_run hrun]

theorem token {f : Token → Parse β} (hk : k ≠ .endOfText)
    (hf : ∀ a t, a.kind = k → Walks (before ++ [a]) (f a) post t) :
    Walks before (expect k >>= f) post s := tokenOr hk hf

/-- **A token that may stand here.** -/
theorem eat {f : Bool → Parse β} (hk : k ≠ .endOfText)
    (hyes : ∀ a t, Walks (before ++ [a]) (f true) post t)
    (hno : Walks before (f false) post s) : Walks before (eat k >>= f) post s := by
  by_cases hkind : s.kind = k
  · exact after (eat_eq_ok.mpr (.inl ⟨hkind, rfl, rfl⟩)) (.next · (hkind ▸ hk))
      (hyes s.current s.next)
  · exact stay (eat_eq_ok.mpr (.inr ⟨hkind, rfl, rfl⟩)) .nil hno

theorem freshId {f : Nat → Parse β} (hf : ∀ id t, Walks before (f id) post t) :
    Walks before (freshId >>= f) post s :=
  stay rfl (fun hs => ⟨⟨hs.grammar, hs.finish⟩, rfl, nofun, rfl⟩) (hf _ _)

/-- The stretch up to the last token. -/
theorem span {f : Span → Parse β} {start : Position} (hne : before ≠ [])
    (hf : ∀ l : Token, before.getLast? = some l → Walks before (f ⟨start, l.span.stop⟩) post s) :
    Walks before (spanFrom start >>= f) post s := by
  intro hs hb
  have hl := List.getLast?_eq_some_getLast hne
  have hprevious : s.previousEnd = (before.getLast hne).span.stop := by
    rw [Stream.previousEnd, hb _ hl]
  have hrun : (spanFrom start >>= f) s = f ⟨start, s.previousEnd⟩ s := rfl
  rw [hrun, hprevious]
  exact hf _ hl hs hb

theorem node {f : Node → Parse β} {start : Position} (hne : before ≠ [])
    (hf : ∀ (l : Token) id t, before.getLast? = some l →
      Walks before (f ⟨id, ⟨start, l.span.stop⟩⟩) post t) :
    Walks before (finishNode start >>= f) post s := by
  rw [finishNode, bind_assoc]
  refine freshId fun id t => ?_
  rw [bind_assoc]
  exact span hne fun l hl => hf l id t hl

end Walks

end Stackling
