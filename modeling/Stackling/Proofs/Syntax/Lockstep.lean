import Stackling.Proofs.Syntax.Moved
import Stackling.Proofs.Syntax.Taking
import Stackling.Proofs.Syntax.Unbounded

/-
  File:     Stackling/Proofs/Syntax/Lockstep.lean
  Subject:  The readers without a bound, beside those that count.

  Two streams are in step if a reader sees the same on both, up to places that a function does not
  tell apart. The readers without a bound then do on the one what those that count do on the other:
  they come to an end, with trees or failures that are the same up to these places. For this the
  fuel has to last; a call that takes a token may nest four more calls, and one that takes none
  calls a reader of a lower rank only.

  * `Lockstep`, `InStep` -- streams and readers in step, with a lemma for every way of composing.
-/
namespace Stackling

open Parse

variable {α β γ δ : Type} {f : Position → Position}

/-! ## 1. Outcomes -/

namespace Unbounded

variable {s t : Stream}

/-- What happens behind a reader that gave something, or failed. -/
noncomputable def onward (g : α → Unbounded β) : Reading α → Option (Reading β)
  | (.ok x, t) => (g x).on t
  | (.error e, t) => some (.error e, t)

/-- **A sequence of readers:** the second one reads on where the first one gave something. -/
theorem on_bind (m : Unbounded α) (g : α → Unbounded β) (s : Stream) :
    (m >>= g).on s = (m.on s).bind (onward g) := by
  rw [on, ExceptT.run_bind, StateT.run_bind, Course.result_bind]
  refine congrArg _ (funext fun r => ?_)
  obtain ⟨x | e, t⟩ := r
  · exact Course.result_ended _
  · rfl

theorem on_bind_ok {m : Unbounded α} {g : α → Unbounded β} {x : α}
    (h : m.on s = some (.ok x, t)) : (m >>= g).on s = (g x).on t := by
  rw [on_bind, h]
  rfl

theorem on_bind_error {m : Unbounded α} {g : α → Unbounded β} {e : SyntaxError}
    (h : m.on s = some (.error e, t)) : (m >>= g).on s = some (.error e, t) := by
  rw [on_bind, h]
  rfl

/-- **What follows a reader** only depends on what this does on the stream. -/
theorem on_bind_congr {m m' : Unbounded α} {g : α → Unbounded β} (h : m.on s = m'.on s) :
    (m >>= g).on s = (m' >>= g).on s := by
  rw [on_bind, on_bind, h]

theorem on_pure (x : α) (s : Stream) : (pure x : Unbounded α).on s = some (.ok x, s) :=
  Course.result_ended _

theorem on_get (g : Stream → Unbounded β) (s : Stream) : (get >>= g).on s = (g s).on s := rfl

/-- A reader that counts comes to an end. -/
theorem on_lift (m : Parse α) (s : Stream) : (liftM m : Unbounded α).on s = some (m.outcome s) :=
  Course.result_ended _

theorem on_lift_ok {m : Parse α} {x : α} (h : m s = .ok x t) :
    (liftM m : Unbounded α).on s = some (.ok x, t) := by
  rw [on_lift, Parse.outcome, h]

theorem on_lift_error {m : Parse α} {e : SyntaxError} (h : m s = .error e t) :
    (liftM m : Unbounded α).on s = some (.error e, t) := by
  rw [on_lift, Parse.outcome, h]

/-- **A call does what its body does.** -/
theorem on_call (c : ReaderCall) (s : Stream) : (call c).on s = (body c).on s :=
  Course.result_call (c, s)

theorem lift_bind (m : Parse α) (g : α → Parse β) :
    (liftM (m >>= g) : Unbounded β) = liftM m >>= fun x => liftM (g x) := by
  refine funext fun s => ?_
  show Course.ended ((m >>= g).outcome s) =
    (liftM m >>= fun x => liftM (g x) : Unbounded β).run.run s
  rw [ExceptT.run_bind, StateT.run_bind]
  show Course.ended _ = Course.ended (m.outcome s) >>= _
  rw [Course.ended_bind, Parse.outcome, Parse.outcome]
  cases hm : m s with
  | ok x t =>
    rw [Parse.bind_run hm]
    rfl
  | error e t =>
    rw [bind_eq_error.mpr (.inl hm)]
    rfl

end Unbounded

/-! ## 2. Streams in step -/

/-- **Two streams are in step** if a reader sees the same on both, now and after each token, up to
    places that `f` does not tell apart. -/
structure Lockstep (f : Position → Position) where
  pair : Stream → Stream → Prop
  whole {s s' : Stream} : pair s s' → s.Whole ∧ s'.Whole
  token {s s' : Stream} : pair s s' → s.current.moved f = s'.current.moved f
  number {s s' : Stream} : pair s s' → s.nextId = s'.nextId
  previousEnd {s s' : Stream} : pair s s' → f s.previousEnd = f s'.previousEnd
  /-- whether the token after a `return` stands on its line, unless the text ends there -/
  line {s s' : Stream} : pair s s' → s.kind = .returnWord → s.next.kind ≠ .endOfText →
    (s.next.current.span.line = s.current.span.line ↔
      s'.next.current.span.line = s'.current.span.line)
  next {s s' : Stream} : pair s s' → s.kind ≠ .endOfText → pair s.next s'.next
  fresh {s s' : Stream} : pair s s' →
    pair { s with nextId := s.nextId + 1 } { s' with nextId := s'.nextId + 1 }

variable {L : Lockstep f} {s s' t t' : Stream} {k : TokenKind}

/-- Before the end of the text, moving on leaves fewer tokens. -/
theorem Stream.Whole.size_lt (h : s.Whole) (hk : s.kind ≠ .endOfText) : s.next.size < s.size := by
  rw [(Taken.next h hk).size]
  exact Nat.lt_add_of_pos_left Nat.one_pos

theorem Token.moved_eq {a b : Token} (h : a.moved f = b.moved f) :
    a.kind = b.kind ∧ a.value = b.value ∧ a.span.moved f = b.span.moved f := by
  injection h with hkind hvalue hspan
  exact ⟨hkind, hvalue, hspan⟩

theorem Span.moved_eq {p q : Span} (h : p.moved f = q.moved f) :
    f p.start = f q.start ∧ f p.stop = f q.stop := by
  injection h with hstart hstop
  exact ⟨hstart, hstop⟩

theorem Lockstep.kind (h : L.pair s s') : s.kind = s'.kind := (Token.moved_eq (L.token h)).1

theorem Lockstep.place (h : L.pair s s') : f s.place = f s'.place :=
  (Span.moved_eq (Token.moved_eq (L.token h)).2.2).1

/-- **`m` does on the one stream what `m'` does on the other:** it comes to an end, with the same
    as far as `view` can see it, or with the same failure, and leaves them in step. -/
def InStep (L : Lockstep f) (view : α → γ) (m : Unbounded α) (m' : Parse α) (s s' : Stream) :
    Prop :=
  L.pair s s' →
    (∀ x' t', m' s' = .ok x' t' →
      ∃ x t, m.on s = some (.ok x, t) ∧ view x = view x' ∧ L.pair t t') ∧
    ∀ e' t', m' s' = .error e' t' →
      ∃ e t, m.on s = some (.error e, t) ∧ e.moved f = e'.moved f ∧ L.pair t t'

variable {view : α → γ} {view' : β → δ} {m : Unbounded α} {m' : Parse α} {g : α → Unbounded β}
  {g' : α → Parse β}

namespace InStep

theorem pure {x x' : β} (h : view' x = view' x') :
    InStep L view' (Pure.pure x) (Pure.pure x') s s' := by
  intro hp
  constructor
  · rintro _ _ ⟨⟩
    exact ⟨x, s, Unbounded.on_pure x s, h, hp⟩
  · rintro _ _ ⟨⟩

/-- **Two readers, one after the other,** with all that the first one did. -/
theorem bindOf {mid : List Token → α → Prop} (hm : InStep L view m m' s s')
    (hw : Walks [] m' mid s')
    (hg : ∀ x x' ts t t', view x = view x' → m' s' = .ok x' t' → Taken ts s' t' → mid ts x' →
      InStep L view' (g x) (g' x') t t') :
    InStep L view' (m >>= g) (m' >>= g') s s' := by
  intro hp
  obtain ⟨hok, herror⟩ := hm hp
  refine ⟨fun y' u' hy => ?_, fun e' u' he => ?_⟩
  · obtain ⟨x', t', hx', hy⟩ := bind_eq_ok.mp hy
    obtain ⟨x, t, hx, hview, hpair⟩ := hok x' t' hx'
    obtain ⟨ts, htaken, hmid⟩ := (hw (L.whole hp).2 nofun).1 x' t' hx'
    rw [Unbounded.on_bind_ok hx]
    exact (hg x x' ts t t' hview hx' htaken hmid hpair).1 y' u' hy
  · rcases bind_eq_error.mp he with he | ⟨x', t', hx', he⟩
    · obtain ⟨e, t, he, hmoved, hpair⟩ := herror e' u' he
      exact ⟨e, t, Unbounded.on_bind_error he, hmoved, hpair⟩
    · obtain ⟨x, t, hx, hview, hpair⟩ := hok x' t' hx'
      obtain ⟨ts, htaken, hmid⟩ := (hw (L.whole hp).2 nofun).1 x' t' hx'
      rw [Unbounded.on_bind_ok hx]
      exact (hg x x' ts t t' hview hx' htaken hmid hpair).2 e' u' he

/-- A reader that may take nothing, and another one behind it. -/
theorem bind {mid : List Token → α → Prop} (hm : InStep L view m m' s s')
    (hw : ∀ s, Walks [] m' mid s)
    (hg : ∀ x x' t t', view x = view x' → t'.size ≤ s'.size →
      InStep L view' (g x) (g' x') t t') :
    InStep L view' (m >>= g) (m' >>= g') s s' := by
  refine hm.bindOf (hw s') fun x x' ts t t' hview _ htaken _ => hg x x' t t' hview ?_
  rw [htaken.size]
  exact Nat.le_add_left _ _

/-- **A reader that takes a token or more,** and another one behind it. -/
theorem part (hm : InStep L view m m' s s') (hw : ∀ s, Walks [] m' TakesSome s)
    (hg : ∀ x x' t t', view x = view x' → t'.size < s'.size →
      InStep L view' (g x) (g' x') t t') :
    InStep L view' (m >>= g) (m' >>= g') s s' := by
  refine hm.bindOf (hw s') fun x x' ts t t' hview _ htaken hne => hg x x' t t' hview ?_
  rw [htaken.size]
  exact Nat.lt_add_of_pos_left (List.length_pos_iff.mpr hne)

theorem map {h : α → β} (hm : InStep L view m m' s s')
    (hview : ∀ x x', view x = view x' → view' (h x) = view' (h x'))
    {mid : List Token → α → Prop} (hw : ∀ s, Walks [] m' mid s) :
    InStep L view' (h <$> m) (h <$> m') s s' := by
  rw [← bind_pure_comp, ← bind_pure_comp]
  exact hm.bind hw fun x x' _ _ hx _ => .pure (hview x x' hx)

/-- A reader that ends as another one does on the stream. -/
theorem of_on {m₁ : Unbounded α} (h : m.on s = m₁.on s) (hm : InStep L view m₁ m' s s') :
    InStep L view m m' s s' := by
  unfold InStep
  rwa [h]

/-- A call is in step if its body is. -/
theorem called (c : ReaderCall) {view : c.Tree → γ} {m' : Parse c.Tree}
    (h : InStep L view (Unbounded.body c) m' s s') : InStep L view (Unbounded.call c) m' s s' :=
  of_on (Unbounded.on_call c s) h

/-- What is known of the streams. -/
theorem known (h : L.pair s s' → InStep L view m m' s s') : InStep L view m m' s s' :=
  fun hp => h hp hp

/-- A reader that looks at the stream. -/
theorem look {g : Stream → Unbounded β} {g' : Stream → Parse β}
    (h : InStep L view' (g s) (g' s') s s') : InStep L view' (get >>= g) (get >>= g') s s' := h

/-- Only the reader that counts looks at the stream. -/
theorem lookThere {g' : Stream → Parse β} {m : Unbounded β} (h : InStep L view' m (g' s') s s') :
    InStep L view' m (get >>= g') s s' := h

/-- Both readers count, and look at the stream. -/
theorem lookBoth {g g' : Stream → Parse β} (h : InStep L view' (liftM (g s)) (g' s') s s') :
    InStep L view' (liftM (get >>= g)) (get >>= g') s s' := h

/-- What follows two readers whose runs are known. -/
theorem after {m₁ m₁' : Parse α} {x x' : α} (hm : m₁ s = .ok x t) (hm' : m₁' s' = .ok x' t')
    (hp : L.pair s s' → L.pair t t') (hg : InStep L view' (g x) (g' x') t t') :
    InStep L view' (liftM m₁ >>= g) (m₁' >>= g') s s' := by
  unfold InStep
  rw [Unbounded.on_bind_ok (Unbounded.on_lift_ok hm), Parse.bind_run hm']
  exact fun h => hg (hp h)

/-- **The token here,** and what stands behind it. -/
theorem opening {g : Token → Unbounded β} {g' : Token → Parse β} (hk : s'.kind ≠ .endOfText)
    (hg : s.current.moved f = s'.current.moved f → s'.next.size < s'.size →
      InStep L view' (g s.current) (g' s'.current) s.next s'.next) :
    InStep L view' (liftM advance >>= g) (advance >>= g') s s' := by
  refine known fun hp => after rfl rfl ?_ (hg (L.token hp) ?_)
  · exact fun hp => L.next hp ((Lockstep.kind hp).trans_ne hk)
  · exact (L.whole hp).2.size_lt hk

theorem skip {g : Token → Unbounded β} {g' : PUnit → Parse β} (hk : s'.kind ≠ .endOfText)
    (hg : s'.next.size < s'.size → InStep L view' (g s.current) (g' ⟨⟩) s.next s'.next) :
    InStep L view' (liftM advance >>= g) (discard advance >>= g') s s' := by
  rw [discard_bind]
  exact opening hk fun _ => hg

theorem failAt {cause : SyntaxCause} {place place' : Position} (h : f place = f place') :
    InStep L view' (liftM (failAt cause place : Parse β)) (failAt cause place') s s' := by
  intro hp
  constructor
  · exact fun x t hx => absurd hx (failAt_fails cause place' s' x t)
  · rintro _ _ ⟨⟩
    refine ⟨⟨cause, place⟩, s, Unbounded.on_lift_error rfl, ?_, hp⟩
    rw [SyntaxError.moved, SyntaxError.moved, h]

theorem failHere {cause : SyntaxCause} :
    InStep L view' (liftM (failHere cause : Parse β)) (failHere cause) s s' :=
  known fun hp => failAt (Lockstep.place hp)

theorem unexpected : InStep L view' (liftM (unexpected : Parse β)) unexpected s s' := by
  refine known fun hp => ?_
  have hfails : InStep L view' (liftM (Parse.failHere (.unexpected s'.current.value) : Parse β))
      (Parse.failHere (.unexpected s'.current.value)) s s' := failHere
  refine of_on ?_ hfails
  rw [Unbounded.on_lift, Unbounded.on_lift, ← (Token.moved_eq (L.token hp)).2.1]
  rfl

theorem unexpectedBecause {detail : String} : InStep L view'
    (liftM (unexpectedBecause detail : Parse β)) (unexpectedBecause detail) s s' := by
  refine known fun hp => ?_
  have hfails : InStep L view'
      (liftM (Parse.failHere (.unexpectedBecause s'.current.value detail) : Parse β))
      (Parse.failHere (.unexpectedBecause s'.current.value detail)) s s' := failHere
  refine of_on ?_ hfails
  rw [Unbounded.on_lift, Unbounded.on_lift, ← (Token.moved_eq (L.token hp)).2.1]
  rfl

/-- What follows readers that fail is not read. -/
theorem stops (hm : ∀ s x t, m' s ≠ .ok x t) (hfails : InStep L id m m' s s') :
    InStep L view' (m >>= g) (m' >>= g') s s' := by
  intro hp
  refine ⟨fun y' u' hy => ?_, fun e' u' he => ?_⟩
  · obtain ⟨x', t', hx', -⟩ := bind_eq_ok.mp hy
    exact absurd hx' (hm s' x' t')
  · rcases bind_eq_error.mp he with he | ⟨x', t', hx', -⟩
    · obtain ⟨e, t, he, hrest⟩ := (hfails hp).2 e' u' he
      exact ⟨e, t, Unbounded.on_bind_error he, hrest⟩
    · exact absurd hx' (hm s' x' t')

/-- A reader that does on the streams what another one does. -/
theorem replace {m₁ m₂ m₁' m₂' : Parse α} (hm : m₁ s = m₂ s) (hm' : m₁' s' = m₂' s')
    (h : InStep L view' (liftM m₂ >>= g) (m₂' >>= g') s s') :
    InStep L view' (liftM m₁ >>= g) (m₁' >>= g') s s' := by
  have hon : (liftM m₁ : Unbounded α).on s = (liftM m₂ : Unbounded α).on s := by
    rw [Unbounded.on_lift, Unbounded.on_lift, Parse.outcome, Parse.outcome, hm]
  unfold InStep
  rw [Parse.bind_of_run hm', Unbounded.on_bind_congr hon]
  exact h

/-- **A token of the kind that is expected.** -/
theorem tokenOr {g : Token → Unbounded β} {g' : Token → Parse β} {detail : String}
    (hk : k ≠ .endOfText)
    (hg : ∀ a a' t t', a.moved f = a'.moved f → t'.size < s'.size →
      InStep L view' (g a) (g' a') t t') :
    InStep L view' (liftM (expectOr k (Parse.unexpectedBecause detail)) >>= g)
      (expectOr k (Parse.unexpectedBecause detail) >>= g') s s' := by
  have hrun : ∀ s : Stream, expectOr k (Parse.unexpectedBecause detail) s =
      (if s.kind = k then advance else Parse.unexpectedBecause detail) s := fun _ => rfl
  refine known fun hp => replace (hrun s) (hrun s') ?_
  rw [Lockstep.kind hp]
  by_cases hhere : s'.kind = k
  · rw [if_pos hhere]
    exact opening (hhere ▸ hk) fun ha hsize => hg _ _ _ _ ha hsize
  · rw [if_neg hhere]
    exact stops (unexpectedBecause_fails detail) unexpectedBecause

theorem token {g : Token → Unbounded β} {g' : Token → Parse β} (hk : k ≠ .endOfText)
    (hg : ∀ a a' t t', a.moved f = a'.moved f → t'.size < s'.size →
      InStep L view' (g a) (g' a') t t') :
    InStep L view' (liftM (expect k) >>= g) (expect k >>= g') s s' := tokenOr hk hg

/-- **A token that may stand here.** -/
theorem eat {g : Bool → Unbounded β} {g' : Bool → Parse β} (hk : k ≠ .endOfText)
    (hyes : s'.next.size < s'.size → InStep L view' (g true) (g' true) s.next s'.next)
    (hno : InStep L view' (g false) (g' false) s s') :
    InStep L view' (liftM (eat k) >>= g) (eat k >>= g') s s' := by
  refine known fun hp => ?_
  have hkind := Lockstep.kind hp
  by_cases hhere : s'.kind = k
  · have hend : s'.kind ≠ .endOfText := hhere ▸ hk
    refine after (eat_eq_ok.mpr (.inl ⟨hkind.trans hhere, rfl, rfl⟩))
      (eat_eq_ok.mpr (.inl ⟨hhere, rfl, rfl⟩)) (fun hp => L.next hp (hkind.trans_ne hend)) ?_
    exact hyes ((L.whole hp).2.size_lt hend)
  · exact after (eat_eq_ok.mpr (.inr ⟨hkind.trans_ne hhere, rfl, rfl⟩))
      (eat_eq_ok.mpr (.inr ⟨hhere, rfl, rfl⟩)) id hno

theorem freshId {g : Nat → Unbounded β} {g' : Nat → Parse β}
    (hg : ∀ id t t', t'.size ≤ s'.size → InStep L view' (g id) (g' id) t t') :
    InStep L view' (liftM freshId >>= g) (freshId >>= g') s s' := by
  refine known fun hp => after rfl rfl L.fresh ?_
  rw [L.number hp]
  exact hg _ _ _ (Nat.le_refl _)

/-- The stretch up to the last token. -/
theorem span {g : Span → Unbounded β} {g' : Span → Parse β} {start start' : Position}
    (hstart : f start = f start')
    (hg : ∀ p p' : Span, p.moved f = p'.moved f → InStep L view' (g p) (g' p') s s') :
    InStep L view' (liftM (spanFrom start) >>= g) (spanFrom start' >>= g') s s' := by
  refine known fun hp => after rfl rfl id (hg ⟨start, s.previousEnd⟩ ⟨start', s'.previousEnd⟩ ?_)
  rw [Span.moved, Span.moved, hstart, L.previousEnd hp]

/-- The number and the stretch of an expression. -/
theorem node {g : Node → Unbounded β} {g' : Node → Parse β} {start start' : Position}
    (hstart : f start = f start')
    (hg : ∀ (n n' : Node) t t', n.moved f = n'.moved f → t'.size ≤ s'.size →
      InStep L view' (g n) (g' n') t t') :
    InStep L view' (liftM (finishNode start) >>= g) (finishNode start' >>= g') s s' := by
  refine known fun hp => after rfl rfl L.fresh (hg ⟨s.nextId, ⟨start, s.previousEnd⟩⟩
    ⟨s'.nextId, ⟨start', s'.previousEnd⟩⟩ _ _ ?_ (Nat.le_refl _))
  rw [Node.moved, Node.moved, Span.moved, Span.moved, L.number hp, hstart, L.previousEnd hp]

end InStep

end Stackling
