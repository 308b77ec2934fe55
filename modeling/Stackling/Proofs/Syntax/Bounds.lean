import Stackling.Proofs.Syntax.Together

/-
  File:     Stackling/Proofs/Syntax/Bounds.lean
  Subject:  Reading any list of tokens.

  Tokens that are put together by hand may lack the end token, or have several. Still the reader
  comes to an end: the fuel is never used up, so a reader without it does the same. It does not
  look beyond the first end token either, and every phrase it reads takes a token before that.

  * `Lockstep.same`, `Lockstep.alike` -- a stream beside itself, and beside one that has the same
                                         tokens up to the end;
  * `readExpr_layered`                -- the loop over tails does what the levels of chains do;
  * `parse_bounded`                   -- the reader comes to an end, before the end of the text.
-/
namespace Stackling

open Parse

variable {α : Type} {f : Position → Position} {s s' t : Stream} {tokens : List Token}

/-! ## 1. Streams of any tokens -/

/-- The stream that stands on a later token of a list, with the number of the next expression. -/
def Stream.startAt (tokens : List Token) (position nextId : Nat) : Stream :=
  { next^[position] (ofTokens .standard tokens) with nextId := nextId }

theorem Stream.startAt_whole (tokens : List Token) (position nextId : Nat) :
    (startAt tokens position nextId).Whole := by
  have hnext : (next^[position] (ofTokens .standard tokens)).Whole := by
    induction position with
    | zero => exact (ofTokens_closed tokens).1
    | succ position ih =>
      rw [Function.iterate_succ_apply']
      exact Remains.advance _ _ _ ih rfl
  exact ⟨hnext.grammar, hnext.finish⟩

/-- What a list of tokens is read as is the outcome of the reader. -/
theorem parse_eq_fst (tokens : List Token) :
    parse tokens = (readProgram.outcome (.ofTokens .standard tokens)).1 := by
  rw [parse, Parse.result, EStateM.run, Parse.outcome]
  cases readProgram (.ofTokens .standard tokens) <;> rfl

theorem readProgram_of_ok {p : Program} (h : parse tokens = .ok p) :
    ∃ t, readProgram (.ofTokens .standard tokens) = .ok p t := by
  rw [parse_eq_fst, Parse.outcome] at h
  cases hrun : readProgram (.ofTokens .standard tokens) with
  | ok q t =>
    rw [hrun] at h
    cases h
    exact ⟨t, rfl⟩
  | error e t =>
    rw [hrun] at h
    cases h

/-- **An error stands at the start of a token,** no later than the end of the text. -/
theorem parse_error_place {e : SyntaxError} (h : parse tokens = .error e) :
    ∃ a ∈ upToEnd (Stream.closed tokens), e.place = a.span.start := by
  obtain ⟨hwhole, hleft⟩ := Stream.ofTokens_closed tokens
  rw [parse_eq_fst, Parse.outcome] at h
  cases hrun : readProgram (.ofTokens .standard tokens) with
  | ok p t =>
    rw [hrun] at h
    cases h
  | error e' t =>
    rw [hrun] at h
    cases h
    rw [← hleft]
    exact readProgram_error hwhole hrun

/-! ## 2. A stream beside itself -/

/-- **A stream is in step with itself.** -/
def Lockstep.same : Lockstep id where
  pair s s' := s = s' ∧ s.Whole
  whole := by
    rintro s _ ⟨rfl, hs⟩
    exact ⟨hs, hs⟩
  token := by
    rintro s _ ⟨rfl, -⟩
    rfl
  number := by
    rintro s _ ⟨rfl, -⟩
    rfl
  previousEnd := by
    rintro s _ ⟨rfl, -⟩
    rfl
  line := by
    rintro s _ ⟨rfl, -⟩ - -
    exact Iff.rfl
  next := by
    rintro s _ ⟨rfl, hs⟩ hk
    exact ⟨rfl, (hs.next hk).1⟩
  fresh := by
    rintro s _ ⟨rfl, hs⟩
    exact ⟨rfl, hs.grammar, hs.finish⟩

/-- **A reader that is in step with one that counts** has its outcome. -/
theorem InStep.on_eq {view : α → α} {m : Unbounded α} {m' : Parse α}
    (h : InStep Lockstep.same view m m' s s) (hview : ∀ x, view x = x) (hs : s.Whole) :
    m.on s = some (m'.outcome s) := by
  obtain ⟨hok, herror⟩ := h ⟨rfl, hs⟩
  rw [Parse.outcome]
  cases hm : m' s with
  | ok x' t' =>
    obtain ⟨x, t, hx, hxx, rfl, -⟩ := hok x' t' hm
    rw [hview, hview] at hxx
    rw [hx, hxx]
  | error e' t' =>
    obtain ⟨e, t, he, hee, rfl, -⟩ := herror e' t' hm
    rw [he, show e = e' from hee]

/-- **Reading with a loop over tails is reading with levels of chains,** each of which has the
    operators that `Unbounded.link?` names. Wherever it starts, an expression is the same tree with
    the same numbers and stretches, or fails in the same way at the same place, and the stream
    stands on the same token then. -/
theorem readExpr_layered (tokens : List Token) (position nextId : Nat) (power : Power) :
    (Unbounded.expr .layered power).on (.startAt tokens position nextId) =
      some ((readExpr power).outcome (.startAt tokens position nextId)) := by
  have hstep : InStep Lockstep.same (Expr.moved id) (Unbounded.expr .layered power)
      (readExpr power) (.startAt tokens position nextId) (.startAt tokens position nextId) := by
    refine .lookThere ((marching _ .layered _).expr power _ _ ?_)
    rw [Stream.budget]
    omega
  exact hstep.on_eq Expr.moved_id (Stream.startAt_whole tokens position nextId)

/-! ## 3. Streams that are alike up to the end -/

/-- **The tokens are alike** up to the first one that ends the text: they differ in places only
    that `f` does not tell apart, and behind a `return` the next one stands on its line in both or in
    neither, unless it ends the text. -/
inductive Alike (f : Position → Position) : List Token → List Token → Prop
  | finish {a b : Token} (as bs : List Token) :
    a.moved f = b.moved f → a.kind = .endOfText → Alike f (a :: as) (b :: bs)
  | cons {a b c d : Token} {as bs : List Token} : a.moved f = b.moved f → a.kind ≠ .endOfText →
    (a.kind = .returnWord → c.kind ≠ .endOfText →
      (c.span.line = a.span.line ↔ d.span.line = b.span.line)) →
    Alike f (c :: as) (d :: bs) → Alike f (a :: c :: as) (b :: d :: bs)

theorem Alike.head {a b : Token} {as bs : List Token} (h : Alike f (a :: as) (b :: bs)) :
    a.moved f = b.moved f := by
  cases h <;> assumption

theorem Alike.behind {a b : Token} {as bs : List Token} (h : Alike f (a :: as) (b :: bs))
    (hk : a.kind ≠ .endOfText) : Alike f as bs := by
  cases h with
  | finish _ _ _ hfinish => exact absurd hfinish hk
  | cons _ _ _ h => exact h

/-- The place behind the token that was read. -/
theorem Stream.Whole.previousEnd_next (h : s.Whole) (hk : s.kind ≠ .endOfText) :
    s.next.previousEnd = s.current.span.stop := by
  rw [Stream.previousEnd, Stream.previous_next (h.next hk).2]

theorem Stream.nextId_next (s : Stream) : s.next.nextId = s.nextId := by
  unfold Stream.next
  split <;> rfl

/-- **Streams that are alike up to the end** of the text are in step. -/
def Lockstep.alike (f : Position → Position) : Lockstep f where
  pair s s' := (s.Whole ∧ s'.Whole) ∧ Alike f s.left s'.left ∧ s.nextId = s'.nextId ∧
    f s.previousEnd = f s'.previousEnd
  whole h := h.1
  token h := h.2.1.head
  number h := h.2.2.1
  previousEnd h := h.2.2.2
  line := by
    rintro s s' ⟨⟨hs, hs'⟩, htokens, -, -⟩ hk hnext
    have hend : s.kind ≠ .endOfText := hk ▸ nofun
    have hend' : s'.kind ≠ .endOfText :=
      fun h => hend ((Token.moved_eq htokens.head).1.trans h)
    rw [(hs.next hend).2, (hs'.next hend').2] at htokens
    cases htokens with
    | finish _ _ _ hfinish => exact absurd hfinish hend
    | cons _ _ hline _ => exact hline hk hnext
  next := by
    rintro s s' ⟨⟨hs, hs'⟩, htokens, hid, -⟩ hk
    obtain ⟨hkind, -, hspan⟩ := Token.moved_eq htokens.head
    have hk' : s'.kind ≠ .endOfText := fun h => hk (hkind.trans h)
    obtain ⟨hnext, hleft⟩ := hs.next hk
    obtain ⟨hnext', hleft'⟩ := hs'.next hk'
    rw [hleft, hleft'] at htokens
    refine ⟨⟨hnext, hnext'⟩, htokens.behind hk, ?_, ?_⟩
    · rw [Stream.nextId_next, Stream.nextId_next, hid]
    · rw [hs.previousEnd_next hk, hs'.previousEnd_next hk']
      exact (Span.moved_eq hspan).2
  fresh := by
    rintro s s' ⟨⟨hs, hs'⟩, htokens, hid, hprevious⟩
    exact ⟨⟨⟨hs.grammar, hs.finish⟩, ⟨hs'.grammar, hs'.finish⟩⟩, htokens,
      congrArg (· + 1) hid, hprevious⟩

theorem Stream.previousEnd_ofTokens (tokens : List Token) :
    (ofTokens .standard tokens).previousEnd = (ofTokens .standard tokens).place := by
  unfold ofTokens
  split <;> rfl

theorem Stream.nextId_ofTokens (tokens : List Token) : (ofTokens .standard tokens).nextId = 0 := by
  unfold ofTokens
  split <;> rfl

/-- Streams of tokens that are alike are in step. -/
theorem Lockstep.alike_ofTokens {tokens' : List Token}
    (h : Alike f (Stream.closed tokens) (Stream.closed tokens')) :
    (Lockstep.alike f).pair (.ofTokens .standard tokens) (.ofTokens .standard tokens') := by
  obtain ⟨hwhole, hleft⟩ := Stream.ofTokens_closed tokens
  obtain ⟨hwhole', hleft'⟩ := Stream.ofTokens_closed tokens'
  rw [← hleft, ← hleft'] at h
  refine ⟨⟨hwhole, hwhole'⟩, h, ?_, ?_⟩
  · rw [Stream.nextId_ofTokens, Stream.nextId_ofTokens]
  · rw [Stream.previousEnd_ofTokens, Stream.previousEnd_ofTokens]
    exact (Span.moved_eq (Token.moved_eq h.head).2.2).1

/-- **Reading a whole program comes to an end,** with what the reader that counts gives. -/
theorem program_on (tokens : List Token) :
    ∃ t, (Unbounded.program .climbing).on (.ofTokens .standard tokens) =
      some (parse tokens, t) := by
  have hstep : InStep Lockstep.same (Program.moved id) (Unbounded.program .climbing) readProgram
      (.ofTokens .standard tokens) (.ofTokens .standard tokens) := readProgram_inStep .climbing
  rw [hstep.on_eq Program.moved_id (Stream.ofTokens_closed tokens).1]
  exact ⟨_, congrArg some (Prod.ext (parse_eq_fst tokens).symm rfl)⟩

/-- What was read, with other places. -/
def Parsed.moved (f : Position → Position) : Except SyntaxError Program → Except SyntaxError Program
  | .ok p => .ok (p.moved f)
  | .error e => .error (e.moved f)

theorem Parsed.moved_id (r : Except SyntaxError Program) : Parsed.moved id r = r := by
  cases r with
  | ok p => rw [Parsed.moved, p.moved_id]
  | error e => rfl

/-- **Tokens that are alike up to the end** are read alike. -/
theorem parse_alike {tokens' : List Token}
    (h : Alike f (Stream.closed tokens) (Stream.closed tokens')) :
    Parsed.moved f (parse tokens) = Parsed.moved f (parse tokens') := by
  obtain ⟨hok, herror⟩ := readProgram_inStep .climbing (Lockstep.alike_ofTokens h)
  obtain ⟨t, hon⟩ := program_on tokens
  rw [parse_eq_fst tokens', Parse.outcome]
  cases hrun : readProgram (.ofTokens .standard tokens') with
  | ok p' u' =>
    obtain ⟨p, u, hp, hmoved, -⟩ := hok p' u' hrun
    have hparse : parse tokens = .ok p := congrArg Prod.fst (Option.some.inj (hon.symm.trans hp))
    rw [hparse]
    exact congrArg Except.ok hmoved
  | error e' u' =>
    obtain ⟨e, u, he, hmoved, -⟩ := herror e' u' hrun
    have hparse : parse tokens = .error e :=
      congrArg Prod.fst (Option.some.inj (hon.symm.trans he))
    rw [hparse]
    exact congrArg Except.error hmoved

/-! ## 4. The end of the text -/

/-- The list is closed behind its tokens. -/
theorem Stream.closed_append (before : List Token) (finish : Token) (after : List Token) :
    ∃ rest, closed (before ++ finish :: after) = before ++ finish :: rest := by
  rw [closed]
  split
  · split
    · exact ⟨after, rfl⟩
    · exact ⟨after ++ _, by rw [List.append_assoc, List.cons_append]⟩
  · rename_i hlast
    rw [List.getLast?_eq_none_iff] at hlast
    exact absurd hlast (List.append_ne_nil_of_right_ne_nil _ (List.cons_ne_nil _ _))

/-- Tokens behind the end make no difference. -/
theorem Alike.of_finish {finish : Token} (hk : finish.kind = .endOfText)
    (before as bs : List Token) :
    Alike id (before ++ finish :: as) (before ++ finish :: bs) := by
  induction before with
  | nil => exact .finish as bs rfl hk
  | cons a before ih =>
    by_cases ha : a.kind = .endOfText
    · exact .finish _ _ rfl ha
    · cases before with
      | nil => exact .cons rfl ha (fun _ _ => Iff.rfl) ih
      | cons b before => exact .cons rfl ha (fun _ _ => Iff.rfl) ih

/-- **The reader takes a token or more,** and none that ends the text. -/
def Advances (m : Parse α) (s : Stream) : Prop :=
  ∀ x t, m s = .ok x t →
    ∃ ts, ts ≠ [] ∧ s.left = ts ++ t.left ∧ ∀ a ∈ ts, a.kind ≠ .endOfText

theorem Walks.advances {post : List Token → α → Prop} {m : Parse α} (h : Walks [] m post s)
    (hs : s.Whole) (hne : ∀ ts x, post ts x → ts ≠ []) : Advances m s := by
  intro x t hx
  obtain ⟨ts, htaken, hpost⟩ := (h hs nofun).1 x t hx
  exact ⟨ts, hne ts x hpost, htaken.left, htaken.inside⟩

/-- **Reading comes to an end before the end of the text,** whatever the tokens are. Every phrase
    takes a token or more from those before the first end token, an error stands at a token up to
    it, and what stands behind it makes no difference. -/
theorem parse_bounded (tokens : List Token) :
    (∃ t, (Unbounded.program .climbing).on (.ofTokens .standard tokens) =
      some (parse tokens, t)) ∧
    (∀ position nextId, let s := Stream.startAt tokens position nextId
      Advances readStmt s ∧ Advances readBlock s ∧ Advances readParams s ∧
        (∀ power, Advances (readExpr power) s) ∧ Advances readType s) ∧
    (∀ e, parse tokens = .error e →
      ∃ a ∈ upToEnd (Stream.closed tokens), e.place = a.span.start) ∧
    ∀ before finish after after', tokens = before ++ finish :: after →
      finish.kind = .endOfText → parse (before ++ finish :: after') = parse tokens := by
  refine ⟨program_on tokens, fun position nextId => ?_, fun e => parse_error_place, ?_⟩
  · have hs := Stream.startAt_whole tokens position nextId
    exact ⟨(readStmt_walks _).advances hs fun _ _ h => Laid.ne_nil h,
      (readBlock_walks _).advances hs fun _ _ h => Laid.ne_nil h,
      (readParams_walks _).advances hs fun _ _ h => h.1,
      fun power => (readExpr_walks power _).advances hs fun _ _ h => Laid.ne_nil h,
      (readType_walks _).advances hs fun _ _ h => h⟩
  · rintro before finish after after' rfl hk
    obtain ⟨rest, hrest⟩ := Stream.closed_append before finish after
    obtain ⟨rest', hrest'⟩ := Stream.closed_append before finish after'
    have halike : Alike id (Stream.closed (before ++ finish :: after'))
        (Stream.closed (before ++ finish :: after)) := by
      rw [hrest, hrest']
      exact .of_finish hk before rest' rest
    have hparse := parse_alike halike
    rwa [Parsed.moved_id, Parsed.moved_id] at hparse

/-- A bracket that closes nothing, before the end of the text. -/
def bracketTokens : List Token :=
  [.blank .closeCurly "\x7d", .finish .origin]

/-- Nothing starts with the bracket, and what stands behind the end is not looked at. -/
theorem bracket_bounded :
    (∃ e, parse bracketTokens = .error e ∧
      ∃ a ∈ upToEnd (Stream.closed bracketTokens), e.place = a.span.start) ∧
    parse (bracketTokens ++ [Token.finish .origin]) = parse bracketTokens := by
  obtain ⟨-, -, hplace, hbehind⟩ := parse_bounded bracketTokens
  exact ⟨⟨_, rfl, hplace _ rfl⟩, hbehind [_] _ [] [Token.finish .origin] rfl rfl⟩

end Stackling
