import Stackling.Proofs.Syntax.Retraced

/-
  File:     Stackling/Proofs/Syntax/Endings.lean
  Subject:  How a statement ends, and what may stand behind it.

  An expression ends with a literal, a name or a closing bracket, so a semicolon at the end of a
  statement was taken by the statement and by none of its parts. Behind such a semicolon the
  reader looks at nothing. Without one, a statement that ends in an expression goes on with an
  operator or an opening bracket, on whatever line it stands.

  * `Leaves`, `Shuts`  -- what a reader leaves, and that its last token is no semicolon;
  * `Stmt.endsInExpr`  -- the statements that end in an expression;
  * `MayFollow`        -- the kinds that do not go on with a statement;
  * `stmtWith_follows` -- a statement at the end of a block is read alike before such a token.
-/
namespace Stackling

open Parse

variable {α β : Type} {m : Parse α} {f : α → Parse β} {s t : Stream} {lines fuel n : Nat}

/-! ## 1. The last token of an expression -/

/-- The last token that was read is no semicolon. -/
def Stream.Inside (s : Stream) : Prop := s.previous?.map Token.kind ≠ some .semicolon

/-- A reader that does not read beyond the end of the text. -/
def Remains (m : Parse α) : Prop := ∀ s x t, s.Whole → m s = .ok x t → t.Whole

/-- What a reader gives, and where it leaves the stream. -/
def Leaves (post : α → Stream → Prop) (m : Parse α) : Prop :=
  ∀ s x t, s.Whole → m s = .ok x t → post x t

/-- **A reader whose last token is no semicolon.** -/
def Shuts (m : Parse α) : Prop := Leaves (fun _ t => t.Inside) m

/-- What a reader does that may take a token. -/
theorem eat_eq_ok {k : TokenKind} {found : Bool} : eat k s = .ok found t ↔
    s.kind = k ∧ found = true ∧ t = s.next ∨ s.kind ≠ k ∧ found = false ∧ t = s := by
  have hrun : eat k s =
      .ok (decide (s.kind = k)) (if s.kind = k then s.next else s) := by
    rw [eat]
    show (if s.kind = k then _ else _ : Parse Bool) s = _
    by_cases hk : s.kind = k
    · rw [if_pos hk, if_pos hk, decide_eq_true hk]
      rfl
    · rw [if_neg hk, if_neg hk, decide_eq_false hk]
      rfl
  rw [hrun, EStateM.Result.ok.injEq]
  by_cases hk : s.kind = k
  · simp [hk, eq_comm]
  · simp [hk, eq_comm]

theorem map_eq_ok {g : α → β} {y : β} :
    (g <$> m) s = .ok y t ↔ ∃ x, m s = .ok x t ∧ g x = y := by
  rw [← bind_pure_comp, bind_eq_ok]
  constructor
  · rintro ⟨x, _, hx, ⟨⟩⟩
    exact ⟨x, hx, rfl⟩
  · rintro ⟨x, hx, rfl⟩
    exact ⟨x, t, hx, rfl⟩

theorem discard_bind (m : Parse α) (f : PUnit → Parse β) :
    (discard m >>= f) = (m >>= fun _ => f ⟨⟩) := by
  rw [discard, map_const, Function.comp, bind_map_left]

namespace Remains

theorem of {γ : Type} {after : TokenKind → Prop} {view : α → γ}
    (h : ∀ s s', Retraces 0 after view m m s s') : Remains m :=
  fun s x t hs hx => (h s s hs x t hx).1

theorem advance : Remains advance := by
  rintro s _ _ hs ⟨⟩
  have hfinish := hs.finish
  unfold Stream.next
  cases hf : s.following with
  | nil => exact hs
  | cons t ts =>
    rw [Stream.left, hf, List.getLast?_cons_cons] at hfinish
    exact ⟨hs.grammar, hfinish⟩

theorem pure (x : α) : Remains (Pure.pure x) := by
  rintro s _ _ hs ⟨⟩
  exact hs

theorem skip : Remains (discard Parse.advance) := by
  intro s x t hs h
  cases h
  exact Remains.advance s s.current s.next hs rfl

theorem expectOr {k : TokenKind} (hne : k ≠ .endOfText ∧ k ≠ .slash) {otherwise : Parse Token}
    (hfails : ∀ s x t, otherwise s ≠ .ok x t) : Remains (Parse.expectOr k otherwise) :=
  .of fun s s' => (Retraces.expectOr hne hfails :
    Retraces 0 (fun _ => True) Token.word _ (Parse.expectOr k otherwise) s s')

theorem expect {k : TokenKind} (hne : k ≠ .endOfText ∧ k ≠ .slash) : Remains (Parse.expect k) :=
  expectOr hne (unexpectedBecause_fails _)

theorem eat {k : TokenKind} : Remains (Parse.eat k) := by
  intro s x t hs h
  rcases eat_eq_ok.mp h with ⟨-, -, rfl⟩ | ⟨-, -, rfl⟩
  · exact Remains.advance s s.current s.next hs rfl
  · exact hs

end Remains

theorem Leaves.fails {post : α → Stream → Prop} (h : ∀ s x t, m s ≠ .ok x t) : Leaves post m :=
  fun s x t _ hx => absurd hx (h s x t)

theorem Leaves.bind {post : β → Stream → Prop} (hm : Remains m) (hf : ∀ x, Leaves post (f x)) :
    Leaves post (m >>= f) := by
  intro s y u hs h
  obtain ⟨x, t, hx, hy⟩ := bind_eq_ok.mp h
  exact hf x t y u (hm s x t hs hx) hy

/-- What follows the last token. -/
theorem Shuts.last {post : β → Stream → Prop} (hm : Shuts m)
    (hf : ∀ x s y t, s.Inside → f x s = .ok y t → post y t) : Leaves post (m >>= f) := by
  intro s y u hs h
  obtain ⟨x, t, hx, hy⟩ := bind_eq_ok.mp h
  exact hf x t y u (hm s x t hs hx) hy

theorem Shuts.expect {k : TokenKind} (hne : k ≠ .endOfText) (hk : k ≠ .semicolon) :
    Shuts (expect k) := by
  intro s x t hs h
  obtain ⟨hkind, rfl⟩ := Retraces.expectOr_ok (unexpectedBecause_fails _) h
  have hprevious := Stream.previous_next (hs.next (hkind ▸ hne)).2
  rw [Stream.Inside, hprevious, Option.map_some, ← Stream.kind, hkind]
  exact fun h => hk (Option.some.inj h)

/-- A reader that takes one token, if it does not fail. -/
def TakesOne (m : Parse α) : Prop := ∀ s x t, m s = .ok x t → t = s.next

theorem TakesOne.primary (e : Expr) :
    TakesOne (do let expr ← pure e; discard advance; return expr) := by
  rintro s _ _ ⟨⟩
  rfl

theorem TakesOne.fails (h : ∀ s x t, m s ≠ .ok x t) : TakesOne (m >>= f) := by
  intro s y u hy
  obtain ⟨x, t, hx, -⟩ := bind_eq_ok.mp hy
  exact absurd hx (h s x t)

/-- The token of a literal or a name is the last one that was read. -/
theorem readPrimary_previous {e : Expr} (h : readPrimary s = .ok e t) :
    t.previous? = s.next.previous? := by
  unfold readPrimary at h
  obtain ⟨id, s₁, ⟨⟩, h⟩ := bind_eq_ok.mp h
  obtain ⟨_, _, ⟨⟩, h⟩ := bind_eq_ok.mp h
  have hnext : t = Stream.next { s with nextId := s.nextId + 1 } := by
    refine (?_ : TakesOne _) _ _ _ h
    dsimp only
    split
    · split
      · exact .primary _
      · exact .fails (failHere_fails _)
    · exact .primary _
    · exact .primary _
    · split
      · exact .primary _
      · exact .fails (failHere_fails _)
    · exact .primary _
    · exact .primary _
    · exact .fails unexpected_fails
  rw [hnext]
  unfold Stream.next
  cases hf : s.following <;> rfl

/-- A block ends with a curly bracket. -/
theorem blockWith_shuts (fuel : Nat) : Shuts (blockWith fuel) := by
  cases fuel with
  | zero =>
    rw [blockWith]
    exact .fails unexpected_fails
  | succ fuel =>
    rw [blockWith]
    refine .bind (.expect (by decide)) fun _ => .bind (.of (retraced (Nat.le_refl _)).stmts) ?_
    refine fun _ => Shuts.last (.expect (by decide) (by decide)) ?_
    rintro _ _ _ _ hin ⟨⟩
    exact hin

/-- **The head of an expression ends with no semicolon.** -/
theorem headWith_shuts (fuel : Nat) : Shuts (headWith fuel) := by
  cases fuel with
  | zero =>
    rw [headWith]
    exact .fails unexpected_fails
  | succ fuel =>
    have hr : Retraced 0 fuel fuel := retraced (Nat.le_refl fuel)
    intro s e t hs h
    rw [headWith] at h
    obtain ⟨_, _, ⟨⟩, h⟩ := bind_eq_ok.mp h
    rw [hs.grammar] at h
    cases hrule : Grammar.standard.head? s.kind with
    | none =>
      rw [hrule] at h
      exact absurd h (unexpected_fails s e t)
    | some rule =>
      rw [hrule] at h
      cases rule with
      | primary =>
        have hprevious := Stream.previous_next (hs.next (head_plain hrule).1).2
        rw [Stream.Inside, readPrimary_previous h, hprevious]
        intro hk
        rw [show s.kind = .semicolon from Option.some.inj hk] at hrule
        cases hrule
      | group =>
        refine (?_ : Shuts _) s e t hs h
        refine .bind .skip fun _ => .bind (.of (hr.expr _)) fun _ => ?_
        refine Shuts.last (.expect (by decide) (by decide)) ?_
        rintro _ _ _ _ hin ⟨⟩
        exact hin
      | array =>
        refine (?_ : Shuts _) s e t hs h
        refine .bind .advance fun _ => .bind (.of (hr.items _)) fun _ => ?_
        refine Shuts.last (.expect (by decide) (by decide)) ?_
        rintro _ _ _ _ hin ⟨⟩
        exact hin
      | hash =>
        refine (?_ : Shuts _) s e t hs h
        refine .bind .advance fun _ => .bind (.of hr.entries) fun _ => ?_
        refine Shuts.last (.expect (by decide) (by decide)) ?_
        rintro _ _ _ _ hin ⟨⟩
        exact hin
      | function =>
        refine (?_ : Shuts _) s e t hs h
        refine .bind .advance fun _ => .bind (.of fun _ _ => readParams_retraces) fun _ => ?_
        refine .bind (.expect (by decide)) fun _ => .bind (.of fun _ _ => readType_retraces) ?_
        refine fun _ => (blockWith_shuts fuel).last ?_
        rintro _ _ _ _ hin ⟨⟩
        exact hin

/-- One tail ends with no semicolon, if an expression does not. -/
theorem tailWith_shuts (hr : Retraced 0 fuel fuel) (h : ∀ power, Shuts (exprWith fuel power))
    (left : Expr) (rule : TailRule) : Shuts (tailWith fuel left rule) := by
  cases rule with
  | binary op =>
    refine (h _).last ?_
    rintro _ _ _ _ hin ⟨⟩
    exact hin
  | call =>
    refine .bind (.of (hr.items _)) fun _ => Shuts.last (.expect (by decide) (by decide)) ?_
    rintro _ _ _ _ hin ⟨⟩
    exact hin
  | index =>
    refine .bind (.of (hr.expr _)) fun _ => Shuts.last (.expect (by decide) (by decide)) ?_
    rintro _ _ _ _ hin ⟨⟩
    exact hin

/-- **Expressions end with no semicolon,** and tails do not, if what is before them does not. -/
theorem exprs_shut (fuel : Nat) : (∀ power, Shuts (exprWith fuel power)) ∧
    ∀ power left s e t, s.Whole → s.Inside → tailsWith fuel power left s = .ok e t → t.Inside := by
  induction fuel with
  | zero =>
    refine ⟨fun power => ?_, fun power left s e t _ _ h => ?_⟩
    · rw [exprWith]
      exact .fails unexpected_fails
    · rw [tailsWith] at h
      exact absurd h (unexpected_fails s e t)
  | succ fuel ih =>
    have hr : Retraced 0 fuel fuel := retraced (Nat.le_refl fuel)
    refine ⟨fun power s e t hs h => ?_, fun power left s e t hs hin h => ?_⟩
    · rw [exprWith] at h
      obtain ⟨left, u, hl, h⟩ := bind_eq_ok.mp h
      exact ih.2 power left u e t (Remains.of hr.head s left u hs hl)
        (headWith_shuts fuel s left u hs hl) h
    · rw [tailsWith_succ] at h
      obtain ⟨_, _, ⟨⟩, h⟩ := bind_eq_ok.mp h
      rw [hs.grammar] at h
      cases hrule : Grammar.standard.tail? s.kind with
      | none =>
        rw [hrule] at h
        cases h
        exact hin
      | some rule =>
        rw [hrule] at h
        dsimp only at h
        by_cases hrank : rule.power.rank ≤ power.rank
        · rw [if_pos hrank] at h
          cases h
          exact hin
        rw [if_neg hrank] at h
        obtain ⟨_, u, hu, h⟩ := bind_eq_ok.mp h
        obtain ⟨left', v, hv, h⟩ := bind_eq_ok.mp h
        have hwhole := Remains.skip s ⟨⟩ u hs hu
        have hwhole' := Remains.of (fun s s' => hr.tailWith_retraces rfl rule) u left' v hwhole hv
        exact ih.2 power left' v e t hwhole' (tailWith_shuts hr ih.1 left rule u left' v hwhole hv) h

theorem exprWith_shuts (fuel : Nat) (power : Power) : Shuts (exprWith fuel power) :=
  (exprs_shut fuel).1 power

/-! ## 2. Statements that end in an expression -/

/-- **The statements that end in an expression.** -/
def Stmt.endsInExpr : Stmt → Bool
  | .declare .. | .expr _ | .returns _ (some _) => true
  | .returns _ none | .branch .. | .print .. | .block _ => false

/-- A statement ends in an expression, and its last token is no semicolon. -/
def EndsOpen (x : Stmt) (t : Stream) : Prop := x.endsInExpr = true ∧ t.Inside

theorem declaredWith_ends (fuel : Nat) (opening : Token) (constant : Bool) :
    Leaves EndsOpen (declaredWith fuel opening constant) := by
  rw [declaredWith]
  refine .bind (.expectOr (by decide) (unexpectedBecause_fails _)) fun name => ?_
  refine .bind (.expectOr (by decide) (unexpectedBecause_fails _)) fun _ => ?_
  refine .bind (.of fun _ _ => readType_retraces) fun _ => .bind (.expect (by decide)) fun _ => ?_
  refine (exprWith_shuts fuel .default).last ?_
  rintro _ _ _ _ hin ⟨⟩
  exact ⟨rfl, hin⟩

theorem declarationWith_ends (fuel : Nat) : Leaves EndsOpen (declarationWith fuel) := by
  cases fuel with
  | zero =>
    rw [declarationWith]
    exact .fails unexpected_fails
  | succ fuel =>
    rw [declarationWith_succ]
    refine .bind .advance fun o => .bind ?_ fun c => declaredWith_ends fuel o c
    rw [constantBehind]
    split
    · exact .pure true
    · exact .eat

/-- **A return** ends in its value, or takes one token if no value starts on its line. -/
theorem returnWith_ends {x : Stmt} (hs : s.Whole) (h : returnWith (fuel + 1) s = .ok x t) :
    EndsOpen x t ∨ x.endsInExpr = false ∧ ¬ s.HasValue ∧ t = s.next := by
  rw [returnWith] at h
  obtain ⟨_, _, ⟨⟩, h⟩ := bind_eq_ok.mp h
  obtain ⟨_, _, ⟨⟩, h⟩ := bind_eq_ok.mp h
  dsimp only at h
  by_cases hv : s.next.current.span.line = s.current.span.line ∧
      (s.next.grammar.head? s.next.kind).isSome = true
  · rw [if_pos hv, bind_map_left] at h
    obtain ⟨value, u, hvalue, h⟩ := bind_eq_ok.mp h
    cases h
    exact .inl ⟨rfl, exprWith_shuts fuel .default _ _ _ (Remains.advance s _ _ hs rfl) hvalue⟩
  · rw [if_neg hv, pure_bind] at h
    cases h
    exact .inr ⟨rfl, hv, rfl⟩

theorem returnWith_none (h : ¬ s.HasValue) :
    ∃ span, returnWith (fuel + 1) s = .ok (.returns span none) s.next := by
  refine ⟨⟨s.place, s.next.previousEnd⟩, ?_⟩
  rw [returnWith, bind_eq_ok]
  refine ⟨s.current, s.next, rfl, bind_eq_ok.mpr ⟨s.next, s.next, rfl, ?_⟩⟩
  unfold Stream.HasValue at h
  dsimp only
  rw [if_neg h, pure_bind]
  rfl

theorem branchWith_ends {x : Stmt} (h : branchWith fuel s = .ok x t) : x.endsInExpr = false := by
  cases fuel with
  | zero =>
    rw [branchWith] at h
    exact absurd h (unexpected_fails s x t)
  | succ fuel =>
    rw [branchWith_succ] at h
    obtain ⟨_, _, -, h⟩ := bind_eq_ok.mp h
    obtain ⟨_, _, -, h⟩ := bind_eq_ok.mp h
    obtain ⟨_, _, -, h⟩ := bind_eq_ok.mp h
    obtain ⟨_, _, -, h⟩ := bind_eq_ok.mp h
    cases h
    rfl

theorem printWith_ends {x : Stmt} (h : printWith fuel s = .ok x t) : x.endsInExpr = false := by
  cases fuel with
  | zero =>
    rw [printWith] at h
    exact absurd h (unexpected_fails s x t)
  | succ fuel =>
    rw [printWith] at h
    obtain ⟨_, _, -, h⟩ := bind_eq_ok.mp h
    obtain ⟨_, _, -, h⟩ := bind_eq_ok.mp h
    obtain ⟨_, _, -, h⟩ := bind_eq_ok.mp h
    obtain ⟨_, _, -, h⟩ := bind_eq_ok.mp h
    cases h
    rfl

/-- **How a statement ends:** in an expression, or as a return without a value, or else before
    any token but the word for another case. -/
theorem ruleWith_ends {rule : Option StmtRule} {x : Stmt} (hs : s.Whole)
    (h : ruleWith fuel rule s = .ok x t) :
    EndsOpen x t ∧ (∀ k, EndsExpr k → EndsStmt rule k) ∨
      x.endsInExpr = false ∧ rule = some .returns ∧ ¬ s.HasValue ∧ t = s.next ∨
      x.endsInExpr = false ∧ ∀ k, k ≠ .elseWord → EndsStmt rule k := by
  match rule with
  | none =>
    rw [ruleWith] at h
    obtain ⟨e, he, rfl⟩ := map_eq_ok.mp h
    exact .inl ⟨⟨rfl, exprWith_shuts fuel .default s e t hs he⟩, fun _ hk => hk⟩
  | some .declaration =>
    exact .inl ⟨declarationWith_ends fuel s x t hs h, fun _ hk => hk⟩
  | some .returns =>
    cases fuel with
    | zero =>
      rw [ruleWith, returnWith] at h
      exact absurd h (unexpected_fails s x t)
    | succ fuel =>
      rcases returnWith_ends hs h with hends | ⟨hx, hv, rfl⟩
      · exact .inl ⟨hends, fun _ hk => hk⟩
      · exact .inr (.inl ⟨hx, rfl, hv, rfl⟩)
  | some .block =>
    rw [ruleWith] at h
    obtain ⟨b, -, rfl⟩ := map_eq_ok.mp h
    exact .inr (.inr ⟨rfl, fun _ _ => trivial⟩)
  | some .branch => exact .inr (.inr ⟨branchWith_ends h, fun _ hk => hk⟩)
  | some .print => exact .inr (.inr ⟨printWith_ends h, fun _ _ => trivial⟩)

/-- **A statement, and whether a semicolon was taken** behind it. -/
theorem stmtWith_eq_ok {x : Stmt} : stmtWith (fuel + 1) s = .ok x t ↔
    ∃ u, ruleWith fuel (s.grammar.stmt? s.kind) s = .ok x u ∧
      (u.kind = .semicolon ∧ t = u.next ∨ u.kind ≠ .semicolon ∧ t = u) := by
  have hrun : stmtWith (fuel + 1) s = (ruleWith fuel (s.grammar.stmt? s.kind) >>= fun x =>
      eat .semicolon >>= fun _ => pure x) s := by
    rw [stmtWith_succ]
    show (ruleWith fuel (s.grammar.stmt? s.kind) >>= fun x =>
      discard (eat .semicolon) >>= fun _ => pure x) s = _
    simp only [discard_bind]
  rw [hrun, bind_eq_ok]
  constructor
  · rintro ⟨x, u, hx, h⟩
    obtain ⟨found, v, hfound, ⟨⟩⟩ := bind_eq_ok.mp h
    refine ⟨u, hx, (eat_eq_ok.mp hfound).imp (fun h => ⟨h.1, h.2.2⟩) fun h => ⟨h.1, h.2.2⟩⟩
  · rintro ⟨u, hx, h⟩
    refine ⟨x, u, hx, bind_eq_ok.mpr ⟨decide (u.kind = .semicolon), t, eat_eq_ok.mpr ?_, rfl⟩⟩
    refine h.imp (fun h => ⟨h.1, decide_eq_true h.1, h.2⟩) fun h => ⟨h.1, decide_eq_false h.1, h.2⟩

/-! ## 3. What may stand behind a statement -/

/-- **The kinds that do not go on with a statement:** no semicolon, no word for another case, and
    nothing that goes on with an expression, unless the statement ends with a semicolon or not
    in an expression. -/
def MayFollow (x : Stmt) (last? : Option TokenKind) (k : TokenKind) : Prop :=
  k ≠ .semicolon ∧ k ≠ .elseWord ∧ (x.endsInExpr = true → last? = some .semicolon ∨ EndsExpr k)

/-- A stream that has no other token of a run has what stands behind it. -/
theorem Along.nil {after : TokenKind → Prop} {ts' rest : List Token} {s' : Stream}
    (h : Along lines after [] t ts' rest s') : s'.left = rest := by
  have hleft := h.left
  rwa [List.forall₂_nil_left_iff.mp h.lowered, List.nil_append] at hleft

/-- A return without a value is read alike before any token on a later line. -/
theorem returnWith_follows (hle : fuel ≤ n) (hs : s.Whole) {x : Stmt}
    (hrule : Grammar.standard.stmt? s.kind = some .returns)
    (hx : returnWith fuel s = .ok x s.next) (hvalue : ¬ s.HasValue) {after : TokenKind → Prop}
    {ts ts' rest : List Token} {s' : Stream} (htakes : Takes ts s s.next)
    (ha : Along lines after ts s.next ts' rest s') :
    ∃ x' t', returnWith n s' = .ok x' t' ∧ x'.bare = x.bare ∧ t'.grammar = .standard ∧
      t'.left = rest := by
  have hleft := (hs.next (stmt_plain hrule).1).2
  obtain rfl : ts = [s.current] := List.append_cancel_right (htakes.left.symm.trans hleft)
  have hvalue' : ¬ s'.HasValue := by
    have hg := (Stream.grammar_next s).trans hs.grammar
    have hg' := (Stream.grammar_next s').trans ha.grammar
    rwa [(ha.line (.nil _)).hasValue hg hg']
  cases fuel with
  | zero =>
    rw [returnWith] at hx
    exact absurd hx (unexpected_fails s x s.next)
  | succ fuel =>
    obtain ⟨n, rfl⟩ := Nat.exists_eq_add_one_of_ne_zero (Nat.ne_zero_of_lt hle)
    obtain ⟨span, hrun⟩ := returnWith_none hvalue
    obtain ⟨span', hrun'⟩ := returnWith_none hvalue'
    rw [hrun] at hx
    cases hx
    obtain ⟨-, us', -, hbehind⟩ := ha.behind
    exact ⟨_, s'.next, hrun', rfl, hbehind.grammar, hbehind.nil⟩

/-- A statement without its semicolon is read alike before a token that may follow it. -/
theorem ruleWith_follows (hle : fuel ≤ n) (hs : s.Whole) {x : Stmt} {rule : Option StmtRule}
    (hrule : Grammar.standard.stmt? s.kind = rule) (hx : ruleWith fuel rule s = .ok x t)
    {ts ts' rest : List Token} {s' : Stream} (htakes : Takes ts s t)
    (ha : Along lines (MayFollow x (ts.getLast?.map Token.kind)) ts t ts' rest s') :
    ∃ x' t', ruleWith n rule s' = .ok x' t' ∧ x'.bare = x.bare ∧ t'.grammar = .standard ∧
      t'.left = rest := by
  have hretraces : Retraces lines (EndsStmt rule) Stmt.bare _ _ s s' :=
    (retraced hle).ruleWith_retraces hrule
  rcases ruleWith_ends hs hx with ⟨hopen, hends⟩ | ⟨hshut, rfl, hvalue, rfl⟩ | ⟨hshut, hends⟩
  · refine hretraces.along hs hx htakes (ha.mono fun k hk => hends k ?_)
    refine (hk.2.2 hopen.1).resolve_left fun hlast => hopen.2 ?_
    rw [htakes.previous]
    cases hl : ts.getLast? with
    | none => rw [hl] at hlast; cases hlast
    | some w => rw [hl] at hlast; exact hlast
  · exact returnWith_follows hle hs hrule hx hvalue htakes ha
  · exact hretraces.along hs hx htakes (ha.mono fun k hk => hends k hk.2.1)

/-- **A statement is read alike before a token that may follow it.** -/
theorem stmtWith_follows (hle : fuel ≤ n) (hs : s.Whole) {x : Stmt} (hx : stmtWith fuel s = .ok x t)
    {ts ts' rest : List Token} {s' : Stream} (htakes : Takes ts s t)
    (ha : Along lines (MayFollow x (ts.getLast?.map Token.kind)) ts t ts' rest s') :
    ∃ x' t', stmtWith n s' = .ok x' t' ∧ x'.bare = x.bare ∧ t'.grammar = .standard ∧
      t'.left = rest := by
  obtain ⟨fuel, rfl⟩ : ∃ k, fuel = k + 1 := by
    refine Nat.exists_eq_add_one_of_ne_zero ?_
    rintro rfl
    rw [stmtWith] at hx
    exact unexpected_fails s x t hx
  obtain ⟨n, rfl⟩ := Nat.exists_eq_add_one_of_ne_zero (Nat.ne_zero_of_lt hle)
  have hle := Nat.le_of_succ_le_succ hle
  obtain ⟨u, hu, hend⟩ := stmtWith_eq_ok.mp hx
  rw [hs.grammar] at hu
  have hk : s'.kind = s.kind := by
    refine (ha.agrees hs htakes).kind.resolve_right fun hother => ?_
    rw [hother.1] at hu
    have hexpr : (Stmt.expr <$> exprWith fuel .default) s = .ok x u := hu
    obtain ⟨e, he, -⟩ := map_eq_ok.mp hexpr
    exact exprWith_fails hs.grammar (hother.1 ▸ rfl) fuel .default e u he
  have hrule : s'.grammar.stmt? s'.kind = Grammar.standard.stmt? s.kind := by
    rw [ha.grammar, hk]
  rcases hend with ⟨hsemi, rfl⟩ | ⟨hsemi, rfl⟩
  · -- the semicolon is a token of the run, so that nothing else has to follow the rest of it
    have hretraces : Retraces lines (EndsStmt _) Stmt.bare (ruleWith fuel _) (ruleWith n _) s s' :=
      (retraced hle).ruleWith_retraces rfl
    obtain ⟨hwhole, us, htakesU, -⟩ := hretraces hs x u hu
    obtain ⟨-, hleft⟩ := hwhole.next (by rw [hsemi]; decide)
    have hlast : Takes [u.current] u u.next := by
      refine ⟨hleft, Stream.previous_next hleft, List.isChain_pair.mpr fun hslash => ?_⟩
      exact absurd (hsemi.symm.trans hslash) (by decide)
    obtain rfl := (htakesU.append hlast).unique htakes
    obtain ⟨us', cs', rfl, hus, hcs⟩ := forall₂_split ha.lowered
    obtain ⟨x', u', hx', hbare, hg, hl⟩ := hretraces.along hs hu htakesU
      (ha.first hus hcs hlast (.inl (List.cons_ne_nil _ _)))
    obtain ⟨ho, ds, -, hbehind⟩ := (ha.second hcs hg hl).behind
    have hsemi' : u'.kind = .semicolon := (congrArg Word.kind ho.word).trans hsemi
    exact ⟨x', u'.next, stmtWith_eq_ok.mpr ⟨u', hrule ▸ hx', .inl ⟨hsemi', rfl⟩⟩, hbare,
      hbehind.grammar, hbehind.nil⟩
  · obtain ⟨x', u', hx', hbare, hg, hl⟩ := ruleWith_follows hle hs rfl hu htakes ha
    refine ⟨x', u', stmtWith_eq_ok.mpr ⟨u', hrule ▸ hx', .inr ⟨?_, rfl⟩⟩, hbare, hg, hl⟩
    obtain ⟨b, hb, hjoin⟩ := ha.joins
    rw [← hl] at hb
    obtain rfl : u'.current = b := Option.some.inj hb
    rcases hjoin with hsame | ⟨-, hfollow, -⟩
    · rwa [Stream.kind, show u'.current.kind = t.current.kind from congrArg Word.kind hsame.word]
    · exact hfollow.1

end Stackling
