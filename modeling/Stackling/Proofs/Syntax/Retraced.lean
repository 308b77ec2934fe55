import Stackling.Proofs.Syntax.Retracing

/-
  File:     Stackling/Proofs/Syntax/Retraced.lean
  Subject:  Expressions, statements and blocks are read alike.

  The readers nest, so there is one induction on the fuel over all of them. What a reader must
  not meet behind its phrase is what it would go on with: an operator or an opening bracket
  behind an expression, a second block behind a branch, and nothing behind a block.

  * `Retraced`          -- all readers of one fuel, by those of as much or more;
  * `retraced`          -- every run can be retraced.
-/
namespace Stackling

open Parse

variable {α β γ δ : Type} {lines fuel n : Nat} {after after' : TokenKind → Prop} {view : α → γ}
  {view' : β → δ} {m m' : Parse α} {f f' : α → Parse β} {s s' : Stream}

/-! ## 1. Heads and their ends -/

/-- The kinds that do not go on with an expression. -/
def EndsExpr (k : TokenKind) : Prop := Grammar.standard.tail? k = none

/-- The kinds that do not go on with a statement of a rule, apart from a semicolon. -/
def EndsStmt : Option StmtRule → TokenKind → Prop
  | none | some .declaration | some .returns => EndsExpr
  | some .branch => (· ≠ .elseWord)
  | some .block | some .print => fun _ => True

/-- **The readers of one fuel read as those of another,** which may be larger. -/
structure Retraced (lines fuel n : Nat) : Prop where
  expr : ∀ power s s',
    Retraces lines EndsExpr Expr.bare (exprWith fuel power) (exprWith n power) s s'
  head : ∀ s s', Retraces lines (fun _ => True) Expr.bare (headWith fuel) (headWith n) s s'
  tails : ∀ power, ∀ left left' : Expr, left'.bare = left.bare → ∀ s s',
    Retraces lines EndsExpr Expr.bare (tailsWith fuel power left) (tailsWith n power left') s s'
  items : ∀ closing s s', Retraces lines (fun _ => False) (List.map Expr.bare)
    (itemsWith fuel closing) (itemsWith n closing) s s'
  entries : ∀ s s', Retraces lines (fun _ => False) (List.map fun e => (e.1.bare, e.2.bare))
    (entriesWith fuel) (entriesWith n) s s'
  block : ∀ s s', Retraces lines (fun _ => True) Block.bare (blockWith fuel) (blockWith n) s s'
  stmts : ∀ s s', Retraces lines (fun _ => False) (List.map Stmt.bare)
    (stmtsWith fuel) (stmtsWith n) s s'
  stmt : ∀ s s', Retraces lines (fun _ => False) Stmt.bare (stmtWith fuel) (stmtWith n) s s'
  declaration : ∀ s s', Grammar.standard.stmt? s.kind = some .declaration →
    Retraces lines EndsExpr Stmt.bare (declarationWith fuel) (declarationWith n) s s'
  branch : ∀ s s', Grammar.standard.stmt? s.kind = some .branch →
    Retraces lines (· ≠ .elseWord) Stmt.bare (branchWith fuel) (branchWith n) s s'
  returns : ∀ s s', Grammar.standard.stmt? s.kind = some .returns →
    Retraces lines EndsExpr Stmt.bare (returnWith fuel) (returnWith n) s s'
  print : ∀ s s', Grammar.standard.stmt? s.kind = some .print →
    Retraces lines (fun _ => True) Stmt.bare (printWith fuel) (printWith n) s s'

theorem retraced_zero (n : Nat) : Retraced lines 0 n where
  expr power s s' := by
    rw [exprWith]
    exact .unexpected
  head s s' := by
    rw [headWith]
    exact .unexpected
  tails power left left' _ s s' := by
    rw [tailsWith]
    exact .unexpected
  items closing s s' := by
    rw [itemsWith]
    exact .unexpected
  entries s s' := by
    rw [entriesWith]
    exact .unexpected
  block s s' := by
    rw [blockWith]
    exact .unexpected
  stmts s s' := by
    rw [stmtsWith]
    exact .unexpected
  stmt s s' := by
    rw [stmtWith]
    exact .unexpected
  declaration s s' _ := by
    rw [declarationWith]
    exact .unexpected
  branch s s' _ := by
    rw [branchWith]
    exact .unexpected
  returns s s' _ := by
    rw [returnWith]
    exact .unexpected
  print s s' _ := by
    rw [printWith]
    exact .unexpected

/-- The word of a literal or a name is left behind. -/
theorem primary_retraces {k : TokenKind} (hk : s.kind = k) (hne : k ≠ .endOfText ∧ k ≠ .slash)
    {e e' : Expr} (h : e'.bare = e.bare) :
    Retraces lines after Expr.bare (do let expr ← pure e; discard advance; return expr)
      (do let expr ← pure e'; discard advance; return expr) s s' := by
  obtain ⟨hend, hslash⟩ := Retraces.plain hk hne
  rw [pure_bind, pure_bind]
  exact .skip hend hslash fun _ _ => .pure h

/-- **A literal or a name is read alike,** whatever follows it. -/
theorem readPrimary_retraces :
    Retraces lines (fun _ => True) Expr.bare readPrimary readPrimary s s' := by
  unfold readPrimary
  refine Retraces.freshId.bind fun id id' s s' _ => .look fun s' ha => ?_
  dsimp only
  rcases ha.word with hw | ⟨hk, -⟩
  · have hkind : s'.current.kind = s.current.kind := congrArg Word.kind hw
    have hvalue : s'.current.value = s.current.value := congrArg Word.value hw
    rw [hkind, hvalue]
    split
    · rename_i hk
      split
      · exact primary_retraces hk (by decide) rfl
      · exact .failsThen (failHere_fails _ s)
    · rename_i hk
      exact primary_retraces hk (by decide) rfl
    · rename_i hk
      exact primary_retraces hk (by decide) rfl
    · rename_i hk
      split
      · exact primary_retraces hk (by decide) rfl
      · exact .failsThen (failHere_fails _ s)
    · rename_i hk
      exact primary_retraces hk (by decide) rfl
    · rename_i hk
      exact primary_retraces hk (by decide) rfl
    · exact .failsThen (unexpected_fails s)
  · have hkind : s.current.kind = .closeCurly := hk
    rw [hkind]
    exact .failsThen (unexpected_fails s)

/-- An expression starts behind a return, on its line. -/
def Stream.HasValue (s : Stream) : Prop :=
  s.next.current.span.line = s.current.span.line ∧
    (s.next.grammar.head? s.next.kind).isSome = true

theorem LineAlike.hasValue (h : LineAlike s s') (hg : s.next.grammar = .standard)
    (hg' : s'.next.grammar = .standard) : s'.HasValue ↔ s.HasValue := by
  rw [Stream.HasValue, Stream.HasValue, hg, hg']
  rcases h with ⟨hw, hline⟩ | ⟨hk, hne⟩
  · rw [hline, show s'.next.kind = s.next.kind from congrArg Word.kind hw]
  · rw [hk]
    exact ⟨fun h => absurd h.1 hne, fun h => absurd h.2 (by decide)⟩

theorem Stmt.bare_returns (span : Span) (value : Option Expr) :
    (Stmt.returns span value).bare = .returns .blank (value.map Expr.bare) := by
  cases value <;> rw [Stmt.bare] <;> rfl

/-- No construct starts with the end of the text or with a slash. -/
theorem head_plain {k : TokenKind} {rule : HeadRule}
    (h : Grammar.standard.head? k = some rule) : k ≠ .endOfText ∧ k ≠ .slash := by
  constructor <;> rintro rfl <;> cases h

theorem stmt_plain {k : TokenKind} {rule : StmtRule}
    (h : Grammar.standard.stmt? k = some rule) : k ≠ .endOfText ∧ k ≠ .slash := by
  constructor <;> rintro rfl <;> cases h

theorem exprWith_fails (hg : s.grammar = .standard) (hk : Grammar.standard.head? s.kind = none)
    (fuel : Nat) (power : Power) (x : Expr) (t : Stream) : exprWith fuel power s ≠ .ok x t := by
  cases fuel with
  | zero =>
    rw [exprWith]
    exact unexpected_fails s x t
  | succ fuel =>
    rw [exprWith]
    intro h
    obtain ⟨e, u, he, -⟩ := bind_eq_ok.mp h
    cases fuel with
    | zero =>
      rw [headWith] at he
      exact unexpected_fails s e u he
    | succ fuel =>
      rw [headWith] at he
      obtain ⟨_, _, ⟨⟩, he⟩ := bind_eq_ok.mp he
      rw [hg, hk] at he
      exact unexpected_fails s e u he

/-- A block starts with a curly bracket. -/
theorem blockWith_start {b : Block} {t : Stream} (h : blockWith fuel s = .ok b t) :
    s.kind = .openCurly := by
  cases fuel with
  | zero =>
    rw [blockWith] at h
    exact absurd h (unexpected_fails s b t)
  | succ fuel =>
    rw [blockWith] at h
    obtain ⟨a, u, ha, -⟩ := bind_eq_ok.mp h
    exact (Retraces.expectOr_ok (unexpectedBecause_fails _) ha).1

/-- **No comment is opened by an operator** with an expression after it. -/
theorem noComment_of_tail {rule : TailRule} {left x : Expr} {f : Expr → Parse Expr} {t : Stream}
    (hg : s.grammar = .standard) (hrule : Grammar.standard.tail? s.kind = some rule)
    (h : (discard advance >>= fun _ => tailWith fuel left rule >>= f) s = .ok x t) :
    NoComment s.current s.next.current := by
  intro hslash hstar
  have hk : s.kind = .slash := hslash
  rw [hk] at hrule
  obtain rfl : TailRule.binary .div = rule := Option.some.inj hrule
  have hnext : (tailWith fuel left (.binary .div) >>= f) s.next = .ok x t := h
  obtain ⟨e, u, he, -⟩ := bind_eq_ok.mp hnext
  obtain ⟨r, v, hr, -⟩ := bind_eq_ok.mp he
  have hk' : Grammar.standard.head? s.next.kind = none := by
    rw [show s.next.kind = .star from hstar]
    rfl
  exact exprWith_fails ((Stream.grammar_next s).trans hg) hk' fuel _ r v hr

namespace Retraced

theorem exprWith_succ (h : Retraced lines fuel n) (power : Power) :
    Retraces lines EndsExpr Expr.bare (exprWith (fuel + 1) power) (exprWith (n + 1) power)
      s s' := by
  rw [exprWith, exprWith]
  refine Retraces.bind ((h.head _ _).mono fun _ _ => trivial) fun left left' _ _ hl => ?_
  exact h.tails power left left' hl _ _

theorem headWith_succ (h : Retraced lines fuel n) :
    Retraces lines (fun _ => True) Expr.bare (headWith (fuel + 1)) (headWith (n + 1)) s s' := by
  rw [headWith, headWith]
  refine .look fun s' ha => ?_
  rcases ha.kind with hk | ⟨hk, -⟩
  · rw [ha.grammar.1, ha.grammar.2, hk]
    cases hrule : Grammar.standard.head? s.kind with
    | none => exact .unexpected
    | some rule =>
      obtain ⟨hend, hslash⟩ := Retraces.plain rfl (head_plain hrule)
      cases rule with
      | primary => exact readPrimary_retraces
      | group =>
        refine .skip hend hslash fun _ _ => ?_
        refine .before (by decide) (h.expr _ _ _).inner fun e e' _ _ _ _ he _ => .pure he
      | array =>
        refine (Retraces.advance hend hslash).bind fun _ _ _ _ _ => ?_
        refine .before (by decide) (h.items _ _ _) fun xs xs' _ _ _ _ hxs _ => ?_
        refine Retraces.finishNode.bind fun _ _ _ _ _ => .pure ?_
        rw [Expr.bare, Expr.bare, itemsBare_eq_map, itemsBare_eq_map, hxs]
      | hash =>
        refine (Retraces.advance hend hslash).bind fun _ _ _ _ _ => ?_
        refine .before (by decide) (h.entries _ _) fun xs xs' _ _ _ _ hxs _ => ?_
        refine Retraces.finishNode.bind fun _ _ _ _ _ => .pure ?_
        rw [Expr.bare, Expr.bare, entriesBare_eq_map, entriesBare_eq_map, hxs]
      | function =>
        refine (Retraces.advance hend hslash).bind fun _ _ _ _ _ => ?_
        refine readParams_retraces.bind fun ps ps' _ _ hps => .token (by decide) fun _ _ _ _ _ => ?_
        refine readType_retraces.bind fun r r' _ _ hr => (h.block _ _).bind fun b b' _ _ hb => ?_
        refine Retraces.freshId.bind fun _ _ _ _ _ => .pure ?_
        rw [Expr.bare, Expr.bare, hps, show r' = r from hr, hb]
  · rw [ha.grammar.1, hk]
    exact .unexpected

/-- **One tail is read alike,** if the expression before it is. -/
theorem tailWith_retraces (h : Retraced lines fuel n) {left left' : Expr}
    (hl : left'.bare = left.bare) (rule : TailRule) :
    Retraces lines EndsExpr Expr.bare (tailWith fuel left rule) (tailWith n left' rule) s s' := by
  cases rule with
  | binary op =>
    refine (h.expr _ _ _).bind fun r r' _ _ hr => Retraces.freshId.bind fun _ _ _ _ _ => .pure ?_
    rw [Expr.bare, Expr.bare, hl, hr]
  | call =>
    refine .before (by decide) (h.items _ _ _) fun xs xs' _ _ _ _ hxs _ => ?_
    refine Retraces.finishNode.bind fun _ _ _ _ _ => .pure ?_
    rw [Expr.bare, Expr.bare, hl, itemsBare_eq_map, itemsBare_eq_map, hxs]
  | index =>
    refine .before (by decide) (h.expr _ _ _).inner fun k k' _ _ _ _ hk _ => ?_
    refine Retraces.finishNode.bind fun _ _ _ _ _ => .pure ?_
    rw [Expr.bare, Expr.bare, hl, hk]

theorem tailsWith_succ (h : Retraced lines fuel n) (power : Power) {left left' : Expr}
    (hl : left'.bare = left.bare) :
    Retraces lines EndsExpr Expr.bare (tailsWith (fuel + 1) power left)
      (tailsWith (n + 1) power left') s s' := by
  rw [Stackling.tailsWith_succ, Stackling.tailsWith_succ]
  refine .look fun s' ha => ?_
  rcases ha.kind with hk | ⟨hk, hends⟩
  · rw [ha.grammar.1, ha.grammar.2, hk]
    cases hrule : Grammar.standard.tail? s.kind with
    | none => exact .pure hl
    | some rule =>
      dsimp only
      by_cases hrank : rule.power.rank ≤ power.rank
      · rw [if_pos hrank, if_pos hrank]
        exact .pure hl
      rw [if_neg hrank, if_neg hrank]
      by_cases hslash : NoComment s.current s.next.current
      · have hend : s.kind ≠ .endOfText := fun hk => by
          rw [hk] at hrule
          cases hrule
        refine .skip hend hslash fun _ _ => (h.tailWith_retraces hl rule).bind ?_
        exact fun e e' _ _ he => h.tails power e e' he _ _
      · exact .fails fun x t hx => hslash (noComment_of_tail ha.grammar.1 hrule hx)
  · rw [ha.grammar.1, ha.grammar.2, hk, hends]
    exact .pure hl

theorem itemsWith_succ (h : Retraced lines fuel n) (closing : TokenKind) :
    Retraces lines (fun _ => False) (List.map Expr.bare) (itemsWith (fuel + 1) closing)
      (itemsWith (n + 1) closing) s s' :=
  list_retraces (itemsWith_lists closing) (fun _ _ => (h.expr _ _ _).inner) (h.items closing)

theorem entriesWith_succ (h : Retraced lines fuel n) :
    Retraces lines (fun _ => False) (List.map fun e => (e.1.bare, e.2.bare))
      (entriesWith (fuel + 1)) (entriesWith (n + 1)) s s' := by
  refine list_retraces entriesWith_lists (fun _ _ => ?_) h.entries
  refine .before (by decide) (h.expr _ _ _).inner fun k k' _ _ _ _ hk _ => ?_
  refine Retraces.bind (h.expr _ _ _).inner fun v v' _ _ hv => .pure ?_
  rw [hk, hv]

theorem blockWith_succ (h : Retraced lines fuel n) :
    Retraces lines (fun _ => True) Block.bare (blockWith (fuel + 1)) (blockWith (n + 1)) s s' := by
  rw [blockWith, blockWith]
  refine .token (by decide) fun _ _ _ _ _ => ?_
  refine .before (by decide) (h.stmts _ _) fun xs xs' _ _ _ _ hxs _ => ?_
  refine Retraces.spanFrom.bind fun _ _ _ _ _ => .pure ?_
  rw [Block.bare, Block.bare, stmtsBare_eq_map, stmtsBare_eq_map, hxs]

theorem stmtsWith_succ (h : Retraced lines fuel n) :
    Retraces lines (fun _ => False) (List.map Stmt.bare) (stmtsWith (fuel + 1))
      (stmtsWith (n + 1)) s s' := by
  rw [stmtsWith, stmtsWith]
  refine .look fun s' ha => ?_
  have hk : s'.kind = s.kind := congrArg Word.kind ha.same
  rw [hk]
  by_cases hclose : s.kind = .closeCurly
  · rw [if_pos hclose, if_pos hclose]
    exact .pure rfl
  · rw [if_neg hclose, if_neg hclose]
    refine (h.stmt _ _).bind fun x x' _ _ hx => (h.stmts _ _).bind fun xs xs' _ _ hxs => .pure ?_
    rw [List.map_cons, List.map_cons, hx, hxs]

/-- What follows the first word of a declaration, which may be a second word. -/
theorem constant_retraces {o o' : Token} {k : TokenKind} {otherwise : Parse Token}
    {f f' : Bool → Token → Parse β} (hne : k ≠ .endOfText ∧ k ≠ .slash)
    (hfails : ∀ s x t, otherwise s ≠ .ok x t) (ho : o'.word = o.word)
    (hf : ∀ c a a' t t', Token.word a' = a.word →
      Retraces lines after view' (f c a) (f' c a') t t') :
    Retraces lines after view'
      (constantBehind o >>= fun c => expectOr k otherwise >>= f c)
      (constantBehind o' >>= fun c => expectOr k otherwise >>= f' c) s s' := by
  have hk : o'.kind = o.kind := congrArg Word.kind ho
  rw [constantBehind, constantBehind, hk]
  by_cases hconst : o.kind = .constWord
  · rw [if_pos hconst, pure_bind, pure_bind]
    exact (Retraces.expectOr hne hfails).bind fun a a' _ _ ha => hf _ _ _ _ _ ha
  · rw [if_neg hconst]
    refine (Retraces.eat (by decide) (by decide) id).beforeOr hne hfails ?_
    intro c c' a a' _ _ hc ha
    obtain rfl : c' = c := hc
    exact hf _ _ _ _ _ ha

theorem declarationWith_succ (h : Retraced lines fuel n)
    (hs : Grammar.standard.stmt? s.kind = some .declaration) :
    Retraces lines EndsExpr Stmt.bare (declarationWith (fuel + 1)) (declarationWith (n + 1))
      s s' := by
  obtain ⟨hend, hslash⟩ := Retraces.plain rfl (stmt_plain hs)
  rw [Stackling.declarationWith_succ, Stackling.declarationWith_succ]
  refine (Retraces.advance hend hslash).bind fun o o' _ _ ho => ?_
  unfold declaredWith
  refine constant_retraces (by decide) (unexpectedBecause_fails _) ho fun c a a' _ _ ha => ?_
  refine (Retraces.expectOr (by decide) (unexpectedBecause_fails _)).bind fun _ _ _ _ _ => ?_
  refine Retraces.before (by decide) readType_retraces.inner fun w w' _ _ _ _ hw _ => ?_
  refine (h.expr _ _ _).bind fun e e' _ _ he => Retraces.spanFrom.bind fun _ _ _ _ _ => .pure ?_
  have hvalue : a'.value = a.value := congrArg Word.value ha
  rw [Stmt.bare, Stmt.bare, hvalue, show w' = w from hw, he]

/-- A second block is read alike, unless one follows where there was none. -/
theorem otherwiseWith_retraces (h : Retraced lines fuel n) :
    Retraces lines (· ≠ .elseWord) (Option.map Block.bare) (otherwiseWith fuel) (otherwiseWith n)
      s s' := by
  refine (Retraces.eat (by decide) (by decide) fun h => h rfl).bind fun found found' _ _ hf => ?_
  obtain rfl : found' = found := hf
  cases found' with
  | true =>
    refine ((h.block _ _).mono fun _ _ => trivial).map fun b b' hb => ?_
    rw [Option.map_some, Option.map_some, hb]
  | false => exact .pure rfl

theorem branchWith_succ (h : Retraced lines fuel n)
    (hs : Grammar.standard.stmt? s.kind = some .branch) :
    Retraces lines (· ≠ .elseWord) Stmt.bare (branchWith (fuel + 1)) (branchWith (n + 1))
      s s' := by
  obtain ⟨hend, hslash⟩ := Retraces.plain rfl (stmt_plain hs)
  rw [Stackling.branchWith_succ, Stackling.branchWith_succ]
  refine (Retraces.advance hend hslash).bind fun _ _ _ _ _ => ?_
  refine Retraces.bindOf (h.expr _ _ _) (fun e e' _ _ he => ?_) fun e t y u _ hy => ?_
  · refine ((h.block _ _).mono fun _ _ => trivial).bind fun b b' _ _ hb => ?_
    refine h.otherwiseWith_retraces.bind fun o o' _ _ ho => ?_
    refine Retraces.spanFrom.bind fun _ _ _ _ _ => .pure ?_
    rw [Stmt.bare_branch, Stmt.bare_branch, he, hb, ho]
  · obtain ⟨b, v, hb, -⟩ := bind_eq_ok.mp hy
    rw [blockWith_start hb]
    exact .inr (.inl (by decide))

theorem returnWith_succ (h : Retraced lines fuel n)
    (hs : Grammar.standard.stmt? s.kind = some .returns) :
    Retraces lines EndsExpr Stmt.bare (returnWith (fuel + 1)) (returnWith (n + 1)) s s' := by
  obtain ⟨hend, hslash⟩ := Retraces.plain rfl (stmt_plain hs)
  rw [returnWith, returnWith]
  refine .openingLook hend hslash fun s' ha hline => ?_
  have hvalue := hline.hasValue ha.grammar.1 ha.grammar.2
  have hlast : ∀ {v v' : Option Expr} {p p' : Position} {t t'}, v'.map Expr.bare = v.map Expr.bare →
      Retraces lines EndsExpr Stmt.bare (do return .returns (← spanFrom p) v)
        (do return .returns (← spanFrom p') v') t t' := fun hv =>
    Retraces.spanFrom.bind fun _ _ _ _ _ => .pure (by rw [Stmt.bare_returns, Stmt.bare_returns, hv])
  dsimp only
  unfold Stream.HasValue at hvalue
  by_cases hv : s.next.current.span.line = s.current.span.line ∧
      (s.next.grammar.head? s.next.kind).isSome = true
  · rw [if_pos hv, if_pos (hvalue.mpr hv)]
    refine Retraces.bind ((h.expr _ _ _).map fun e e' he => ?_) fun _ _ _ _ hx => hlast hx
    exact congrArg some he
  · rw [if_neg hv, if_neg (fun h => hv (hvalue.mp h)), pure_bind, pure_bind]
    exact hlast rfl

theorem printWith_succ (h : Retraced lines fuel n)
    (hs : Grammar.standard.stmt? s.kind = some .print) :
    Retraces lines (fun _ => True) Stmt.bare (printWith (fuel + 1)) (printWith (n + 1)) s s' := by
  obtain ⟨hend, hslash⟩ := Retraces.plain rfl (stmt_plain hs)
  rw [printWith, printWith]
  refine (Retraces.advance hend hslash).bind fun _ _ _ _ _ => .token (by decide) fun _ _ _ _ _ => ?_
  refine .before (by decide) (h.expr _ _ _).inner fun e e' _ _ _ _ he _ => ?_
  refine Retraces.spanFrom.bind fun _ _ _ _ _ => .pure ?_
  rw [Stmt.bare, Stmt.bare, he]

/-- **A statement without its semicolon is read alike,** if what follows it does not go on
    with it. -/
theorem ruleWith_retraces (h : Retraced lines fuel n) {rule : Option StmtRule}
    (hs : Grammar.standard.stmt? s.kind = rule) :
    Retraces lines (EndsStmt rule) Stmt.bare (ruleWith fuel rule) (ruleWith n rule) s s' := by
  match rule with
  | none =>
    refine (h.expr _ _ _).map fun e e' he => ?_
    rw [Stmt.bare, Stmt.bare, he]
  | some .block =>
    refine (h.block _ _).map fun b b' hb => ?_
    rw [Stmt.bare, Stmt.bare, hb]
  | some .declaration => exact h.declaration _ _ hs
  | some .branch => exact h.branch _ _ hs
  | some .returns => exact h.returns _ _ hs
  | some .print => exact h.print _ _ hs

theorem stmtWith_succ (h : Retraced lines fuel n) :
    Retraces lines (fun _ => False) Stmt.bare (stmtWith (fuel + 1)) (stmtWith (n + 1)) s s' := by
  rw [Stackling.stmtWith_succ, Stackling.stmtWith_succ]
  refine .look fun s' ha => ?_
  have hk : s'.kind = s.kind := congrArg Word.kind ha.same
  rw [ha.grammar.1, ha.grammar.2, hk]
  refine (h.ruleWith_retraces rfl).inner.bind fun x x' _ _ hx => ?_
  exact (Retraces.eat (by decide) (by decide) id).discard.bind fun _ _ _ _ _ => .pure hx

end Retraced

/-- **Every reader reads alike** with as much fuel or more. -/
theorem retraced {fuel n : Nat} (h : fuel ≤ n) : Retraced lines fuel n := by
  induction fuel generalizing n with
  | zero => exact retraced_zero n
  | succ fuel ih =>
    obtain ⟨n, rfl⟩ := Nat.exists_eq_add_one_of_ne_zero (Nat.ne_zero_of_lt h)
    have ih := ih (Nat.le_of_succ_le_succ h)
    exact {
      expr := fun power _ _ => ih.exprWith_succ power
      head := fun _ _ => ih.headWith_succ
      tails := fun power _ _ hl _ _ => ih.tailsWith_succ power hl
      items := fun closing _ _ => ih.itemsWith_succ closing
      entries := fun _ _ => ih.entriesWith_succ
      block := fun _ _ => ih.blockWith_succ
      stmts := fun _ _ => ih.stmtsWith_succ
      stmt := fun _ _ => ih.stmtWith_succ
      declaration := fun _ _ hs => ih.declarationWith_succ hs
      branch := fun _ _ hs => ih.branchWith_succ hs
      returns := fun _ _ hs => ih.returnWith_succ hs
      print := fun _ _ hs => ih.printWith_succ hs }

end Stackling
