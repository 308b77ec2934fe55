import Stackling.Proofs.Syntax.Layers
import Stackling.Proofs.Syntax.Walking

/-
  File:     Stackling/Proofs/Syntax/Together.lean
  Subject:  All readers beside those without a bound.

  One induction on the fuel goes over all readers at once. Each of them does the same things in the
  same order as the one without a bound, so its step is composed of the lemmas on reading in step.
  The exception are the tails of an expression: the loop over them is compared with all tails from
  the tightest power on, and behind each tail the chains that are over need not be tried again.

  * `Marching`, `marching`                 -- all readers of one fuel, and of any;
  * `Marching.tailsWith_succ`              -- the loop over tails beside the chains;
  * `itemsOf_inStep`, `readProgram_inStep` -- what stands at top level, and a whole program.
-/
namespace Stackling

open Parse

variable {α γ : Type} {f : Position → Position} {L : Lockstep f} {s s' : Stream}

/-! ## 1. Annotations and parameters -/

/-- **Phrases with commas between them,** if each of them is read in step. -/
theorem list_inStep {view : α → γ} {fuel : Nat} {item : Nat → Parse α}
    {list : Nat → Parse (List α)} {item₁ : Unbounded α} {list₁ : Unbounded (List α)}
    {closing : TokenKind} (hlist : ListReader item closing list)
    (hlist₁ : ∀ s, list₁.on s = (do
      if (← get).kind = closing then return []
      let first ← item₁
      if ← eat .comma then return first :: (← list₁)
      return [first] : Unbounded (List α)).on s)
    {mid : List Token → List α → Prop} (hw : ∀ s, Walks [] (item fuel) TakesSome s)
    (hws : ∀ s, Walks [] (list fuel) mid s) (hitem : InStep L view item₁ (item fuel) s s')
    (hrest : ∀ t t', t'.size < s'.size → InStep L (List.map view) list₁ (list fuel) t t') :
    InStep L (List.map view) list₁ (list (fuel + 1)) s s' := by
  rw [hlist]
  refine .of_on (hlist₁ s) (.known fun hp => .look ?_)
  rw [L.kind hp]
  by_cases hclose : s'.kind = closing
  · rw [if_pos hclose, if_pos hclose]
    exact .pure rfl
  · rw [if_neg hclose, if_neg hclose]
    refine hitem.part hw fun x x' t t' hx ht => .eat (by decide) (fun hu => ?_) (.pure ?_)
    · refine (hrest _ _ (Nat.lt_trans hu ht)).bind hws fun xs xs' _ _ hxs _ => .pure ?_
      rw [List.map_cons, List.map_cons, hx, hxs]
    · rw [List.map_singleton, List.map_singleton, hx]

mutual
/-- **A type annotation is read in step.** -/
theorem typeWith_inStep : (fuel : Nat) → ∀ s s' : Stream, 4 * s'.size + 1 ≤ fuel →
    InStep L id Unbounded.type (typeWith fuel) s s'
  | 0 => fun _ _ hfuel => absurd hfuel (Nat.not_succ_le_zero _)
  | fuel + 1 => fun s s' hfuel => by
    have hnext : ∀ {t t' : Stream}, t'.size < s'.size →
        InStep L id Unbounded.type (typeWith fuel) t t' :=
      fun ht => typeWith_inStep fuel _ _ (by omega)
    rw [Unbounded.type, typeWith]
    refine .called .type ?_
    rw [Unbounded.body]
    refine .known fun hp => .look ?_
    rw [(L.whole hp).1.grammar, (L.whole hp).2.grammar, L.kind hp]
    cases Grammar.standard.type? s'.kind with
    | none => exact .unexpectedBecause
    | some rule =>
      cases rule with
      | named =>
        refine .token (by decide) fun a a' t t' ha ht => ?_
        obtain ⟨-, hvalue, hspan⟩ := Token.moved_eq ha
        rw [hvalue]
        by_cases hplain : a'.value = "int" ∨ a'.value = "string" ∨ a'.value = "bool" ∨
          a'.value = "char" ∨ a'.value = "void"
        · rcases hplain with hname | hname | hname | hname | hname
          all_goals
            simp only [hname]
            exact .pure rfl
        simp only [not_or] at hplain
        obtain ⟨hint, hstring, hbool, hchar, hvoid⟩ := hplain
        by_cases harray : a'.value = "array"
        · simp only [harray]
          refine .token (by decide) fun _ _ u u' _ hu => ?_
          refine (hnext (by omega)).part (typeWith_walks fuel) fun e e' v v' he hv => ?_
          refine .token (by decide) fun _ _ _ _ _ _ => .pure ?_
          rw [show e = e' from he]
        by_cases hhash : a'.value = "hash"
        · simp only [hhash]
          refine .token (by decide) fun _ _ u u' _ hu => ?_
          refine (hnext (by omega)).part (typeWith_walks fuel) fun k k' v v' hk hv => ?_
          refine .token (by decide) fun _ _ w w' _ hw => ?_
          refine (hnext (by omega)).part (typeWith_walks fuel) fun e e' v v' he hv => ?_
          refine .token (by decide) fun _ _ _ _ _ _ => .pure ?_
          rw [show k = k' from hk, show e = e' from he]
        · simp only
          exact .failAt (Span.moved_eq hspan).1
      | function =>
        refine .token (by decide) fun _ _ t t' _ ht => .token (by decide) fun _ _ u u' _ hu => ?_
        refine (typesWith_inStep fuel u u' (by omega)).bind (typesWith_walks fuel) ?_
        refine fun ps ps' v v' hps hv => .token (by decide) fun _ _ w w' _ hw => ?_
        refine .token (by decide) fun _ _ x x' _ hx => ?_
        refine (hnext (by omega)).part (typeWith_walks fuel) fun r r' _ _ hr _ => .pure ?_
        rw [List.map_id, List.map_id] at hps
        rw [hps, show r = r' from hr]

theorem typesWith_inStep : (fuel : Nat) → ∀ s s' : Stream, 4 * s'.size + 2 ≤ fuel →
    InStep L (List.map id) Unbounded.types (typesWith fuel) s s'
  | 0 => fun _ _ hfuel => absurd hfuel (Nat.not_succ_le_zero _)
  | fuel + 1 => fun s s' hfuel =>
    list_inStep typesWith_lists (Unbounded.on_call .types) (typeWith_walks fuel)
      (typesWith_walks fuel) (typeWith_inStep fuel s s' (by omega))
      fun t t' ht => typesWith_inStep fuel t t' (by omega)
end

theorem readType_inStep : InStep L id Unbounded.type readType s s' := by
  refine .lookThere (typeWith_inStep s'.budget s s' ?_)
  rw [Stream.budget]
  omega

/-- A parameter is read in step. -/
theorem readParam_inStep : InStep L (Param.moved f) Unbounded.param readParam s s' := by
  unfold Unbounded.param readParam
  refine .token (by decide) fun name name' _ _ hname _ => .token (by decide) fun _ _ _ _ _ _ => ?_
  obtain ⟨-, hvalue, hspan⟩ := Token.moved_eq hname
  refine readType_inStep.part readType_walks fun w w' _ _ hw _ => ?_
  refine .span (Span.moved_eq hspan).1 fun p p' hp => .pure ?_
  rw [Param.moved, Param.moved, hvalue, hp, show w = w' from hw]

theorem readParam_takes (s : Stream) : Walks [] readParam TakesSome s :=
  (readParam_walks s).mono fun _ _ h => h.ne_nil

theorem paramsWith_inStep (fuel : Nat) : ∀ s s' : Stream, 4 * s'.size + 1 ≤ fuel →
    InStep L (List.map (Param.moved f)) Unbounded.params (paramsWith fuel) s s' := by
  induction fuel with
  | zero => exact fun _ _ hfuel => absurd hfuel (Nat.not_succ_le_zero _)
  | succ fuel ih =>
    intro s s' hfuel
    exact list_inStep paramsWith_lists (Unbounded.on_call .params) readParam_takes
      (paramsWith_walks fuel) readParam_inStep fun t t' ht => ih t t' (by omega)

/-- **Parameters are read in step.** -/
theorem readParams_inStep :
    InStep L (List.map (Param.moved f)) Unbounded.enclosedParams readParams s s' := by
  unfold Unbounded.enclosedParams readParams
  refine .token (by decide) fun _ _ t t' _ _ => ?_
  refine .lookThere ((paramsWith_inStep _ t t' ?_).bind (paramsWith_walks _) ?_)
  · rw [Stream.budget]
    omega
  · exact fun _ _ _ _ hps _ => .token (by decide) fun _ _ _ _ _ _ => .pure hps

/-! ## 2. Literals and names -/

/-- A token that is an expression. -/
theorem primary_inStep {e e' : Expr} (hk : s'.kind ≠ .endOfText) (he : e.moved f = e'.moved f) :
    InStep L (Expr.moved f)
      (liftM (do let expr ← pure e; discard advance; return expr : Parse Expr))
      (do let expr ← pure e'; discard advance; return expr) s s' := by
  rw [pure_bind, pure_bind, discard_bind, discard_bind, Unbounded.lift_bind]
  exact .opening hk fun _ _ => .pure he

/-- **A literal or a name is read in step.** -/
theorem readPrimary_inStep : InStep L (Expr.moved f) (liftM readPrimary) readPrimary s s' := by
  unfold readPrimary
  rw [Unbounded.lift_bind]
  refine .freshId fun id s s' _ => .known fun hp => .lookBoth ?_
  obtain ⟨hkind, hvalue, hspan⟩ := Token.moved_eq (L.token hp)
  have hk : ∀ {k}, s'.current.kind = k → k ≠ .endOfText → s'.kind ≠ .endOfText :=
    fun hk hne h => hne (hk.symm.trans h)
  have hnode : Node.moved f ⟨id, s.current.span⟩ = Node.moved f ⟨id, s'.current.span⟩ := by
    rw [Node.moved, Node.moved, hspan]
  dsimp only
  rw [hkind, hvalue]
  split
  · rename_i hkind
    split
    · exact primary_inStep (hk hkind (by decide)) (by rw [Expr.moved, Expr.moved, hnode])
    · rw [Unbounded.lift_bind]
      exact .stops (failHere_fails _) .failHere
  · rename_i hkind
    exact primary_inStep (hk hkind (by decide)) (by rw [Expr.moved, Expr.moved, hnode])
  · rename_i hkind
    exact primary_inStep (hk hkind (by decide)) (by rw [Expr.moved, Expr.moved, hnode])
  · rename_i hkind
    split
    · exact primary_inStep (hk hkind (by decide)) (by rw [Expr.moved, Expr.moved, hnode])
    · rw [Unbounded.lift_bind]
      exact .stops (failHere_fails _) .failHere
  · rename_i hkind
    exact primary_inStep (hk hkind (by decide)) (by rw [Expr.moved, Expr.moved, hnode])
  · rename_i hkind
    exact primary_inStep (hk hkind (by decide)) (by rw [Expr.moved, Expr.moved, hnode])
  · rw [Unbounded.lift_bind]
    exact .stops unexpected_fails .unexpected

/-! ## 3. Expressions, statements and blocks -/

theorem exprWith_takes (fuel : Nat) (power : Power) (s : Stream) :
    Walks [] (exprWith fuel power) TakesSome s :=
  ((walked fuel).expr power s).mono fun _ _ h => Laid.ne_nil h

theorem headWith_takes (fuel : Nat) (s : Stream) : Walks [] (headWith fuel) TakesSome s :=
  ((walked fuel).head s).mono fun _ _ h => Laid.ne_nil h

theorem blockWith_takes (fuel : Nat) (s : Stream) : Walks [] (blockWith fuel) TakesSome s :=
  ((walked fuel).block s).mono fun _ _ h => Laid.ne_nil h

theorem stmtWith_takes (fuel : Nat) (s : Stream) : Walks [] (stmtWith fuel) TakesSome s :=
  ((walked fuel).stmt s).mono fun _ _ h => Laid.ne_nil h

theorem entryWith_takes (fuel : Nat) (s : Stream) : Walks [] (entryWith fuel) TakesSome s := by
  refine .part (exprWith_takes fuel _ s) fun us k t _ hk => .token (by decide) fun c t _ => ?_
  refine .part (exprWith_takes fuel _ t) fun vs v t _ _ => .pure ?_
  exact List.append_ne_nil_of_left_ne_nil (List.append_ne_nil_of_left_ne_nil hk _) _

/-- One tail takes what it takes, whatever stands before it. -/
theorem tailWith_walks (fuel : Nat) (left : Expr) (rule : TailRule) (s : Stream) :
    Walks [] (tailWith fuel left rule) (fun _ _ => True) s := by
  cases rule with
  | binary op =>
    refine .part ((walked fuel).expr _ s) fun _ _ _ _ _ => ?_
    exact .freshId fun _ _ => .pure trivial
  | call =>
    refine .part ((walked fuel).items _ s) fun _ _ _ _ _ => .token (by decide) fun _ _ _ => ?_
    exact .node (List.concat_ne_nil _ _) fun _ _ _ _ => .pure trivial
  | index =>
    refine .part ((walked fuel).expr _ s) fun _ _ _ _ _ => .token (by decide) fun _ _ _ => ?_
    exact .node (List.concat_ne_nil _ _) fun _ _ _ _ => .pure trivial

/-- **All readers of some fuel are in step,** where it lasts: each token lets the readers nest four
    times, and a call that takes no token is one of a lower rank. -/
structure Marching (L : Lockstep f) (way : Way) (fuel : Nat) : Prop where
  expr (power : Power) (s s' : Stream) : 4 * s'.size + 2 ≤ fuel →
    InStep L (Expr.moved f) (Unbounded.expr way power) (exprWith fuel power) s s'
  head (s s' : Stream) : 4 * s'.size + 1 ≤ fuel →
    InStep L (Expr.moved f) (Unbounded.head way) (headWith fuel) s s'
  tails (power : Power) (left left' : Expr) (s s' : Stream) : left.moved f = left'.moved f →
    4 * s'.size + 1 ≤ fuel → InStep L (Expr.moved f) (Unbounded.tails way power .call left)
      (tailsWith fuel power left') s s'
  items (closing : TokenKind) (s s' : Stream) : 4 * s'.size + 3 ≤ fuel →
    InStep L (List.map (Expr.moved f)) (Unbounded.items way closing) (itemsWith fuel closing) s s'
  entries (s s' : Stream) : 4 * s'.size + 3 ≤ fuel →
    InStep L (List.map fun e : Expr × Expr => (e.1.moved f, e.2.moved f))
      (Unbounded.entries way) (entriesWith fuel) s s'
  block (s s' : Stream) : 4 * s'.size + 1 ≤ fuel →
    InStep L (Block.moved f) (Unbounded.block way) (blockWith fuel) s s'
  stmts (s s' : Stream) : 4 * s'.size + 4 ≤ fuel →
    InStep L (List.map (Stmt.moved f)) (Unbounded.stmts way) (stmtsWith fuel) s s'
  stmt (s s' : Stream) : 4 * s'.size + 3 ≤ fuel →
    InStep L (Stmt.moved f) (Unbounded.stmt way) (stmtWith fuel) s s'
  declaration (s s' : Stream) : Grammar.standard.stmt? s'.kind = some .declaration →
    4 * s'.size + 1 ≤ fuel →
    InStep L (Stmt.moved f) (Unbounded.declaration way) (declarationWith fuel) s s'
  branch (s s' : Stream) : Grammar.standard.stmt? s'.kind = some .branch →
    4 * s'.size + 1 ≤ fuel → InStep L (Stmt.moved f) (Unbounded.branch way) (branchWith fuel) s s'
  returns (s s' : Stream) : Grammar.standard.stmt? s'.kind = some .returns →
    4 * s'.size + 1 ≤ fuel → InStep L (Stmt.moved f) (Unbounded.returns way) (returnWith fuel) s s'
  print (s s' : Stream) : Grammar.standard.stmt? s'.kind = some .print →
    4 * s'.size + 1 ≤ fuel → InStep L (Stmt.moved f) (Unbounded.print way) (printWith fuel) s s'

namespace Marching

variable {way : Way} {fuel : Nat}

theorem exprWith_succ (h : Marching L way fuel) (power : Power) (s s' : Stream)
    (hfuel : 4 * s'.size + 2 ≤ fuel + 1) : InStep L (Expr.moved f)
      (Unbounded.expr way power) (exprWith (fuel + 1) power) s s' := by
  rw [exprWith]
  refine .of_on (Unbounded.on_expr way power s) ?_
  refine (h.head s s' (by omega)).part (headWith_takes fuel) fun left left' t t' hl ht => ?_
  exact h.tails power left left' t t' hl (by omega)

theorem headWith_succ (h : Marching L way fuel) (s s' : Stream)
    (hfuel : 4 * s'.size + 1 ≤ fuel + 1) :
    InStep L (Expr.moved f) (Unbounded.head way) (headWith (fuel + 1)) s s' := by
  rw [Unbounded.head, headWith]
  refine .known fun hp => .look ?_
  rw [(L.whole hp).1.grammar, (L.whole hp).2.grammar, L.kind hp]
  cases hrule : Grammar.standard.head? s'.kind with
  | none => exact .unexpected
  | some rule =>
    have hk : s'.kind ≠ .endOfText := (head_plain hrule).1
    have hstart := (Span.moved_eq (Token.moved_eq (L.token hp)).2.2).1
    cases rule with
    | primary => exact readPrimary_inStep
    | group =>
      refine .skip hk fun ht => ?_
      refine (h.expr _ _ _ (by omega)).part (exprWith_takes fuel _) fun e e' t t' he _ => ?_
      exact .token (by decide) fun _ _ _ _ _ _ => .pure he
    | array =>
      refine .opening hk fun _ ht => (h.items _ _ _ (by omega)).bind ((walked fuel).items _) ?_
      refine fun items items' t t' hi _ => .token (by decide) fun _ _ _ _ _ _ => ?_
      refine .node hstart fun n n' _ _ hn _ => .pure ?_
      rw [Expr.moved, Expr.moved, itemsMoved_eq_map, itemsMoved_eq_map, hi, hn]
    | hash =>
      refine .opening hk fun _ ht => (h.entries _ _ (by omega)).bind (walked fuel).entries ?_
      refine fun entries entries' t t' he _ => .token (by decide) fun _ _ _ _ _ _ => ?_
      refine .node hstart fun n n' _ _ hn _ => .pure ?_
      rw [Expr.moved, Expr.moved, entriesMoved_eq_map, entriesMoved_eq_map, he, hn]
    | function =>
      refine .opening hk fun _ ht => readParams_inStep.bind readParams_walks ?_
      refine fun params params' t t' hparams ht' => .token (by decide) fun _ _ u u' _ hu => ?_
      refine readType_inStep.part readType_walks fun r r' v v' hr hv => ?_
      refine (h.block v v' (by omega)).part (blockWith_takes fuel) fun b b' _ _ hb _ => ?_
      refine .freshId fun id _ _ _ => .pure ?_
      have hstop := (Span.moved_eq ((b.moved_span f).symm.trans (hb ▸ b'.moved_span f))).2
      rw [Expr.moved, Expr.moved, Node.moved, Node.moved, Span.moved, Span.moved, hparams, hb,
        hstart, hstop, show r = r' from hr]

/-- **One tail.** -/
theorem tailWith_inStep (h : Marching L way fuel) {left left' : Expr}
    (hl : left.moved f = left'.moved f) (rule : TailRule) (s s' : Stream)
    (hfuel : 4 * s'.size + 3 ≤ fuel) : InStep L (Expr.moved f)
      (Unbounded.tail way rule.power left rule) (tailWith fuel left' rule) s s' := by
  have hstart : f left.span.start = f left'.span.start :=
    (Span.moved_eq ((left.moved_span f).symm.trans (hl ▸ left'.moved_span f))).1
  cases rule with
  | binary op =>
    rw [Unbounded.tail]
    refine (h.expr _ _ _ (by omega)).part (exprWith_takes fuel _) fun r r' t t' hr _ => ?_
    refine .freshId fun id _ _ _ => .pure ?_
    have hstop := (Span.moved_eq ((r.moved_span f).symm.trans (hr ▸ r'.moved_span f))).2
    rw [Expr.moved, Expr.moved, Node.moved, Node.moved, Span.moved, Span.moved, hl, hr, hstart,
      hstop]
  | call =>
    rw [Unbounded.tail]
    refine (h.items _ _ _ hfuel).bind ((walked fuel).items _) fun args args' t t' ha _ => ?_
    refine .token (by decide) fun _ _ _ _ _ _ => .node hstart fun n n' _ _ hn _ => .pure ?_
    rw [Expr.moved, Expr.moved, itemsMoved_eq_map, itemsMoved_eq_map, hl, ha, hn]
  | index =>
    rw [Unbounded.tail]
    refine (h.expr _ _ _ (by omega)).part (exprWith_takes fuel _) fun k k' t t' hk _ => ?_
    refine .token (by decide) fun _ _ _ _ _ _ => .node hstart fun n n' _ _ hn _ => .pure ?_
    rw [Expr.moved, Expr.moved, hl, hk, hn]

theorem tailsWith_succ (h : Marching L way fuel) (power : Power) (left left' : Expr)
    (s s' : Stream) (hl : left.moved f = left'.moved f) (hfuel : 4 * s'.size + 1 ≤ fuel + 1) :
    InStep L (Expr.moved f) (Unbounded.tails way power .call left)
      (tailsWith (fuel + 1) power left') s s' := by
  rw [Stackling.tailsWith_succ]
  refine .known fun hp => .lookThere ?_
  have hthere := (L.whole hp).2.grammar
  have hg := (L.whole hp).1.grammar
  have hhere : s.grammar.tail? s.kind = Grammar.standard.tail? s'.kind := by
    rw [hg, L.kind hp]
  have hend : s.Weak power → InStep L (Expr.moved f) (Unbounded.tails way power .call left)
      (pure left') s s' := fun hweak =>
    .of_on ((Unbounded.tails_pass way hg hweak).trans (Unbounded.on_pure left s).symm) (.pure hl)
  rw [hthere]
  cases hrule : Grammar.standard.tail? s'.kind with
  | none => exact hend (.of_none (hhere.trans hrule))
  | some rule =>
    dsimp only
    rw [hrule] at hhere
    by_cases hrank : rule.power.rank ≤ power.rank
    · rw [if_pos hrank]
      exact hend (.of_rule hhere hrank)
    · rw [if_neg hrank]
      have hlt := Nat.lt_of_not_le hrank
      have hk : s'.kind ≠ .endOfText := fun hk => by
        rw [hk] at hrule
        cases hrule
      have hlower := @Unbounded.tails_lower s left way _ _ _ hlt.le rule.rank_le hg
        (.of_rule hhere (Nat.le_refl _))
      refine .of_on (hlower.trans (Unbounded.tails_take way hg hhere hlt)) (.skip hk fun ht => ?_)
      refine (h.tailWith_inStep hl rule _ _ (by omega)).bindOf (tailWith_walks fuel _ _ _) ?_
      intro e e' ts t t' he hrun htaken _
      have hsize := htaken.size
      -- behind the tail, no token binds more tightly than it does
      refine .known fun hp' => ?_
      have hgrammar := (L.whole hp').1.grammar
      have hweak : t.Weak rule.power := fun rule' hrule' => by
        refine tailWith_weak hrun rule' ?_
        rwa [(L.whole hp').2.grammar, ← L.kind hp', ← hgrammar]
      exact .of_on (Unbounded.tails_lower way hlt.le rule.rank_le hgrammar hweak).symm
        (h.tails power e e' t t' he (by omega))

theorem itemsWith_succ (h : Marching L way fuel) (closing : TokenKind) (s s' : Stream)
    (hfuel : 4 * s'.size + 3 ≤ fuel + 1) : InStep L (List.map (Expr.moved f))
      (Unbounded.items way closing) (itemsWith (fuel + 1) closing) s s' :=
  list_inStep (itemsWith_lists closing) (Unbounded.on_call (.items way closing))
    (exprWith_takes fuel _) ((walked fuel).items closing)
    (h.expr _ _ _ (by omega)) fun t t' ht => h.items closing t t' (by omega)

theorem entriesWith_succ (h : Marching L way fuel) (s s' : Stream)
    (hfuel : 4 * s'.size + 3 ≤ fuel + 1) :
    InStep L (List.map fun e : Expr × Expr => (e.1.moved f, e.2.moved f))
      (Unbounded.entries way) (entriesWith (fuel + 1)) s s' := by
  have hentry : InStep L (fun e : Expr × Expr => (e.1.moved f, e.2.moved f))
      (Unbounded.entry way) (entryWith fuel) s s' := by
    rw [Unbounded.entry, entryWith]
    refine (h.expr _ _ _ (by omega)).part (exprWith_takes fuel _) fun k k' t t' hk ht => ?_
    refine .token (by decide) fun _ _ u u' _ hu => ?_
    refine (h.expr _ _ _ (by omega)).part (exprWith_takes fuel _) fun v v' _ _ hv _ => .pure ?_
    rw [hk, hv]
  exact list_inStep entriesWith_lists (Unbounded.on_call (.entries way)) (entryWith_takes fuel)
    (walked fuel).entries hentry fun t t' ht => h.entries t t' (by omega)

theorem blockWith_succ (h : Marching L way fuel) (s s' : Stream)
    (hfuel : 4 * s'.size + 1 ≤ fuel + 1) :
    InStep L (Block.moved f) (Unbounded.block way) (blockWith (fuel + 1)) s s' := by
  rw [Unbounded.block, blockWith]
  refine .token (by decide) fun o o' t t' ho ht => ?_
  refine (h.stmts _ _ (by omega)).bind (walked fuel).stmts fun body body' _ _ hb _ => ?_
  refine .token (by decide) fun _ _ _ _ _ _ => ?_
  refine .span (Span.moved_eq (Token.moved_eq ho).2.2).1 fun p p' hp => .pure ?_
  rw [Block.moved, Block.moved, stmtsMoved_eq_map, stmtsMoved_eq_map, hb, hp]

theorem stmtsWith_succ (h : Marching L way fuel) (s s' : Stream)
    (hfuel : 4 * s'.size + 4 ≤ fuel + 1) :
    InStep L (List.map (Stmt.moved f)) (Unbounded.stmts way) (stmtsWith (fuel + 1)) s s' := by
  rw [Unbounded.stmts, stmtsWith]
  refine .called (.stmts way) ?_
  rw [Unbounded.body]
  refine .known fun hp => .look ?_
  rw [L.kind hp]
  by_cases hclose : s'.kind = .closeCurly
  · rw [if_pos hclose, if_pos hclose]
    exact .pure rfl
  · rw [if_neg hclose, if_neg hclose]
    refine (h.stmt _ _ (by omega)).part (stmtWith_takes fuel) fun x x' t t' hx ht => ?_
    refine (h.stmts _ _ (by omega)).bind (walked fuel).stmts fun xs xs' _ _ hxs _ => .pure ?_
    rw [List.map_cons, List.map_cons, hx, hxs]

/-- What stands behind the words that a declaration starts with. -/
def declared (way : Way) (opening : Token) (constant : Bool) : Unbounded Stmt := do
  let name ← expectOr .identifier
    (unexpectedBecause "expected identifier during variable declaration")
  let _ ← expectOr .colon (unexpectedBecause "every declaration needs an explicit type")
  let written ← Unbounded.type
  let _ ← expect .assignment
  let value ← Unbounded.expr way .default
  return .declare (← spanFrom opening.span.start) constant name.value written value

theorem declaredWith_inStep (h : Marching L way fuel) {opening opening' : Token} {constant : Bool}
    (ho : opening.moved f = opening'.moved f) (hfuel : 4 * s'.size + 1 ≤ fuel + 4) :
    InStep L (Stmt.moved f) (declared way opening constant) (declaredWith fuel opening' constant)
      s s' := by
  rw [declared, declaredWith]
  refine .tokenOr (by decide) fun name name' u u' hname hu => ?_
  refine .tokenOr (by decide) fun _ _ v v' _ hv => ?_
  refine readType_inStep.part readType_walks fun w w' x x' hw hx => ?_
  refine .token (by decide) fun _ _ y y' _ hy => ?_
  refine (h.expr _ _ _ (by omega)).part (exprWith_takes fuel _) fun e e' _ _ he _ => ?_
  refine .span (Span.moved_eq (Token.moved_eq ho).2.2).1 fun p p' hp => .pure ?_
  rw [Stmt.moved, Stmt.moved, hp, he, (Token.moved_eq hname).2.1, show w = w' from hw]

theorem declarationWith_succ (h : Marching L way fuel) (s s' : Stream)
    (hrule : Grammar.standard.stmt? s'.kind = some .declaration)
    (hfuel : 4 * s'.size + 1 ≤ fuel + 1) : InStep L (Stmt.moved f)
      (Unbounded.declaration way) (declarationWith (fuel + 1)) s s' := by
  rw [Unbounded.declaration, Stackling.declarationWith_succ]
  refine .opening (stmt_plain hrule).1 fun ho ht => ?_
  rw [constantBehind]
  dsimp only
  rw [(Token.moved_eq ho).1]
  by_cases hconst : s'.current.kind = .constWord
  · rw [if_pos hconst, if_pos hconst, pure_bind, pure_bind]
    exact h.declaredWith_inStep ho (by omega)
  · rw [if_neg hconst, if_neg hconst]
    exact .eat (by decide) (fun hu => h.declaredWith_inStep ho (by omega))
      (h.declaredWith_inStep ho (by omega))

/-- A second block, or nothing. -/
theorem otherwiseWith_inStep (h : Marching L way fuel) (s s' : Stream)
    (hfuel : 4 * s'.size + 1 ≤ fuel + 4) : InStep L (Option.map (Block.moved f))
      (Unbounded.otherwise way) (otherwiseWith fuel) s s' := by
  rw [Unbounded.otherwise, otherwiseWith]
  refine .eat (by decide) (fun ht => ?_) (.pure rfl)
  rw [if_pos rfl, if_pos rfl, bind_pure_comp]
  refine (h.block _ _ (by omega)).map (fun b b' hb => ?_) (blockWith_takes fuel)
  rw [Option.map_some, Option.map_some, hb]

theorem otherwiseWith_walks (fuel : Nat) (s : Stream) :
    Walks [] (otherwiseWith fuel) (fun _ _ => True) s :=
  ((walked fuel).otherwiseWith_walks s).mono fun _ _ _ => trivial

theorem branchWith_succ (h : Marching L way fuel) (s s' : Stream)
    (hrule : Grammar.standard.stmt? s'.kind = some .branch) (hfuel : 4 * s'.size + 1 ≤ fuel + 1) :
    InStep L (Stmt.moved f) (Unbounded.branch way) (branchWith (fuel + 1)) s s' := by
  rw [Unbounded.branch, Stackling.branchWith_succ]
  refine .opening (stmt_plain hrule).1 fun ho ht => ?_
  refine (h.expr _ _ _ (by omega)).part (exprWith_takes fuel _) fun c c' t t' hc ht' => ?_
  refine (h.block _ _ (by omega)).part (blockWith_takes fuel) fun y y' u u' hy hu => ?_
  refine (h.otherwiseWith_inStep _ _ (by omega)).bind (otherwiseWith_walks fuel) ?_
  refine fun n n' _ _ hn _ => .span (Span.moved_eq (Token.moved_eq ho).2.2).1 fun p p' hp => ?_
  refine .pure ?_
  rw [Stmt.moved_branch, Stmt.moved_branch, hc, hy, hn, hp]

theorem returns_word {k : TokenKind} (h : Grammar.standard.stmt? k = some .returns) :
    k = .returnWord := by
  cases k <;> first | rfl | cases h

theorem returnWith_succ (h : Marching L way fuel) (s s' : Stream)
    (hrule : Grammar.standard.stmt? s'.kind = some .returns) (hfuel : 4 * s'.size + 1 ≤ fuel + 1) :
    InStep L (Stmt.moved f) (Unbounded.returns way) (returnWith (fuel + 1)) s s' := by
  rw [Unbounded.returns, returnWith]
  refine .known fun hp => .opening (stmt_plain hrule).1 fun ho ht => ?_
  have hstart := (Span.moved_eq (Token.moved_eq ho).2.2).1
  refine .known fun hp' => .look ?_
  have hkind : s.kind = .returnWord := (L.kind hp).trans (returns_word hrule)
  have hline : (s.next.current.span.line = s.current.span.line ∧
      (s.next.grammar.head? s.next.kind).isSome) ↔
      (s'.next.current.span.line = s'.current.span.line ∧
        (s'.next.grammar.head? s'.next.kind).isSome) := by
    rw [(L.whole hp').1.grammar, (L.whole hp').2.grammar, ← L.kind hp']
    refine and_congr_left fun hhead => L.line hp hkind ?_
    obtain ⟨_, hrule⟩ := Option.isSome_iff_exists.mp hhead
    exact (head_plain hrule).1
  dsimp only
  by_cases hvalue : s'.next.current.span.line = s'.current.span.line ∧
      (s'.next.grammar.head? s'.next.kind).isSome
  · rw [if_pos (hline.mpr hvalue), if_pos hvalue, bind_map_left]
    refine (h.expr _ _ _ (by omega)).part (exprWith_takes fuel _) fun e e' _ _ he _ => ?_
    refine .span hstart fun p p' hp => .pure ?_
    rw [Stmt.moved, Stmt.moved, he, hp]
  · rw [if_neg fun hvalue' => hvalue (hline.mp hvalue'), if_neg hvalue, pure_bind]
    refine .span hstart fun p p' hp => .pure ?_
    rw [Stmt.moved, Stmt.moved, hp]

theorem printWith_succ (h : Marching L way fuel) (s s' : Stream)
    (hrule : Grammar.standard.stmt? s'.kind = some .print) (hfuel : 4 * s'.size + 1 ≤ fuel + 1) :
    InStep L (Stmt.moved f) (Unbounded.print way) (printWith (fuel + 1)) s s' := by
  rw [Unbounded.print, printWith]
  refine .opening (stmt_plain hrule).1 fun ho ht => .token (by decide) fun _ _ t t' _ ht' => ?_
  refine (h.expr _ _ _ (by omega)).part (exprWith_takes fuel _) fun e e' _ _ he _ => ?_
  refine .token (by decide) fun _ _ _ _ _ _ => ?_
  refine .span (Span.moved_eq (Token.moved_eq ho).2.2).1 fun p p' hp => .pure ?_
  rw [Stmt.moved, Stmt.moved, he, hp]

theorem stmtWith_succ (h : Marching L way fuel) (s s' : Stream)
    (hfuel : 4 * s'.size + 3 ≤ fuel + 1) :
    InStep L (Stmt.moved f) (Unbounded.stmt way) (stmtWith (fuel + 1)) s s' := by
  have hlast : ∀ {m : Unbounded Stmt} {rule : Option StmtRule},
      Grammar.standard.stmt? s'.kind = rule →
      InStep L (Stmt.moved f) m (ruleWith fuel rule) s s' → InStep L (Stmt.moved f)
        (do let stmt ← m; let _ ← eat .semicolon; return stmt)
        (do let stmt ← ruleWith fuel rule; discard (eat .semicolon); return stmt) s s' := by
    intro m rule hrule hm
    refine hm.bindOf ((walked fuel).ruleWith_walks s' hrule) fun x x' _ _ _ hx _ _ _ => ?_
    rw [discard_bind]
    exact .eat (by decide) (fun _ => .pure hx) (.pure hx)
  rw [Unbounded.stmt, Stackling.stmtWith_succ]
  refine .known fun hp => .look ?_
  rw [(L.whole hp).1.grammar, (L.whole hp).2.grammar, L.kind hp]
  cases hrule : Grammar.standard.stmt? s'.kind with
  | none =>
    have hexpr := h.expr .default s s' (by omega)
    refine hlast hrule (hexpr.map (fun e e' he => ?_) (exprWith_takes fuel _))
    rw [Stmt.moved, Stmt.moved, he]
  | some rule =>
    cases rule with
    | block =>
      have hblock := h.block s s' (by omega)
      refine hlast hrule (hblock.map (fun b b' hb => ?_) (blockWith_takes fuel))
      rw [Stmt.moved, Stmt.moved, hb]
    | declaration => exact hlast hrule (h.declaration _ _ hrule (by omega))
    | branch => exact hlast hrule (h.branch _ _ hrule (by omega))
    | returns => exact hlast hrule (h.returns _ _ hrule (by omega))
    | print => exact hlast hrule (h.print _ _ hrule (by omega))

end Marching

/-- **All readers are in step,** as long as the fuel lasts. -/
theorem marching (L : Lockstep f) (way : Way) (fuel : Nat) : Marching L way fuel := by
  induction fuel with
  | zero =>
    exact {
      expr := fun _ _ _ h => absurd h (Nat.not_succ_le_zero _)
      head := fun _ _ h => absurd h (Nat.not_succ_le_zero _)
      tails := fun _ _ _ _ _ _ h => absurd h (Nat.not_succ_le_zero _)
      items := fun _ _ _ h => absurd h (Nat.not_succ_le_zero _)
      entries := fun _ _ h => absurd h (Nat.not_succ_le_zero _)
      block := fun _ _ h => absurd h (Nat.not_succ_le_zero _)
      stmts := fun _ _ h => absurd h (Nat.not_succ_le_zero _)
      stmt := fun _ _ h => absurd h (Nat.not_succ_le_zero _)
      declaration := fun _ _ _ h => absurd h (Nat.not_succ_le_zero _)
      branch := fun _ _ _ h => absurd h (Nat.not_succ_le_zero _)
      returns := fun _ _ _ h => absurd h (Nat.not_succ_le_zero _)
      print := fun _ _ _ h => absurd h (Nat.not_succ_le_zero _) }
  | succ fuel ih =>
    exact {
      expr := ih.exprWith_succ
      head := ih.headWith_succ
      tails := ih.tailsWith_succ
      items := ih.itemsWith_succ
      entries := ih.entriesWith_succ
      block := ih.blockWith_succ
      stmts := ih.stmtsWith_succ
      stmt := ih.stmtWith_succ
      declaration := ih.declarationWith_succ
      branch := ih.branchWith_succ
      returns := ih.returnWith_succ
      print := ih.printWith_succ }

/-! ## 4. Programs -/

theorem readStmt_inStep (way : Way) :
    InStep L (Stmt.moved f) (Unbounded.stmt way) readStmt s s' := by
  refine .lookThere ((marching L way s'.budget).stmt s s' ?_)
  rw [Stream.budget]
  omega

theorem readBlock_inStep (way : Way) :
    InStep L (Block.moved f) (Unbounded.block way) readBlock s s' := by
  refine .lookThere ((marching L way s'.budget).block s s' ?_)
  rw [Stream.budget]
  omega

theorem readBlock_takes (s : Stream) : Walks [] readBlock TakesSome s :=
  (readBlock_walks s).mono fun _ _ h => Laid.ne_nil h

/-- Where a word stands, what stands behind it is the next token. -/
theorem Stream.Whole.peek (h : s.Whole) (hk : s.kind ≠ .endOfText) : s.peek = s.next.current := by
  have hleft := (h.next hk).2
  unfold Stream.next at hleft ⊢
  rw [Stream.peek]
  cases hf : s.following with
  | nil =>
    rw [hf] at hleft
    exact absurd (congrArg List.length hleft) (Nat.ne_of_lt (Nat.lt_succ_self _))
  | cons t ts => rfl

/-- **What stands next at top level** is the same on both streams. -/
theorem Lockstep.at (hp : L.pair s s') :
    s.atFunction = s'.atFunction ∧ s.atMain = s'.atMain := by
  have hkind := L.kind hp
  rw [Stream.atMain, Stream.atMain, Stream.atFunction, Stream.atFunction, hkind]
  by_cases hword : s'.kind = .fnWord
  · have hk : s'.kind ≠ .endOfText := hword ▸ nofun
    have hk' : s.kind ≠ .endOfText := hkind.trans_ne hk
    obtain ⟨hnext, hvalue, -⟩ := Token.moved_eq (L.token (L.next hp hk'))
    rw [(L.whole hp).1.peek hk', (L.whole hp).2.peek hk, hnext, hvalue]
    exact ⟨rfl, rfl⟩
  · rw [beq_false_of_ne hword, Bool.false_and, Bool.false_and, Bool.false_and, Bool.false_and]
    exact ⟨rfl, rfl⟩

/-- **The declaration of `main`.** -/
theorem readMain_inStep (way : Way) :
    InStep L (Block.moved f) (Unbounded.main way) readMain s s' := by
  unfold Unbounded.main readMain
  refine .token (by decide) fun _ _ _ _ _ _ => .token (by decide) fun _ _ _ _ _ _ => ?_
  refine .token (by decide) fun _ _ t t' _ _ => .known fun hp => .look ?_
  rw [L.kind hp]
  dsimp only
  by_cases hclose : t'.kind = .closeParen
  · rw [if_neg (not_not.mpr hclose), if_neg (not_not.mpr hclose)]
    refine .skip (hclose ▸ nofun) fun _ => .eat (by decide) (fun _ => ?_) (readBlock_inStep way)
    refine .known fun hp' => .look (readType_inStep.part readType_walks fun r r' u u' hr _ => ?_)
    obtain rfl : r = r' := hr
    by_cases hvoid : (!r.isVoid) = true
    · rw [if_pos hvoid, if_pos hvoid]
      exact .stops (failAt_fails _ _) (.failAt (Lockstep.place hp'))
    · rw [if_neg hvoid, if_neg hvoid]
      exact readBlock_inStep way
  · rw [if_pos hclose, if_pos hclose]
    exact .stops (unexpectedBecause_fails _) .unexpectedBecause

/-- **The declaration of a function.** -/
theorem readFunction_inStep (way : Way) :
    InStep L (FunctionDecl.moved f) (Unbounded.function way) readFunction s s' := by
  unfold Unbounded.function readFunction
  refine .token (by decide) fun o o' _ _ ho _ => .token (by decide) fun name name' _ _ hn _ => ?_
  refine readParams_inStep.bind readParams_walks fun ps ps' _ _ hps _ => ?_
  obtain ⟨-, hname, -⟩ := Token.moved_eq hn
  rw [hname]
  refine .tokenOr (by decide) fun _ _ _ _ _ _ => ?_
  refine readType_inStep.part readType_walks fun r r' _ _ hr _ => ?_
  refine (readBlock_inStep way).part readBlock_takes fun b b' _ _ hb _ => .pure ?_
  have hstart := (Span.moved_eq (Token.moved_eq ho).2.2).1
  have hstop := (Span.moved_eq ((b.moved_span f).symm.trans (hb ▸ b'.moved_span f))).2
  rw [FunctionDecl.moved, FunctionDecl.moved, Span.moved, Span.moved, hps, hb, hstart, hstop,
    show r = r' from hr]

theorem readItem_inStep (way : Way) (seen : Bool) :
    InStep L (Item.moved f) (Unbounded.item way seen) (readItem seen) s s' := by
  unfold Unbounded.item readItem
  refine .known fun hp => .look ?_
  obtain ⟨hfunction, hmain⟩ := Lockstep.at hp
  rw [hfunction, hmain]
  split
  · refine (readMain_inStep way).bind readMain_walks fun b b' t t' hb _ => ?_
    split
    · exact .stops (failAt_fails _ _) (.failAt (Lockstep.place hp))
    · exact .pure (congrArg Item.main hb)
  split
  · refine (readFunction_inStep way).bind readFunction_walks fun d d' _ _ hd _ => .pure ?_
    exact congrArg Item.function hd
  · refine (readStmt_inStep way).bind readStmt_walks fun x x' _ _ hx _ => .pure ?_
    exact congrArg Item.global hx

theorem readItem_takes (seen : Bool) (s : Stream) : Walks [] (readItem seen) TakesSome s :=
  (readItem_walks seen s).mono fun _ _ h => h.ne_nil

/-- **What stands at top level,** where there is fuel for every token. -/
theorem itemsOf_inStep (way : Way) (fuel : Nat) (seen : Bool) (hfuel : s'.size ≤ fuel) :
    InStep L (List.map (Item.moved f)) (Unbounded.itemsOf way seen) (itemsOf fuel seen) s s' := by
  induction fuel generalizing seen s s' with
  | zero => exact absurd hfuel (Nat.not_succ_le_zero _)
  | succ fuel ih =>
    rw [Unbounded.itemsOf, itemsOf]
    refine .called (.itemsOf way seen) ?_
    rw [Unbounded.body]
    refine .known fun hp => .look ?_
    rw [Stream.hasTokens, Stream.hasTokens, L.kind hp]
    split
    · exact .pure rfl
    · refine (readItem_inStep way seen).part (readItem_takes seen) fun x x' t t' hx ht => ?_
      have hmain : x.main?.isSome = x'.main?.isSome := by
        rw [← x.moved_isMain f, hx, x'.moved_isMain f]
      have hrest : ∀ {u u' : Stream}, u'.size ≤ t'.size → InStep L (List.map (Item.moved f))
          (do return x :: (← Unbounded.itemsOf way (seen || x.main?.isSome)))
          (do return x' :: (← itemsOf fuel (seen || x'.main?.isSome))) u u' := by
        intro u u' hu
        rw [hmain]
        refine (ih _ (by omega)).bind (itemsOf_walks fuel _) fun xs xs' _ _ hxs _ => .pure ?_
        rw [List.map_cons, List.map_cons, hx, hxs]
      rw [discard_bind]
      exact .eat (by decide) (fun hu => hrest hu.le) (hrest (Nat.le_refl _))

/-- **A whole program.** -/
theorem readProgram_inStep (way : Way) :
    InStep L (Program.moved f) (Unbounded.program way) readProgram s s' := by
  unfold Unbounded.program readProgram
  refine .known fun hp => .look (.lookThere ?_)
  refine (itemsOf_inStep way _ false (Nat.le_succ _)).bind (itemsOf_walks _ _) ?_
  refine fun items items' t t' hitems _ => .known fun hp' => .look ?_
  have hmain := congrArg (List.findSome? Item.main?) hitems
  rw [itemsMoved_main, itemsMoved_main] at hmain
  dsimp only
  cases hm : items'.findSome? Item.main? with
  | none =>
    rw [hm, Option.map_none, Option.map_eq_none_iff] at hmain
    rw [hmain]
    exact .failHere
  | some main' =>
    rw [hm, Option.map_some, Option.map_eq_some_iff] at hmain
    obtain ⟨main, hm', hmain⟩ := hmain
    rw [hm']
    refine .pure ?_
    have hfunctions := congrArg (List.filterMap Item.function?) hitems
    have hglobals := congrArg (List.filterMap Item.global?) hitems
    rw [itemsMoved_functions, itemsMoved_functions] at hfunctions
    rw [itemsMoved_globals, itemsMoved_globals] at hglobals
    rw [Program.moved, Program.moved, Span.moved, Span.moved, hfunctions, hglobals, hmain,
      Lockstep.place hp, Lockstep.place hp']

end Stackling
