import Stackling.Proofs.Syntax.Lockstep

/-
  File:     Stackling/Proofs/Syntax/Layers.lean
  Subject:  Levels of chains, seen from the head of an expression.

  A reader with one level for each power reads a head first, and then one chain after the other,
  from the tightest power down to the weakest that may stand here. Where the next token has a
  rule, the chains of the other powers end at once, and the one of its power takes a tail. The
  operand in this tail was read at its power, so the tail that follows it binds no more tightly:
  the chains that ended before need not be tried again.

  * `link?_eq`                                -- the operators of a level are those of its power;
  * `Unbounded.tails`                         -- all tails behind a head, both ways;
  * `level_eq`, `on_expr`                     -- an expression is a head with them;
  * `tails_pass`, `tails_lower`, `tails_take` -- what the next token does to them;
  * `tailWith_weak`                           -- the token behind a tail.
-/
namespace Stackling

open Parse

variable {s t : Stream} {e left : Expr} {power high : Power} {rule : TailRule} {fuel : Nat}

/-! ## 1. The token behind a tail -/

/-- The token here does not bind more tightly than the power. -/
def Stream.Weak (s : Stream) (power : Power) : Prop :=
  ∀ rule, s.grammar.tail? s.kind = some rule → rule.power.rank ≤ power.rank

theorem Stream.Weak.of_rule (h : s.grammar.tail? s.kind = some rule)
    (hrank : rule.power.rank ≤ power.rank) : s.Weak power := by
  intro rule' h'
  rw [h] at h'
  cases h'
  exact hrank

theorem Stream.Weak.of_none (h : s.grammar.tail? s.kind = none) : s.Weak power := by
  intro rule' h'
  rw [h] at h'
  cases h'

/-- No tail binds more tightly than a call. -/
theorem TailRule.rank_le (rule : TailRule) : rule.power.rank ≤ Power.call.rank := by
  cases rule with
  | binary op => cases op <;> decide
  | call | index => exact Nat.le_refl _

/-- **Tails end at a token that does not bind more tightly** than the context. -/
theorem tailsWith_weak (fuel : Nat) (power : Power) (left : Expr) (s : Stream)
    (h : tailsWith fuel power left s = .ok e t) : t.Weak power := by
  induction fuel generalizing left s with
  | zero =>
    rw [tailsWith] at h
    exact absurd h (unexpected_fails s e t)
  | succ fuel ih =>
    rw [tailsWith_succ] at h
    obtain ⟨_, _, ⟨⟩, h⟩ := bind_eq_ok.mp h
    cases hrule : s.grammar.tail? s.kind with
    | none =>
      rw [hrule] at h
      cases h
      exact .of_none hrule
    | some rule =>
      rw [hrule] at h
      dsimp only at h
      by_cases hrank : rule.power.rank ≤ power.rank
      · rw [if_pos hrank] at h
        cases h
        exact .of_rule hrule hrank
      · rw [if_neg hrank] at h
        obtain ⟨_, _, -, h⟩ := bind_eq_ok.mp h
        obtain ⟨left', u, -, h⟩ := bind_eq_ok.mp h
        exact ih left' u h

/-- **The token behind a tail** does not bind more tightly than the tail. -/
theorem tailWith_weak (h : tailWith fuel left rule s = .ok e t) : t.Weak rule.power := by
  cases rule with
  | binary op =>
    obtain ⟨right, u, hright, hlast⟩ := bind_eq_ok.mp h
    have hweak : u.Weak op.power := by
      cases fuel with
      | zero =>
        rw [exprWith] at hright
        exact absurd hright (unexpected_fails s right u)
      | succ fuel =>
        rw [exprWith] at hright
        obtain ⟨head, v, -, htails⟩ := bind_eq_ok.mp hright
        exact tailsWith_weak fuel op.power head v htails
    -- the expression gets its number behind the operand, without another token
    obtain ⟨_, _, ⟨⟩, hlast⟩ := bind_eq_ok.mp hlast
    cases hlast
    exact hweak
  | call | index => exact fun rule _ => rule.rank_le

/-! ## 2. Chains of several powers -/

/-- The powers of tails above the one, up to the other; the tightest one comes first. -/
def Power.between (low high : Power) : List Power :=
  [call, multiplicative, additive, relational].filter fun q =>
    decide (low.rank < q.rank ∧ q.rank ≤ high.rank)

theorem Power.mem_between {low high q : Power} (h : q ∈ low.between high) :
    low.rank < q.rank ∧ q.rank ≤ high.rank := of_decide_eq_true (List.mem_filter.mp h).2

theorem Power.between_append {low mid high : Power} (h : low.rank ≤ mid.rank)
    (h' : mid.rank ≤ high.rank) : low.between high = mid.between high ++ low.between mid := by
  cases low <;> cases mid <;> cases high <;> first | rfl | (revert h h'; decide)

/-- The power of a tail comes first among those up to it. -/
theorem TailRule.between_power (h : power.rank < rule.power.rank) :
    ∃ rest, power.between rule.power = rule.power :: rest := by
  have hpowers : ∀ q : Power, power.rank < q.rank → q.rank ≤ Power.call.rank →
      ∃ rest, power.between q = q :: rest := by
    intro q hlow hhigh
    cases power <;> cases q <;> first | exact ⟨_, rfl⟩ | (exfalso; revert hlow hhigh; decide)
  exact hpowers _ h rule.rank_le

namespace Unbounded

/-- The chains of the powers, one after the other. -/
def chains (powers : List Power) (left : Expr) : Unbounded Expr :=
  powers.foldlM (fun e power => chain power e) left

/-- **The tails behind the head of an expression,** those that bind no more tightly than `high`. -/
def tails : Way → Power → Power → Expr → Unbounded Expr
  | .climbing, power, _, left => climb power left
  | .layered, power, high, left => chains (power.between high) left

/-- **A level is a head with the chains of all tighter powers.** -/
theorem level_eq (power : Power) :
    level power = (do chains (power.between .call) (← head .layered)) := by
  have hstep : ∀ (powers : List Power) (power : Power),
      (do chain power (← (do chains powers (← head .layered)))) =
        (do chains (powers ++ [power]) (← head .layered)) := by
    intro powers power
    rw [bind_assoc]
    refine bind_congr fun e => ?_
    rw [chains, chains, List.foldlM_append]
    exact bind_congr fun e => (bind_pure (chain power e)).symm
  have hhead : head .layered = (do chains [] (← head .layered)) := (bind_pure _).symm
  have haccess : access = (do chains [.call] (← head .layered)) :=
    (congrArg (· >>= chain .call) hhead).trans (hstep [] .call)
  have hproduct : product = (do chains [.call, .multiplicative] (← head .layered)) :=
    (congrArg (· >>= chain .multiplicative) haccess).trans (hstep _ _)
  have hsum : sum = (do chains [.call, .multiplicative, .additive] (← head .layered)) :=
    (congrArg (· >>= chain .additive) hproduct).trans (hstep _ _)
  cases power with
  | default => exact (congrArg (· >>= chain .relational) hsum).trans (hstep _ _)
  | relational => exact hsum
  | additive => exact hproduct
  | multiplicative => exact haccess
  | call | primary => exact hhead

/-- **An expression is a head with tails,** whichever way they are put behind it. -/
theorem on_expr (way : Way) (power : Power) (s : Stream) :
    (expr way power).on s = (do tails way power .call (← head way) : Unbounded Expr).on s := by
  rw [expr, on_call]
  cases way with
  | climbing => rfl
  | layered => rw [body, level_eq]; rfl

/-! ## 3. What the next token does -/

/-- **The operators of a level** are those that have its power in the grammar. -/
theorem link?_eq (power : Power) (k : TokenKind) :
    link? power k = (Grammar.standard.tail? k).filter fun rule => rule.power = power := by
  cases power <;> cases k <;> rfl

/-- A token that does not bind more tightly has no place in a chain above. -/
theorem link?_eq_none {q : Power} (hg : s.grammar = .standard) (h : s.Weak power)
    (hq : q ∈ power.between high) : link? q s.kind = none := by
  rw [link?_eq, Option.filter_eq_none_iff]
  intro rule hrule heq
  have hrank := h rule (hg ▸ hrule)
  rw [of_decide_eq_true heq] at hrank
  exact absurd hrank (Nat.not_le_of_lt (Power.mem_between hq).1)

theorem chain_pass (h : link? power s.kind = none) :
    (chain power left).on s = some (.ok left, s) := by
  rw [chain, on_call, body, on_get]
  rw [h]
  exact on_pure left s

/-- Chains of levels that the next token has no place in. -/
theorem chains_pass {powers : List Power} (h : ∀ p ∈ powers, link? p s.kind = none) :
    (chains powers left).on s = some (.ok left, s) := by
  induction powers with
  | nil => exact on_pure left s
  | cons p powers ih =>
    rw [chains, List.foldlM_cons]
    rw [on_bind_ok (chain_pass (h p List.mem_cons_self))]
    exact ih fun q hq => h q (List.mem_cons_of_mem _ hq)

/-- **Where the next token binds no more tightly than the context,** the expression has ended. -/
theorem tails_pass (way : Way) (hg : s.grammar = .standard) (h : s.Weak power) :
    (tails way power high left).on s = some (.ok left, s) := by
  cases way with
  | climbing =>
    rw [tails, climb, on_call, body, on_get]
    cases hrule : s.grammar.tail? s.kind with
    | none => exact on_pure left s
    | some rule =>
      dsimp only
      rw [if_pos (h rule hrule)]
      exact on_pure left s
  | layered => exact chains_pass fun _ hq => link?_eq_none hg h hq

/-- **Chains that are tighter than the next token** may be left out. -/
theorem tails_lower (way : Way) {low mid high : Power} (hlow : low.rank ≤ mid.rank)
    (hhigh : mid.rank ≤ high.rank) (hg : s.grammar = .standard) (h : s.Weak mid) :
    (tails way low high left).on s = (tails way low mid left).on s := by
  cases way with
  | climbing => rfl
  | layered =>
    rw [tails, tails, Power.between_append hlow hhigh, chains, List.foldlM_append]
    exact on_bind_ok (chains_pass fun _ hq => link?_eq_none hg h hq)

/-- **Where the next token binds more tightly than the context,** it starts a tail. -/
theorem tails_take (way : Way) (hg : s.grammar = .standard)
    (hrule : s.grammar.tail? s.kind = some rule) (h : power.rank < rule.power.rank) :
    (tails way power rule.power left).on s = (do
      let _ ← advance
      tails way power rule.power (← tail way rule.power left rule) : Unbounded Expr).on s := by
  cases way with
  | climbing =>
    rw [tails, climb, on_call, body, on_get]
    rw [hrule]
    dsimp only
    rw [if_neg (Nat.not_le_of_lt h)]
    rfl
  | layered =>
    obtain ⟨rest, hbetween⟩ := rule.between_power h
    have hchains : ∀ e, tails .layered power rule.power e =
        (do chains rest (← chain rule.power e)) := by
      intro e
      rw [tails, hbetween]
      rfl
    have hfirst : (chain rule.power left).on s = (do
        let _ ← advance
        chain rule.power (← tail .layered rule.power left rule) : Unbounded Expr).on s := by
      have hlink : link? rule.power s.kind = some rule := by
        rw [link?_eq, ← hg, hrule]
        exact Option.filter_some_pos (decide_eq_true rfl)
      rw [chain, on_call, body, on_get]
      rw [hlink]
    rw [hchains, on_bind_congr hfirst]
    simp only [hchains, bind_assoc]

end Unbounded

end Stackling
