import Stackling.Syntax.Tree

/-
  File:     Stackling/Proofs/Syntax/Nesting.lean
  Subject:  The stretches of a phrase and of its parts.

  Every phrase of a tree has a stretch of its own, and so have its parts. A `Phrase` is the one
  with the others. The reader puts a stretch together from the ends of tokens, so it is enough to
  know from which tokens; what is said of places then follows from the order of the tokens.

  * `Parted`, `Span.Holds` -- stretches one behind the other, and inside another one;
  * `Expr.phrases`, `Stmt.phrases`, `Block.phrases` -- every phrase in a phrase, with its parts;
  * `Laid`                 -- parts that were read from some tokens, with a lemma for every way to
                              put them together.
-/
namespace Stackling

/-! ## 1. Stretches in order -/

/-- **The stretches stand one behind the other,** and none of them ends before it starts. -/
structure Parted (parts : List Span) : Prop where
  forward : ∀ s ∈ parts, s.start.offset ≤ s.stop.offset
  apart : parts.Pairwise fun s t => s.stop.offset ≤ t.start.offset

/-- **The parts stand in the stretch,** one behind the other. -/
structure Span.Holds (s : Span) (parts : List Span) : Prop where
  forward : s.start.offset ≤ s.stop.offset
  within : ∀ p ∈ parts, s.start.offset ≤ p.start.offset ∧ p.stop.offset ≤ s.stop.offset
  parted : Parted parts

namespace Parted

variable {parts parts' : List Span} {s t : Span}

theorem of_append (h : Parted (parts ++ parts')) : Parted parts ∧ Parted parts' := by
  obtain ⟨hfirst, hsecond, -⟩ := List.pairwise_append.mp h.apart
  exact ⟨⟨fun s hs => h.forward s (List.mem_append_left _ hs), hfirst⟩,
    ⟨fun s hs => h.forward s (List.mem_append_right _ hs), hsecond⟩⟩

/-- Where two of them stand, the first one ends before the second one starts. -/
theorem between (h : Parted (parts ++ parts')) (hs : s ∈ parts) (ht : t ∈ parts') :
    s.stop.offset ≤ t.start.offset :=
  (List.pairwise_append.mp h.apart).2.2 s hs t ht

/-- **The first one starts before all of them start,** and ends before all of them end. -/
theorem first_le (h : Parted (s :: parts)) (ht : t ∈ s :: parts) :
    s.start.offset ≤ t.start.offset ∧ s.stop.offset ≤ t.stop.offset := by
  have hs := h.forward s List.mem_cons_self
  have hforward := h.forward t ht
  rcases List.mem_cons.mp ht with rfl | ht
  · exact ⟨Nat.le_refl _, Nat.le_refl _⟩
  · have hle := (List.pairwise_cons.mp h.apart).1 t ht
    omega

/-- **The last one ends behind the ends of all of them.** -/
theorem le_last (h : Parted parts) (hl : parts.getLast? = some s) (ht : t ∈ parts) :
    t.stop.offset ≤ s.stop.offset := by
  obtain ⟨front, rfl⟩ := List.getLast?_eq_some_iff.mp hl
  rcases List.mem_append.mp ht with ht | ht
  · have hle := h.between ht List.mem_cons_self
    have hs := h.forward s (List.mem_append_right _ List.mem_cons_self)
    omega
  · obtain rfl := List.mem_singleton.mp ht
    exact Nat.le_refl _

end Parted

/-! ## 2. The stretches in a tree -/

/-- The stretch of a phrase, and those of its parts in the order of the text. -/
structure Phrase where
  span : Span
  parts : List Span

def Param.phrase (p : Param) : Phrase := ⟨p.span, []⟩

mutual
/-- **All phrases in an expression,** itself among them. -/
def Expr.phrases : Expr → List Phrase
  | .int node _ | .text node _ | .char node _ | .bool node _ | .name node _ => [⟨node.span, []⟩]
  | .binary node _ left right =>
    ⟨node.span, [left.span, right.span]⟩ :: (left.phrases ++ right.phrases)
  | .array node items => ⟨node.span, items.map Expr.span⟩ :: itemPhrases items
  | .hash node entries =>
    ⟨node.span, entries.flatMap fun e => [e.1.span, e.2.span]⟩ :: entryPhrases entries
  | .fn node params _ body =>
    ⟨node.span, params.map Param.span ++ [body.span]⟩ ::
      (params.map Param.phrase ++ body.phrases)
  | .index node target key =>
    ⟨node.span, [target.span, key.span]⟩ :: (target.phrases ++ key.phrases)
  | .call node callee args =>
    ⟨node.span, callee.span :: args.map Expr.span⟩ :: (callee.phrases ++ itemPhrases args)

/-- All phrases in a list of expressions. -/
def itemPhrases : List Expr → List Phrase
  | [] => []
  | e :: rest => e.phrases ++ itemPhrases rest

/-- All phrases in the entries of a hash. -/
def entryPhrases : List (Expr × Expr) → List Phrase
  | [] => []
  | (k, v) :: rest => k.phrases ++ v.phrases ++ entryPhrases rest

/-- **All phrases in a statement.** -/
def Stmt.phrases : Stmt → List Phrase
  | .declare span _ _ _ value | .print span value => ⟨span, [value.span]⟩ :: value.phrases
  | .returns span none => [⟨span, []⟩]
  | .returns span (some value) => ⟨span, [value.span]⟩ :: value.phrases
  | .expr value => value.phrases
  | .branch span condition yes none =>
    ⟨span, [condition.span, yes.span]⟩ :: (condition.phrases ++ yes.phrases)
  | .branch span condition yes (some no) =>
    ⟨span, [condition.span, yes.span, no.span]⟩ ::
      (condition.phrases ++ yes.phrases ++ no.phrases)
  | .block body => body.phrases

/-- **All phrases in a block.** -/
def Block.phrases : Block → List Phrase
  | .mk body span => ⟨span, body.map Stmt.span⟩ :: stmtPhrases body

/-- All phrases in a list of statements. -/
def stmtPhrases : List Stmt → List Phrase
  | [] => []
  | s :: rest => s.phrases ++ stmtPhrases rest
end

/-- All phrases in the declaration of a function. -/
def FunctionDecl.phrases (f : FunctionDecl) : List Phrase :=
  ⟨f.span, f.params.map Param.span ++ [f.body.span]⟩ ::
    (f.params.map Param.phrase ++ f.body.phrases)

/-! ## 3. Parts that were read from tokens -/

/-- The stretch starts where one of the tokens starts, and stops where one of them stops. -/
structure Span.From (s : Span) (ts : List Token) : Prop where
  start : ∃ a ∈ ts, s.start = a.span.start
  stop : ∃ b ∈ ts, s.stop = b.span.stop

/-- **The parts were read from the tokens,** and `all` are the phrases in them. Where the tokens
    stand one behind the other, so do the parts, and every phrase holds its own. -/
structure Laid (ts : List Token) (parts : List Span) (all : List Phrase) : Prop where
  parts_from : ∀ s ∈ parts, s.From ts
  all_from : ∀ n ∈ all, n.span.From ts
  parted : Parted (ts.map Token.span) → Parted parts
  holds : Parted (ts.map Token.span) → ∀ n ∈ all, n.span.Holds n.parts

variable {ts us : List Token} {parts parts' : List Span} {all all' : List Phrase} {s p q : Span}
  {o l : Token}

theorem Span.From.left (h : s.From ts) (us : List Token) : s.From (ts ++ us) :=
  ⟨h.start.imp fun _ ha => ⟨List.mem_append_left us ha.1, ha.2⟩,
    h.stop.imp fun _ hb => ⟨List.mem_append_left us hb.1, hb.2⟩⟩

theorem Span.From.right (h : s.From us) (ts : List Token) : s.From (ts ++ us) :=
  ⟨h.start.imp fun _ ha => ⟨List.mem_append_right ts ha.1, ha.2⟩,
    h.stop.imp fun _ hb => ⟨List.mem_append_right ts hb.1, hb.2⟩⟩

/-- A part ends before one that was read from later tokens starts. -/
theorem Span.From.before (hs : s.From ts) (hp : p.From us)
    (h : Parted ((ts ++ us).map Token.span)) : s.stop.offset ≤ p.start.offset := by
  obtain ⟨b, hb, hstop⟩ := hs.stop
  obtain ⟨a, ha, hstart⟩ := hp.start
  rw [List.map_append] at h
  rw [hstop, hstart]
  exact h.between (List.mem_map_of_mem hb) (List.mem_map_of_mem ha)

namespace Laid

/-- Tokens that hold no part. -/
theorem nil (ts : List Token) : Laid ts [] [] :=
  ⟨nofun, nofun, fun _ => ⟨nofun, .nil⟩, fun _ => nofun⟩

/-- **Parts behind other parts.** -/
theorem append (h : Laid ts parts all) (h' : Laid us parts' all') :
    Laid (ts ++ us) (parts ++ parts') (all ++ all') where
  parts_from s hs := by
    rcases List.mem_append.mp hs with hs | hs
    · exact (h.parts_from s hs).left us
    · exact (h'.parts_from s hs).right ts
  all_from n hn := by
    rcases List.mem_append.mp hn with hn | hn
    · exact (h.all_from n hn).left us
    · exact (h'.all_from n hn).right ts
  parted hp := by
    rw [List.map_append] at hp
    have hfirst := h.parted hp.of_append.1
    have hsecond := h'.parted hp.of_append.2
    refine ⟨fun s hs => ?_, List.pairwise_append.mpr ⟨hfirst.apart, hsecond.apart, ?_⟩⟩
    · rcases List.mem_append.mp hs with hs | hs
      · exact hfirst.forward s hs
      · exact hsecond.forward s hs
    · intro s hs t ht
      rw [← List.map_append] at hp
      exact (h.parts_from s hs).before (h'.parts_from t ht) hp
  holds hp n hn := by
    rw [List.map_append] at hp
    rcases List.mem_append.mp hn with hn | hn
    · exact h.holds hp.of_append.1 n hn
    · exact h'.holds hp.of_append.2 n hn

/-- Tokens behind the parts. -/
theorem token (h : Laid ts parts all) (us : List Token) : Laid (ts ++ us) parts all := by
  have happend := h.append (.nil us)
  rwa [List.append_nil, List.append_nil] at happend

/-- Tokens before the parts. -/
theorem behind (h : Laid us parts all) (ts : List Token) : Laid (ts ++ us) parts all :=
  (Laid.nil ts).append h

/-- One token that is a phrase. -/
theorem single (a : Token) : Laid [a] [a.span] [⟨a.span, []⟩] where
  parts_from s hs := by
    rw [List.mem_singleton.mp hs]
    exact ⟨⟨a, List.mem_cons_self, rfl⟩, ⟨a, List.mem_cons_self, rfl⟩⟩
  all_from n hn := by
    rw [List.mem_singleton.mp hn]
    exact ⟨⟨a, List.mem_cons_self, rfl⟩, ⟨a, List.mem_cons_self, rfl⟩⟩
  parted hp := hp
  holds hp n hn := by
    rw [List.mem_singleton.mp hn]
    exact ⟨hp.forward a.span List.mem_cons_self, nofun, nofun, .nil⟩

/-- **A phrase around its parts.** -/
theorem enclose (h : Laid ts parts all) (hs : s.From ts)
    (hholds : Parted (ts.map Token.span) → Parted parts → s.start.offset ≤ s.stop.offset ∧
      ∀ p ∈ parts, s.start.offset ≤ p.start.offset ∧ p.stop.offset ≤ s.stop.offset) :
    Laid ts [s] (⟨s, parts⟩ :: all) where
  parts_from t ht := by
    rwa [List.mem_singleton.mp ht]
  all_from n hn := by
    rcases List.mem_cons.mp hn with rfl | hn
    · exact hs
    · exact h.all_from n hn
  parted hp := by
    refine ⟨fun t ht => ?_, List.pairwise_singleton _ _⟩
    rw [List.mem_singleton.mp ht]
    exact (hholds hp (h.parted hp)).1
  holds hp n hn := by
    rcases List.mem_cons.mp hn with rfl | hn
    · obtain ⟨hforward, hwithin⟩ := hholds hp (h.parted hp)
      exact ⟨hforward, hwithin, h.parted hp⟩
    · exact h.holds hp n hn

/-- A part was read from some token. -/
theorem ne_nil (h : Laid ts (p :: parts) all) : ts ≠ [] := by
  obtain ⟨a, ha, -⟩ := (h.parts_from p List.mem_cons_self).start
  exact List.ne_nil_of_mem ha

/-- No part starts before the first token. -/
theorem start_le (h : Laid ts parts all) (ho : ts.head? = some o)
    (hp : Parted (ts.map Token.span)) (hs : s ∈ parts) :
    o.span.start.offset ≤ s.start.offset := by
  obtain ⟨us, rfl⟩ := List.head?_eq_some_iff.mp ho
  obtain ⟨a, ha, hstart⟩ := (h.parts_from s hs).start
  rw [hstart]
  exact (hp.first_le (List.mem_map_of_mem ha)).1

/-- No part ends behind the last token. -/
theorem stop_le (h : Laid ts parts all) (hl : ts.getLast? = some l)
    (hp : Parted (ts.map Token.span)) (hs : s ∈ parts) :
    s.stop.offset ≤ l.span.stop.offset := by
  obtain ⟨b, hb, hstop⟩ := (h.parts_from s hs).stop
  rw [hstop]
  refine hp.le_last ?_ (List.mem_map_of_mem hb)
  rw [List.getLast?_map, hl, Option.map_some]

/-- **A phrase from the first token to the last one.** -/
theorem whole (h : Laid ts parts all) (ho : ts.head? = some o) (hl : ts.getLast? = some l) :
    Laid ts [⟨o.span.start, l.span.stop⟩] (⟨⟨o.span.start, l.span.stop⟩, parts⟩ :: all) := by
  have hfirst := List.mem_of_head? ho
  have hlast := List.mem_of_getLast? hl
  refine h.enclose ⟨⟨o, hfirst, rfl⟩, ⟨l, hlast, rfl⟩⟩ fun hp _ => ⟨?_, fun p hs => ?_⟩
  · have hle : o.span.stop.offset ≤ l.span.stop.offset := by
      refine hp.le_last ?_ (List.mem_map_of_mem hfirst)
      rw [List.getLast?_map, hl, Option.map_some]
    have hforward := hp.forward o.span (List.mem_map_of_mem hfirst)
    exact Nat.le_trans hforward hle
  · exact ⟨h.start_le ho hp hs, h.stop_le hl hp hs⟩

/-- **A phrase from its first part to the last token.** -/
theorem onward (h : Laid ts (p :: parts) all) (hl : ts.getLast? = some l) :
    Laid ts [⟨p.start, l.span.stop⟩] (⟨⟨p.start, l.span.stop⟩, p :: parts⟩ :: all) := by
  have hfrom := h.parts_from p List.mem_cons_self
  refine h.enclose ⟨hfrom.start, ⟨l, List.mem_of_getLast? hl, rfl⟩⟩ fun hp hparts => ?_
  refine ⟨?_, fun q hq => ⟨(hparts.first_le hq).1, h.stop_le hl hp hq⟩⟩
  exact Nat.le_trans (hparts.forward p List.mem_cons_self) (h.stop_le hl hp List.mem_cons_self)

/-- **A phrase of two parts.** -/
theorem pair (h : Laid ts [p, q] all) :
    Laid ts [⟨p.start, q.stop⟩] (⟨⟨p.start, q.stop⟩, [p, q]⟩ :: all) := by
  have hp := h.parts_from p List.mem_cons_self
  have hq := h.parts_from q (List.mem_cons_of_mem _ List.mem_cons_self)
  refine h.enclose ⟨hp.start, hq.stop⟩ fun _ hparts => ?_
  have hle := hparts.first_le (List.mem_cons_of_mem _ List.mem_cons_self)
  have hforward := hparts.forward p List.mem_cons_self
  refine ⟨Nat.le_trans hforward hle.2, fun r hr => ⟨(hparts.first_le hr).1, ?_⟩⟩
  have hlast : r.stop.offset ≤ q.stop.offset := hparts.le_last rfl hr
  exact hlast

/-- **A phrase from the first token to its last part.** -/
theorem upTo (h : Laid ts (parts ++ [q]) all) (ho : ts.head? = some o) :
    Laid ts [⟨o.span.start, q.stop⟩] (⟨⟨o.span.start, q.stop⟩, parts ++ [q]⟩ :: all) := by
  have hmem : q ∈ parts ++ [q] := List.mem_append_right _ List.mem_cons_self
  have hfrom := h.parts_from q hmem
  refine h.enclose ⟨⟨o, List.mem_of_head? ho, rfl⟩, hfrom.stop⟩ fun hp hparts => ?_
  refine ⟨Nat.le_trans (h.start_le ho hp hmem) (hparts.forward q hmem), fun r hr => ?_⟩
  have hlast : r.stop.offset ≤ q.stop.offset := hparts.le_last List.getLast?_concat hr
  exact ⟨h.start_le ho hp hr, hlast⟩

end Laid

end Stackling
