import Stackling.Proofs.Syntax.Endings

/-
  File:     Stackling/Proofs/Syntax/Newlines.lean
  Subject:  A newline between two statements.

  A reader does not see newlines, but for a value behind a return. Two statements on lines of
  their own are read as what each of them is alone, unless the first one ends in an expression
  and the second one starts with a bracket: then both are read as a call or as an element.

  * `StatementText`             -- a text that is one statement, alone in a block;
  * `blockWith_eq_ok`, `stmtsWith_eq_ok` -- what blocks are made of;
  * `StatementText.reads`       -- the tokens of such a text, and the run that reads them;
  * `newline_separates`         -- two statements with a newline between them.
-/
namespace Stackling

open Parse

/-! ## 1. Statements as texts -/

/-- **A text is a block,** with nothing behind it. -/
def BlockText (source : String) (b : Block) : Prop :=
  ∃ tokens s, tokenize source = .ok tokens ∧
    readBlock (Stream.ofTokens .standard tokens) = .ok b s ∧ s.kind = .endOfText

/-- A text on lines of its own in a block. -/
def inBlock (text : String) : String := "\x7b\n" ++ text ++ "\n\x7d"

/-- **A text is one statement,** alone in a block. -/
def StatementText (text : String) (x : Stmt) : Prop :=
  ∃ span, BlockText (inBlock text) (.mk [x] span)

/-- The kinds of the words of a text. -/
def kindsOf (text : String) : List TokenKind :=
  match tokenize text with
  | .ok tokens => tokens.dropLast.map Token.kind
  | .error _ => []

/-! ## 2. Blocks -/

variable {fuel n : Nat} {s t u : Stream} {x : Stmt} {text : String} {ts us : List Token}

theorem expect_eq_ok {k : TokenKind} {o : Token} :
    expect k s = .ok o t ↔ s.kind = k ∧ o = s.current ∧ t = s.next := by
  have hrun : expect k s =
      (if s.kind = k then advance else unexpectedBecause ("expected " ++ k.name)) s := rfl
  rw [hrun]
  by_cases hk : s.kind = k
  · rw [if_pos hk]
    refine ⟨?_, ?_⟩
    · rintro ⟨⟩
      exact ⟨hk, rfl, rfl⟩
    · rintro ⟨-, rfl, rfl⟩
      rfl
  · rw [if_neg hk]
    exact ⟨fun h => absurd h (unexpectedBecause_fails _ s o t), fun h => absurd h.1 hk⟩

/-- **A block** is what stands between curly brackets. -/
theorem blockWith_eq_ok {b : Block} : blockWith (fuel + 1) s = .ok b u ↔
    ∃ xs t, s.kind = .openCurly ∧ stmtsWith fuel s.next = .ok xs t ∧ t.kind = .closeCurly ∧
      u = t.next ∧ b = .mk xs ⟨s.place, t.next.previousEnd⟩ := by
  rw [blockWith]
  constructor
  · intro h
    obtain ⟨o, v, ho, h⟩ := bind_eq_ok.mp h
    obtain ⟨hopen, rfl, rfl⟩ := expect_eq_ok.mp ho
    obtain ⟨xs, t, hxs, h⟩ := bind_eq_ok.mp h
    obtain ⟨c, v, hc, h⟩ := bind_eq_ok.mp h
    obtain ⟨hclose, rfl, rfl⟩ := expect_eq_ok.mp hc
    cases h
    exact ⟨xs, t, hopen, hxs, hclose, rfl, rfl⟩
  · rintro ⟨xs, t, hopen, hxs, hclose, rfl, rfl⟩
    refine bind_eq_ok.mpr ⟨_, _, expect_eq_ok.mpr ⟨hopen, rfl, rfl⟩, ?_⟩
    refine bind_eq_ok.mpr ⟨_, _, hxs, ?_⟩
    exact bind_eq_ok.mpr ⟨_, _, expect_eq_ok.mpr ⟨hclose, rfl, rfl⟩, rfl⟩

/-- **Statements** stand one behind the other, up to a closing bracket. -/
theorem stmtsWith_eq_ok {xs : List Stmt} : stmtsWith (fuel + 1) s = .ok xs u ↔
    s.kind = .closeCurly ∧ xs = [] ∧ u = s ∨
      s.kind ≠ .closeCurly ∧ ∃ x ys t, stmtWith fuel s = .ok x t ∧ stmtsWith fuel t = .ok ys u ∧
        xs = x :: ys := by
  rw [stmtsWith, bind_eq_ok]
  constructor
  · rintro ⟨_, _, ⟨⟩, h⟩
    by_cases hclose : s.kind = .closeCurly
    · rw [if_pos hclose] at h
      cases h
      exact .inl ⟨hclose, rfl, rfl⟩
    · rw [if_neg hclose] at h
      obtain ⟨x, t, hx, h⟩ := bind_eq_ok.mp h
      obtain ⟨ys, v, hys, ⟨⟩⟩ := bind_eq_ok.mp h
      exact .inr ⟨hclose, x, ys, t, hx, hys, rfl⟩
  · rintro (⟨hclose, rfl, rfl⟩ | ⟨hclose, x, ys, t, hx, hys, rfl⟩)
    · exact ⟨_, _, rfl, by rw [if_pos hclose]; rfl⟩
    · refine ⟨s, s, rfl, ?_⟩
      rw [if_neg hclose]
      exact bind_eq_ok.mpr ⟨x, t, hx, bind_eq_ok.mpr ⟨ys, u, hys, rfl⟩⟩

theorem stmtsWith_zero (xs : List Stmt) : stmtsWith 0 s ≠ .ok xs t := by
  rw [stmtsWith]
  exact unexpected_fails s xs t

/-- A block of one statement. -/
theorem blockWith_single {span : Span} (h : blockWith n s = .ok (.mk [x] span) u) :
    ∃ fuel t, n = fuel + 2 ∧ s.kind = .openCurly ∧ s.next.kind ≠ .closeCurly ∧
      stmtWith fuel s.next = .ok x t ∧ t.kind = .closeCurly ∧ u = t.next := by
  match n with
  | 0 =>
    rw [blockWith] at h
    exact absurd h (unexpected_fails s _ u)
  | 1 =>
    obtain ⟨xs, t, -, hxs, -⟩ := blockWith_eq_ok.mp h
    exact absurd hxs (stmtsWith_zero xs)
  | fuel + 2 =>
    obtain ⟨xs, v, hopen, hxs, hclose, rfl, heq⟩ := blockWith_eq_ok.mp h
    obtain rfl := (Block.mk.inj heq).1
    rcases stmtsWith_eq_ok.mp hxs with ⟨-, hnil, -⟩ | ⟨hnext, x', ys, t, hx, hys, heq⟩
    · cases hnil
    obtain ⟨rfl, rfl⟩ := List.cons.inj heq
    cases fuel with
    | zero => exact absurd hys (stmtsWith_zero [])
    | succ fuel =>
      rcases stmtsWith_eq_ok.mp hys with ⟨-, -, rfl⟩ | ⟨-, _, _, _, -, -, hcons⟩
      · exact ⟨_, v, rfl, hopen, hnext, hx, hclose, rfl⟩
      · cases hcons

/-- A block of two statements. -/
theorem blockWith_pair {y : Stmt} (hopen : s.kind = .openCurly) (hx : stmtWith (n + 1) s.next = .ok x t)
    (hs : s.next.kind ≠ .closeCurly) (hy : stmtWith n t = .ok y u) (ht : t.kind ≠ .closeCurly)
    (hclose : u.kind = .closeCurly) :
    ∃ span, blockWith (n + 3) s = .ok (.mk [x, y] span) u.next := by
  have hnil : stmtsWith n u = .ok [] u := by
    cases n with
    | zero =>
      rw [stmtWith] at hy
      exact absurd hy (unexpected_fails t y u)
    | succ n => exact stmtsWith_eq_ok.mpr (.inl ⟨hclose, rfl, rfl⟩)
  have htail := stmtsWith_eq_ok.mpr (.inr ⟨ht, y, [], u, hy, hnil, rfl⟩)
  have hboth := stmtsWith_eq_ok.mpr (.inr ⟨hs, x, [y], t, hx, htail, rfl⟩)
  exact ⟨_, blockWith_eq_ok.mpr ⟨[x, y], u, hopen, hboth, hclose, rfl, rfl⟩⟩

/-- What a statement starts with. -/
theorem stmtWith_start (hg : s.grammar = .standard) (h : stmtWith fuel s = .ok x t) :
    (Grammar.standard.stmt? s.kind).isSome = true ∨
      (Grammar.standard.head? s.kind).isSome = true := by
  cases fuel with
  | zero =>
    rw [stmtWith] at h
    exact absurd h (unexpected_fails s x t)
  | succ fuel =>
    obtain ⟨u, hu, -⟩ := stmtWith_eq_ok.mp h
    rw [hg] at hu
    cases hrule : Grammar.standard.stmt? s.kind with
    | some rule => exact .inl rfl
    | none =>
      rw [hrule] at hu
      obtain ⟨e, he, -⟩ := map_eq_ok.mp (show (Stmt.expr <$> exprWith fuel .default) s = .ok x u from hu)
      cases hhead : Grammar.standard.head? s.kind with
      | some rule => exact .inr rfl
      | none => exact absurd he (exprWith_fails hg hhead fuel .default e u)

/-- **What starts a statement goes on with none,** but for a parenthesis and a bracket. -/
theorem kind_of_start {k : TokenKind} (h : (Grammar.standard.stmt? k).isSome = true ∨
    (Grammar.standard.head? k).isSome = true) : k ≠ .closeCurly ∧ k ≠ .semicolon ∧
      k ≠ .elseWord ∧ (EndsExpr k ∨ k = .openParen ∨ k = .openBracket) := by
  unfold EndsExpr
  cases k <;> revert h <;> decide

/-! ## 3. The tokens of a statement -/

/-- The place behind the opening of a block, and the bracket before it. -/
def blockStart : Position := Position.origin.pastAll ['\x7b', '\n']

def blockOpening : Token := ⟨.openCurly, "\x7b", ⟨.origin, Position.origin.pastAll ['\x7b']⟩⟩

/-- The characters of a text and of the newline behind it. -/
def lineOf (text : String) : List Char := text.toList ++ ['\n']

theorem lines_lineOf (text : String) : Lines (lineOf text) := .inr List.getLast?_concat

theorem lineOf_append (text after : String) :
    lineOf (text ++ "\n" ++ after) = lineOf text ++ lineOf after := by
  simp [lineOf]

theorem tokenize_inBlock (text : String) : tokenize (inBlock text) =
    (readFrom blockStart (lineOf text ++ ['\x7d'])).map (blockOpening :: ·) := by
  have hsource : (inBlock text).toList = '\x7b' :: '\n' :: (lineOf text ++ ['\x7d']) := by
    simp [inBlock, lineOf]
  rw [tokenize_eq, hsource, readFrom_token (rfl : scan '\x7b' _ = .token .openCurly "\x7b" ['\x7b'] _),
    readFrom_blank rfl]
  rfl

/-- **The run that reads a statement** of a block, and the tokens that it takes. -/
structure StatementRun (text : String) (x : Stmt) (ts : List Token) (fuel : Nat) (s t : Stream) :
    Prop where
  alone : readFrom blockStart (lineOf text) =
    .ok (ts ++ [Token.finish (blockStart.pastAll (lineOf text))])
  closed : readFrom blockStart (lineOf text ++ ['\x7d']) =
    .ok (ts ++ closing (blockStart.pastAll (lineOf text)))
  whole : s.Whole
  takes : Takes ts s t
  behind : t.left = closing (blockStart.pastAll (lineOf text))
  run : stmtWith fuel s = .ok x t
  fuel : fuel = 8 * ts.length + 30

theorem getLast?_closing (ts : List Token) (q : Position) :
    (ts ++ closing q).getLast?.map Token.kind = some .endOfText := by
  have hne : closing q ≠ [] := List.cons_ne_nil _ _
  rw [List.getLast?_append_of_ne_nil _ hne]
  rfl

/-- The token that ends a text stands only at its end. -/
theorem eq_of_finish {c e : Token} {more : List Token} {q : Position}
    (h : us ++ c :: e :: more = ts ++ closing q) (he : e.kind = .endOfText)
    (hts : ∀ v ∈ ts, v.kind ≠ .endOfText) : us = ts ∧ c :: e :: more = closing q := by
  cases more with
  | nil => exact List.append_inj' h rfl
  | cons m ms =>
    have hmem : e ∈ (us ++ c :: e :: m :: ms).dropLast := by simp
    rw [h, closing, List.dropLast_append_of_ne_nil (List.cons_ne_nil _ _)] at hmem
    rcases List.mem_append.mp hmem with hmem | hmem
    · exact absurd he (hts e hmem)
    · rw [List.mem_singleton.mp hmem] at he
      cases he

/-- **A statement alone in a block** is read by such a run. -/
theorem StatementText.reads (h : StatementText text x) :
    ∃ ts fuel s t, StatementRun text x ts fuel s t := by
  obtain ⟨span, tokens, u, htokens, hread, hend⟩ := h
  rw [tokenize_inBlock] at htokens
  cases hbody : readFrom blockStart (lineOf text ++ ['\x7d']) with
  | error e =>
    rw [hbody] at htokens
    cases htokens
  | ok body =>
    rw [hbody] at htokens
    obtain rfl := Except.ok.inj htokens
    obtain ⟨ts, behind, halone, hclosing, rfl⟩ :=
      readFrom_cut (.inr ⟨rfl, lines_lineOf text⟩) hbody
    obtain rfl : closing _ = behind := Except.ok.inj hclosing
    obtain ⟨hwhole, hleft⟩ := Stream.ofTokens_whole
      (getLast?_closing (blockOpening :: ts) (blockStart.pastAll (lineOf text)))
    have hread : readBlock (.ofTokens .standard (blockOpening :: ts ++ closing _)) = _ := hread
    generalize Stream.ofTokens .standard _ = s at hread hwhole hleft
    obtain ⟨fuel, t, hfuel, hopen, hnext, hx, hclose, rfl⟩ := blockWith_single hread
    obtain ⟨hwhole', hcons⟩ := hwhole.next (by rw [hopen]; decide)
    obtain ⟨hwholeT, us, htakes, -⟩ :=
      (retraced (Nat.le_refl fuel) : Retraced 0 fuel fuel).stmt s.next s.next hwhole' x t hx
    obtain ⟨-, hconsT⟩ := hwholeT.next (by rw [hclose]; decide)
    have hall : us ++ t.current :: t.next.left =
        ts ++ closing (blockStart.pastAll (lineOf text)) := by
      rw [← hconsT, ← htakes.left]
      exact (List.cons.inj (hcons.symm.trans hleft)).2
    obtain ⟨rfl, hbehind⟩ := eq_of_finish hall hend fun v hv =>
      (readFrom_above (lines_lineOf text) halone v hv).2
    refine ⟨us, fuel, s.next, t, halone, hbody, hwhole', htakes, hconsT.trans hbehind, hx, ?_⟩
    have hsize : s.size = us.length + 3 := by
      rw [← s.length_left, hleft]
      simp [closing]
    have hbudget : 8 * (s.size + 1) = fuel + 2 := hfuel
    omega

namespace StatementRun

/-- The words of the text are those of the run. -/
theorem kindsOf_eq (h : StatementRun text x ts fuel s t) : kindsOf text = ts.map Token.kind := by
  obtain ⟨us, behind, hus, hnewline, heq⟩ := readFrom_cut (.inl rfl) h.alone
  rw [readFrom_blank rfl, readFrom_nil] at hnewline
  obtain rfl := Except.ok.inj hnewline
  obtain ⟨rfl, -⟩ := List.append_inj' heq rfl
  have hline := Nat.add_comm Position.origin.line blockStart.line
  obtain ⟨moved, hmoved, hwords⟩ := readFrom_relocated hline hus
  have hkinds : List.Forall₂ (· = ·) ((ts ++ [Token.finish _]).map Token.kind)
      (moved.map Token.kind) :=
    List.forall₂_map_left_iff.mpr (List.forall₂_map_right_iff.mpr
      (hwords.imp fun _ _ h => (congrArg Word.kind h.word).symm))
  rw [List.forall₂_eq_eq_eq] at hkinds
  rw [kindsOf, tokenize_eq, hmoved]
  show moved.dropLast.map Token.kind = _
  rw [List.map_dropLast, ← hkinds, List.map_append, List.map_singleton, List.dropLast_concat]

/-- The run takes a token, and starts with what may start a statement. -/
theorem start (h : StatementRun text x ts fuel s t) : ∃ b bs, ts = b :: bs ∧
    b.kind ≠ .closeCurly ∧ b.kind ≠ .semicolon ∧ b.kind ≠ .elseWord ∧
      (EndsExpr b.kind ∨ b.kind = .openParen ∨ b.kind = .openBracket) := by
  have hstart := kind_of_start (stmtWith_start h.whole.grammar h.run)
  have hleft := h.takes.left
  cases ts with
  | nil =>
    have hcurrent : s.current = _ := (List.cons.inj (hleft.trans h.behind)).1
    exact absurd (congrArg Token.kind hcurrent) hstart.1
  | cons b bs =>
    have hcurrent : s.current = b := (List.cons.inj hleft).1
    exact ⟨b, bs, rfl, hcurrent ▸ hstart⟩

/-- None of its tokens opens a comment. -/
theorem plain (h : StatementRun text x ts fuel s t) : ts.IsChain NoComment :=
  (List.isChain_append.mp h.takes.plain).1

end StatementRun

/-! ## 4. Two statements -/

section Pair

variable {first second : String} {y : Stmt} {fuel' : Nat} {s' t' : Stream} {rest : List Token}

/-- **The tokens of two statements** with a newline between them. -/
theorem StatementRun.tokens (hx : StatementRun first x ts fuel s t)
    (hy : StatementRun second y us fuel' s' t') :
    ∃ vs c e, readFrom blockStart (lineOf (first ++ "\n" ++ second) ++ ['\x7d']) =
        .ok (ts ++ (vs ++ [c, e])) ∧
      List.Forall₂ (Lowered (newlines (lineOf first))) us vs ∧
      Lowered (newlines (lineOf first)) t'.current c ∧ e.kind = .endOfText ∧
      ∀ v ∈ ts, ∀ w ∈ vs ++ [c, e], v.span.line < w.span.line := by
  have hline := blockStart.pastAll_line (lineOf first)
  obtain ⟨moved, hmoved, hwords⟩ := readFrom_relocated (k := 0) hline hy.closed
  obtain ⟨vs, cs, rfl, hvs, hcs⟩ := forall₂_split hwords
  cases hcs with
  | @cons _ c _ _ hc hcs =>
    cases hcs with
    | @cons _ e _ _ he hnil =>
      cases hnil
      refine ⟨vs, c, e, ?_, hvs.imp fun _ _ h => h.lowered, ?_, congrArg Word.kind he.word,
        fun v hv w hw => ?_⟩
      · rw [lineOf_append, List.append_assoc, readFrom_lines (lines_lineOf first) hx.alone hx.plain,
          hmoved]
        rfl
      · exact (List.cons.inj hy.behind).1 ▸ hc.lowered
      · exact Nat.lt_of_lt_of_le (readFrom_above (lines_lineOf first) hx.alone v hv).1
          (readFrom_behind hmoved w hw)

/-- The first statement is read before what may follow it on a later line. -/
theorem StatementRun.before (hx : StatementRun first x ts fuel s t) (hle : fuel ≤ n)
    (hg : s'.grammar = .standard) (hleft : s'.left = ts ++ rest) (hsize : 2 ≤ rest.length)
    {b : Token} (hb : rest.head? = some b)
    (hfollow : MayFollow x (kindsOf first).getLast? b.kind)
    (hline : ∀ v ∈ ts, v.span.line ≠ b.span.line) :
    ∃ x' u, stmtWith n s' = .ok x' u ∧ x'.bare = x.bare ∧ u.grammar = .standard ∧
      u.left = rest := by
  have hclose : t.kind = .closeCurly := congrArg Token.kind (List.cons.inj hx.behind).1
  rw [hx.kindsOf_eq, List.getLast?_map] at hfollow
  have halong : Along 0 (MayFollow x (ts.getLast?.map Token.kind)) ts t ts rest s' :=
    { grammar := hg
      left := hleft
      lowered := List.forall₂_same.mpr fun _ _ => ⟨rfl, rfl⟩
      size := by rwa [hx.behind]
      joins := ⟨b, hb, .inr ⟨hclose, hfollow, hline⟩⟩ }
  exact stmtWith_follows hle hx.whole hx.run hx.takes halong

/-- The second statement is read further down, before a bracket that closes the block. -/
theorem StatementRun.below {lines : Nat} {vs : List Token} {u : Stream}
    (hy : StatementRun second y us fuel s t) (hle : fuel ≤ n)
    (hg : u.grammar = .standard) (hleft : u.left = vs ++ rest) (hsize : 2 ≤ rest.length)
    (hvs : List.Forall₂ (Lowered lines) us vs) {c : Token} (hc : rest.head? = some c)
    (hclose : Lowered lines t.current c) :
    ∃ y' v, stmtWith n u = .ok y' v ∧ y'.bare = y.bare ∧ v.grammar = .standard ∧
      v.left = rest :=
  ((retraced hle).stmt s u).along hy.whole hy.run hy.takes
    { grammar := hg
      left := hleft
      lowered := hvs
      size := by rwa [hy.behind]
      joins := ⟨c, hc, .inl hclose⟩ }

/-- What the second statement starts with may follow the first one. -/
theorem StatementRun.mayFollow (hy : StatementRun second y us fuel' s' t')
    (hends : x.endsInExpr = true →
      (kindsOf second).head? = some .openParen ∨ (kindsOf second).head? = some .openBracket →
      (kindsOf first).getLast? = some .semicolon) :
    ∃ b bs, us = b :: bs ∧ b.kind ≠ .closeCurly ∧ MayFollow x (kindsOf first).getLast? b.kind := by
  obtain ⟨b, bs, rfl, hclosed, hsemi, helse, hstart⟩ := hy.start
  refine ⟨b, bs, rfl, hclosed, hsemi, helse, fun hopen => ?_⟩
  rw [hy.kindsOf_eq] at hends
  rcases hstart with hno | hyes
  · exact .inr hno
  · exact .inl (hends hopen (hyes.imp (congrArg some) (congrArg some)))

/-- **The two statements are read in one block.** -/
theorem StatementRun.readBlock_pair {lines : Nat} {b c e : Token} {bs vs : List Token} {o : Stream}
    (hx : StatementRun first x ts fuel s t) (hy : StatementRun second y (b :: bs) fuel' s' t')
    (ho : o.Whole) (hleft : o.left = blockOpening :: (ts ++ (vs ++ [c, e])))
    (hvs : List.Forall₂ (Lowered lines) (b :: bs) vs) (hc : Lowered lines t'.current c)
    (hlines : ∀ v ∈ ts, ∀ w ∈ vs, v.span.line < w.span.line) (hclosed : b.kind ≠ .closeCurly)
    (hfollow : MayFollow x (kindsOf first).getLast? b.kind) :
    ∃ x' y' span u, readBlock o = .ok (.mk [x', y'] span) u ∧ u.left = [e] ∧
      x'.bare = x.bare ∧ y'.bare = y.bare := by
  obtain ⟨a, as, rfl, hnone, -⟩ := hx.start
  obtain ⟨b', bs', hb, hbs, rfl⟩ := List.forall₂_cons_left_iff.mp hvs
  have hbkind : b'.kind = b.kind := congrArg Word.kind hb.word
  have hckind : c.kind = .closeCurly :=
    (congrArg Word.kind hc.word).trans (congrArg Token.kind (List.cons.inj hy.behind).1)
  have hopen : o.kind = .openCurly := congrArg Token.kind (List.cons.inj hleft).1
  obtain ⟨ho', hcons⟩ := ho.next (by rw [hopen]; decide)
  have hnext : o.next.left = a :: as ++ (b' :: bs' ++ [c, e]) :=
    (List.cons.inj (hcons.symm.trans hleft)).2
  have hsize : o.size = as.length + bs.length + 5 := by
    rw [← o.length_left, hleft, hbs.length_eq]
    simp
    omega
  obtain ⟨n, hn⟩ : ∃ n, o.budget = n + 3 := ⟨8 * (as.length + bs.length) + 45, by
    rw [Stream.budget, hsize]
    omega⟩
  have hfuel : fuel ≤ n + 1 ∧ fuel' ≤ n := by
    have hone := hx.fuel
    have htwo := hy.fuel
    rw [Stream.budget, hsize] at hn
    rw [List.length_cons] at hone htwo
    omega
  obtain ⟨x', u, hx', hbare, hg, hleft'⟩ := hx.before hfuel.1 ho'.grammar hnext (by simp) rfl
    (hbkind ▸ hfollow) fun v hv => (hlines v hv b' List.mem_cons_self).ne
  obtain ⟨y', v, hy', hbare', -, hleft''⟩ := hy.below hfuel.2 hg hleft' (by simp) hvs rfl hc
  have hs : o.next.kind ≠ .closeCurly := by
    rwa [Stream.kind, (List.cons.inj hnext).1]
  have ht : u.kind ≠ .closeCurly := by
    rwa [Stream.kind, (List.cons.inj hleft').1, hbkind]
  have hclose : v.kind = .closeCurly := (congrArg Token.kind (List.cons.inj hleft'').1).trans hckind
  obtain ⟨span, hrun⟩ := blockWith_pair hopen hx' hs hy' ht hclose
  refine ⟨x', y', span, v.next, ?_, Stream.left_next hleft'', hbare, hbare'⟩
  show blockWith o.budget o = _
  rw [hn, hrun]

end Pair

/-- **A newline separates two statements,** unless the first one ends in an expression, with no
    semicolon behind it, and the second one starts with a parenthesis or a bracket. -/
theorem newline_separates {first second : String} {x y : Stmt} (hx : StatementText first x)
    (hy : StatementText second y)
    (hends : x.endsInExpr = true →
      (kindsOf second).head? = some .openParen ∨ (kindsOf second).head? = some .openBracket →
      (kindsOf first).getLast? = some .semicolon) :
    ∃ x' y' span, BlockText (inBlock (first ++ "\n" ++ second)) (.mk [x', y'] span) ∧
      x'.bare = x.bare ∧ y'.bare = y.bare := by
  obtain ⟨ts, fuel, s, t, hfirst⟩ := hx.reads
  obtain ⟨us, fuel', s', t', hsecond⟩ := hy.reads
  obtain ⟨b, bs, rfl, hclosed, hfollow⟩ := hsecond.mayFollow hends
  obtain ⟨vs, c, e, hread, hvs, hc, he, hlines⟩ := hfirst.tokens hsecond
  have htokens : tokenize (inBlock (first ++ "\n" ++ second)) =
      .ok (blockOpening :: (ts ++ (vs ++ [c, e]))) := by
    rw [tokenize_inBlock, hread]
    rfl
  have hlast : (blockOpening :: (ts ++ (vs ++ [c, e]))).getLast?.map Token.kind =
      some .endOfText := by
    have hwhole : blockOpening :: (ts ++ (vs ++ [c, e])) = blockOpening :: ts ++ vs ++ [c] ++ [e] := by
      simp
    rw [hwhole, List.getLast?_concat]
    exact congrArg some he
  obtain ⟨hwhole, hleft⟩ := Stream.ofTokens_whole hlast
  obtain ⟨x', y', span, u, hrun, hend, hbare⟩ := hfirst.readBlock_pair hsecond hwhole hleft hvs hc
    (fun v hv w hw => hlines v hv w (List.mem_append_left _ hw)) hclosed hfollow
  have hlast : u.kind = .endOfText := (congrArg Token.kind (List.cons.inj hend).1).trans he
  exact ⟨x', y', span, ⟨_, u, htokens, hrun, hlast⟩, hbare⟩

/-- A name in parentheses is a statement. -/
theorem group_statement : StatementText "(b)" (.expr (.name ⟨0, ⟨⟨3, 2⟩, ⟨4, 2⟩⟩⟩ "b")) := by
  have htokens : tokenize (inBlock "(b)") = .ok [blockOpening, ⟨.openParen, "(", ⟨⟨2, 2⟩, ⟨3, 2⟩⟩⟩,
    ⟨.identifier, "b", ⟨⟨3, 2⟩, ⟨4, 2⟩⟩⟩, ⟨.closeParen, ")", ⟨⟨4, 2⟩, ⟨5, 2⟩⟩⟩,
    ⟨.closeCurly, "\x7d", ⟨⟨6, 3⟩, ⟨7, 3⟩⟩⟩, .finish ⟨7, 3⟩] := rfl
  exact ⟨⟨⟨0, 1⟩, ⟨7, 3⟩⟩, _, _, htokens, rfl, rfl⟩

/-- A semicolon keeps it apart from a name before it. -/
theorem semicolon_separates : ∃ x y, StatementText "a;" x ∧ StatementText "(b)" y ∧
    ∃ x' y' span, BlockText (inBlock ("a;" ++ "\n" ++ "(b)")) (.mk [x', y'] span) ∧
      x'.bare = x.bare ∧ y'.bare = y.bare := by
  have htokens : tokenize (inBlock "a;") = .ok [blockOpening, ⟨.identifier, "a", ⟨⟨2, 2⟩, ⟨3, 2⟩⟩⟩,
    ⟨.semicolon, ";", ⟨⟨3, 2⟩, ⟨4, 2⟩⟩⟩, ⟨.closeCurly, "\x7d", ⟨⟨5, 3⟩, ⟨6, 3⟩⟩⟩,
    .finish ⟨6, 3⟩] := rfl
  have hx : StatementText "a;" (.expr (.name ⟨0, ⟨⟨2, 2⟩, ⟨3, 2⟩⟩⟩ "a")) :=
    ⟨⟨⟨0, 1⟩, ⟨6, 3⟩⟩, _, _, htokens, rfl, rfl⟩
  exact ⟨_, _, hx, group_statement, newline_separates hx group_statement fun _ _ => rfl⟩

/-- The tokens of a block with a name on one line and a name in parentheses on the next. -/
def joinedTokens : List Token :=
  [blockOpening, ⟨.identifier, "a", ⟨⟨2, 2⟩, ⟨3, 2⟩⟩⟩, ⟨.openParen, "(", ⟨⟨4, 3⟩, ⟨5, 3⟩⟩⟩,
    ⟨.identifier, "b", ⟨⟨5, 3⟩, ⟨6, 3⟩⟩⟩, ⟨.closeParen, ")", ⟨⟨6, 3⟩, ⟨7, 3⟩⟩⟩,
    ⟨.closeCurly, "\x7d", ⟨⟨8, 4⟩, ⟨9, 4⟩⟩⟩, .finish ⟨9, 4⟩]

/-- Without the semicolon the two of them are read as a call. -/
theorem newline_joins_call : ∃ x y, StatementText "a" x ∧ StatementText "(b)" y ∧
    ¬ ∃ x' y' span, BlockText (inBlock ("a" ++ "\n" ++ "(b)")) (.mk [x', y'] span) := by
  have hname : tokenize (inBlock "a") = .ok [blockOpening, ⟨.identifier, "a", ⟨⟨2, 2⟩, ⟨3, 2⟩⟩⟩,
    ⟨.closeCurly, "\x7d", ⟨⟨4, 3⟩, ⟨5, 3⟩⟩⟩, .finish ⟨5, 3⟩] := rfl
  have hx : StatementText "a" (.expr (.name ⟨0, ⟨⟨2, 2⟩, ⟨3, 2⟩⟩⟩ "a")) :=
    ⟨⟨⟨0, 1⟩, ⟨5, 3⟩⟩, _, _, hname, rfl, rfl⟩
  refine ⟨_, _, hx, group_statement, ?_⟩
  rintro ⟨x', y', span, tokens, s, htokens, hrun, -⟩
  have hjoined : tokenize (inBlock ("a" ++ "\n" ++ "(b)")) = .ok joinedTokens := rfl
  obtain rfl := Except.ok.inj (htokens.symm.trans hjoined)
  -- the block has one statement, and not two
  have hcall : readBlock (.ofTokens .standard joinedTokens) = .ok (.mk [.expr
      (.call ⟨2, ⟨⟨2, 2⟩, ⟨7, 3⟩⟩⟩ (.name ⟨0, ⟨⟨2, 2⟩, ⟨3, 2⟩⟩⟩ "a")
        [.name ⟨1, ⟨⟨5, 3⟩, ⟨6, 3⟩⟩⟩ "b"])] ⟨⟨0, 1⟩, ⟨9, 4⟩⟩) _ := rfl
  cases hcall.symm.trans hrun

end Stackling
