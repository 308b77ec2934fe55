import Stackling.Proofs.Syntax.Nesting
import Stackling.Proofs.Syntax.Taking

/-
  File:     Stackling/Proofs/Syntax/Walking.lean
  Subject:  What every reader takes, and what it makes of it.

  Every phrase takes a token or more, and its stretches are put together from the ends of the
  tokens it took. The readers nest, so there is one induction on the fuel over all of them. The
  fuel does not matter here: a reader that has used it up fails where it stands.

  * `Walked`, `walked`   -- all readers of one fuel, and of any;
  * `itemsOf_walks`      -- what stands at top level;
  * `readProgram_ok`, `readProgram_error` -- a whole program, and the place of an error.
-/
namespace Stackling

open Parse

variable {α : Type} {ts us before : List Token} {s t u : Stream}

/-! ## 1. Annotations and parameters -/

/-- **Phrases with commas between them,** if each of them is laid. -/
theorem list_walks {fuel : Nat} {item : Nat → Parse α} {list : Nat → Parse (List α)}
    {closing : TokenKind} (hlist : ListReader item closing list)
    {parts : α → List Span} {all : α → List Phrase}
    (hitem : ∀ s, Walks [] (item fuel) (fun ts x => Laid ts (parts x) (all x)) s)
    (hrest : ∀ s, Walks [] (list fuel)
      (fun ts xs => Laid ts (xs.flatMap parts) (xs.flatMap all)) s) :
    Walks [] (list (fuel + 1)) (fun ts xs => Laid ts (xs.flatMap parts) (xs.flatMap all)) s := by
  rw [hlist]
  refine .look ?_
  by_cases hclose : s.kind = closing
  · rw [if_pos hclose]
    exact .pure (.nil [])
  · rw [if_neg hclose]
    refine .part (hitem s) fun us x t _ hx => ?_
    refine .eat (by decide) (fun a t => .part (hrest t) fun vs xs t _ hxs => .pure ?_) (.pure ?_)
    · exact (hx.token [a]).append hxs
    · rw [List.flatMap_singleton, List.flatMap_singleton]
      exact hx

mutual
/-- **A type annotation takes a token or more.** -/
theorem typeWith_walks : (fuel : Nat) → ∀ s, Walks [] (typeWith fuel) TakesSome s
  | 0 => fun s => by
    rw [typeWith]
    exact .unexpected
  | fuel + 1 => fun s => by
    have hlast : ∀ before : List Token, before ++ [s.current] ≠ [] := fun before =>
      List.append_ne_nil_of_right_ne_nil _ (List.cons_ne_nil _ _)
    rw [typeWith]
    refine .whole fun hs => .look ?_
    rw [hs.grammar]
    cases hrule : Grammar.standard.type? s.kind with
    | none => exact .unexpectedBecause
    | some rule =>
      cases rule with
      | named =>
        refine .token (by decide) fun token t _ => ?_
        split
        any_goals exact .pure (List.cons_ne_nil _ _)
        · refine .token (by decide) fun a t _ => ?_
          refine .part (typeWith_walks fuel t) fun us e t _ _ => ?_
          exact .token (by decide) fun b t _ => .pure (List.cons_ne_nil _ _)
        · refine .token (by decide) fun a t _ => ?_
          refine .part (typeWith_walks fuel t) fun us k t _ _ => .token (by decide) fun b t _ => ?_
          refine .part (typeWith_walks fuel t) fun vs v t _ _ => ?_
          exact .token (by decide) fun b t _ => .pure (List.cons_ne_nil _ _)
        · exact .failAt ⟨token, List.mem_cons_self, rfl⟩
      | function =>
        refine .token (by decide) fun a t _ => .token (by decide) fun b t _ => ?_
        refine .part (typesWith_walks fuel t) fun us ps t _ _ => .token (by decide) fun c t _ => ?_
        refine .token (by decide) fun d t _ => .part (typeWith_walks fuel t) fun vs r t _ _ => ?_
        exact .pure (List.cons_ne_nil _ _)

theorem typesWith_walks : (fuel : Nat) → ∀ s, Walks [] (typesWith fuel)
    (fun ts xs => Laid ts (xs.flatMap fun _ => []) (xs.flatMap fun _ => [])) s
  | 0 => fun s => by
    rw [typesWith]
    exact .unexpected
  | fuel + 1 => fun s => by
    refine list_walks typesWith_lists (fun s => ?_) (typesWith_walks fuel)
    exact (typeWith_walks fuel s).mono fun ts _ _ => .nil ts
end

theorem readType_walks (s : Stream) : Walks [] readType TakesSome s :=
  .look (typeWith_walks s.budget s)

/-- A parameter is laid from its name to its annotation. -/
theorem readParam_walks (s : Stream) :
    Walks [] readParam (fun ts p => Laid ts [p.span] [p.phrase]) s := by
  unfold readParam
  refine .token (by decide) fun name t _ => .token (by decide) fun colon t _ => ?_
  refine .part (readType_walks t) fun us written t _ _ => ?_
  refine .span (List.cons_ne_nil _ _) fun l hl => .pure ?_
  exact (Laid.nil _).whole rfl hl

theorem paramsWith_walks (fuel : Nat) (s : Stream) : Walks [] (paramsWith fuel)
    (fun ts ps => Laid ts (ps.flatMap fun p => [p.span]) (ps.flatMap fun p => [p.phrase])) s := by
  induction fuel generalizing s with
  | zero => exact .unexpected
  | succ fuel ih =>
    exact list_walks paramsWith_lists readParam_walks ih

/-- **Parameters are laid,** and their parentheses are taken. -/
theorem readParams_walks (s : Stream) : Walks [] readParams
    (fun ts ps => ts ≠ [] ∧ Laid ts (ps.map Param.span) (ps.map Param.phrase)) s := by
  unfold readParams
  refine .token (by decide) fun a t _ => .look (.part (paramsWith_walks t.budget t) ?_)
  refine fun us ps t _ hps => .token (by decide) fun b t _ => .pure ⟨List.cons_ne_nil _ _, ?_⟩
  rw [← List.map_eq_flatMap, ← List.map_eq_flatMap] at hps
  exact (hps.behind [a]).token [b]

/-! ## 2. Expressions, statements and blocks -/

/-- **An expression that was read from the tokens.** -/
def LaidExpr (ts : List Token) (e : Expr) : Prop := Laid ts [e.span] e.phrases

/-- A statement that was read from the tokens. -/
def LaidStmt (ts : List Token) (s : Stmt) : Prop := Laid ts [s.span] s.phrases

/-- A block that was read from the tokens. -/
def LaidBlock (ts : List Token) (b : Block) : Prop := Laid ts [b.span] b.phrases

/-- **All readers of some fuel,** behind some tokens where a phrase has been started. -/
structure Walked (fuel : Nat) : Prop where
  expr (power : Power) (s : Stream) : Walks [] (exprWith fuel power) LaidExpr s
  head (s : Stream) : Walks [] (headWith fuel) LaidExpr s
  tails (power : Power) (left : Expr) (before : List Token) (s : Stream) :
    LaidExpr before left → Walks before (tailsWith fuel power left) LaidExpr s
  items (closing : TokenKind) (s : Stream) : Walks [] (itemsWith fuel closing)
    (fun ts xs => Laid ts (xs.flatMap fun e => [e.span]) (xs.flatMap Expr.phrases)) s
  entries (s : Stream) : Walks [] (entriesWith fuel)
    (fun ts xs => Laid ts (xs.flatMap fun e => [e.1.span, e.2.span])
      (xs.flatMap fun e => e.1.phrases ++ e.2.phrases)) s
  block (s : Stream) : Walks [] (blockWith fuel) LaidBlock s
  stmts (s : Stream) : Walks [] (stmtsWith fuel)
    (fun ts xs => Laid ts (xs.map Stmt.span) (stmtPhrases xs)) s
  stmt (s : Stream) : Walks [] (stmtWith fuel) LaidStmt s
  declaration (s : Stream) : Grammar.standard.stmt? s.kind = some .declaration →
    Walks [] (declarationWith fuel) LaidStmt s
  branch (s : Stream) : Grammar.standard.stmt? s.kind = some .branch →
    Walks [] (branchWith fuel) LaidStmt s
  returns (s : Stream) : Grammar.standard.stmt? s.kind = some .returns →
    Walks [] (returnWith fuel) LaidStmt s
  print (s : Stream) : Grammar.standard.stmt? s.kind = some .print →
    Walks [] (printWith fuel) LaidStmt s

theorem walked_zero : Walked 0 where
  expr _ _ := by
    rw [exprWith]
    exact .unexpected
  head _ := by
    rw [headWith]
    exact .unexpected
  tails _ _ _ _ _ := by
    rw [tailsWith]
    exact .unexpected
  items _ _ := by
    rw [itemsWith]
    exact .unexpected
  entries _ := by
    rw [entriesWith]
    exact .unexpected
  block _ := by
    rw [blockWith]
    exact .unexpected
  stmts _ := by
    rw [stmtsWith]
    exact .unexpected
  stmt _ := by
    rw [stmtWith]
    exact .unexpected
  declaration _ _ := by
    rw [declarationWith]
    exact .unexpected
  branch _ _ := by
    rw [branchWith]
    exact .unexpected
  returns _ _ := by
    rw [returnWith]
    exact .unexpected
  print _ _ := by
    rw [printWith]
    exact .unexpected

theorem itemPhrases_eq_flatMap (items : List Expr) :
    itemPhrases items = items.flatMap Expr.phrases := by
  induction items with
  | nil => rw [itemPhrases, List.flatMap_nil]
  | cons e rest ih => rw [itemPhrases, ih, List.flatMap_cons]

theorem entryPhrases_eq_flatMap (entries : List (Expr × Expr)) :
    entryPhrases entries = entries.flatMap fun e => e.1.phrases ++ e.2.phrases := by
  induction entries with
  | nil => rw [entryPhrases, List.flatMap_nil]
  | cons entry rest ih => rw [entryPhrases, ih, List.flatMap_cons]

/-- The token of a literal or a name is its stretch. -/
theorem primary_walks (hk : s.kind ≠ .endOfText) {e : Expr} (hspan : e.span = s.current.span)
    (hall : e.phrases = [⟨e.span, []⟩]) :
    Walks [] (do let expr ← pure e; discard advance; return expr) LaidExpr s := by
  rw [pure_bind]
  refine .skip hk fun t _ => .pure ?_
  rw [LaidExpr, hall, hspan]
  exact .single s.current

/-- **A literal or a name takes one token.** -/
theorem readPrimary_walks (s : Stream) : Walks [] readPrimary LaidExpr s := by
  unfold readPrimary
  refine .freshId fun id s => .look ?_
  have hk : ∀ {k}, s.current.kind = k → k ≠ .endOfText → s.kind ≠ .endOfText :=
    fun hk hne h => hne (hk.symm.trans h)
  dsimp only
  split
  · rename_i hkind
    split
    · exact primary_walks (hk hkind (by decide)) rfl (by rw [Expr.phrases]; rfl)
    · exact .stops .failHere
  · rename_i hkind
    exact primary_walks (hk hkind (by decide)) rfl (by rw [Expr.phrases]; rfl)
  · rename_i hkind
    exact primary_walks (hk hkind (by decide)) rfl (by rw [Expr.phrases]; rfl)
  · rename_i hkind
    split
    · exact primary_walks (hk hkind (by decide)) rfl (by rw [Expr.phrases]; rfl)
    · exact .stops .failHere
  · rename_i hkind
    exact primary_walks (hk hkind (by decide)) rfl (by rw [Expr.phrases]; rfl)
  · rename_i hkind
    exact primary_walks (hk hkind (by decide)) rfl (by rw [Expr.phrases]; rfl)
  · exact .stops .unexpected

namespace Walked

variable {fuel : Nat}

theorem exprWith_succ (h : Walked fuel) (power : Power) (s : Stream) :
    Walks [] (exprWith (fuel + 1) power) LaidExpr s := by
  rw [exprWith]
  exact .part (h.head s) fun us left t _ hl => h.tails power left us t hl

theorem headWith_succ (h : Walked fuel) (s : Stream) :
    Walks [] (headWith (fuel + 1)) LaidExpr s := by
  rw [headWith]
  refine .whole fun hs => .look ?_
  rw [hs.grammar]
  cases hrule : Grammar.standard.head? s.kind with
  | none => exact .unexpected
  | some rule =>
    have hk : s.kind ≠ .endOfText := (head_plain hrule).1
    cases rule with
    | primary => exact readPrimary_walks s
    | group =>
      refine .skip hk fun t _ => .part (h.expr _ t) fun us e t _ he => ?_
      refine .token (by decide) fun c t _ => .pure ?_
      exact (he.behind [s.current]).token [c]
    | array =>
      refine .opening hk fun t _ => .part (h.items _ t) fun us items t _ hi => ?_
      refine .token (by decide) fun c t _ => .node (List.cons_ne_nil _ _) fun l id t hl => .pure ?_
      rw [← List.map_eq_flatMap, ← itemPhrases_eq_flatMap] at hi
      have hall := ((hi.behind [s.current]).token [c]).whole rfl hl
      rwa [LaidExpr, Expr.phrases]
    | hash =>
      refine .opening hk fun t _ => .part (h.entries t) fun us entries t _ hi => ?_
      refine .token (by decide) fun c t _ => .node (List.cons_ne_nil _ _) fun l id t hl => .pure ?_
      rw [← entryPhrases_eq_flatMap] at hi
      have hall := ((hi.behind [s.current]).token [c]).whole rfl hl
      rwa [LaidExpr, Expr.phrases]
    | function =>
      refine .opening hk fun t _ => .part (readParams_walks t) fun us params t _ hp => ?_
      refine .token (by decide) fun c t _ => .part (readType_walks t) fun vs returns t _ _ => ?_
      refine .part (h.block t) fun ws body t _ hb => .freshId fun id t => .pure ?_
      have hall := ((((hp.2.behind [s.current]).token [c]).token vs).append hb).upTo rfl
      rwa [LaidExpr, Expr.phrases]

/-- **One tail behind the expression before it.** -/
theorem tailWith_walks (h : Walked fuel) {left : Expr} (hl : LaidExpr before left)
    (rule : TailRule) (s : Stream) : Walks before (tailWith fuel left rule) LaidExpr s := by
  cases rule with
  | binary op =>
    refine .part (h.expr _ s) fun us right t _ hr => .freshId fun id t => .pure ?_
    have hall := (hl.append hr).pair
    rwa [LaidExpr, Expr.phrases]
  | call =>
    refine .part (h.items _ s) fun us args t _ hi => .token (by decide) fun c t _ => ?_
    refine .node (List.append_ne_nil_of_right_ne_nil _ (List.cons_ne_nil _ _)) ?_
    refine fun l id t hlast => .pure ?_
    rw [← List.map_eq_flatMap, ← itemPhrases_eq_flatMap] at hi
    have hall := ((hl.append hi).token [c]).onward hlast
    rwa [LaidExpr, Expr.phrases]
  | index =>
    refine .part (h.expr _ s) fun us key t _ hk => .token (by decide) fun c t _ => ?_
    refine .node (List.append_ne_nil_of_right_ne_nil _ (List.cons_ne_nil _ _)) ?_
    refine fun l id t hlast => .pure ?_
    have hall := ((hl.append hk).token [c]).onward hlast
    rwa [LaidExpr, Expr.phrases]

theorem tailsWith_succ (h : Walked fuel) (power : Power) (left : Expr) (before : List Token)
    (s : Stream) (hl : LaidExpr before left) :
    Walks before (tailsWith (fuel + 1) power left) LaidExpr s := by
  rw [Stackling.tailsWith_succ]
  refine .whole fun hs => .look ?_
  rw [hs.grammar]
  cases hrule : Grammar.standard.tail? s.kind with
  | none => exact .pure hl
  | some rule =>
    dsimp only
    by_cases hrank : rule.power.rank ≤ power.rank
    · rw [if_pos hrank]
      exact .pure hl
    · rw [if_neg hrank]
      have hk : s.kind ≠ .endOfText := fun hk => by
        rw [hk] at hrule
        cases hrule
      refine .skip hk fun t _ => .bind (h.tailWith_walks (hl.token [s.current]) rule t) ?_
      exact fun ts e t _ he => h.tails power e _ t he

theorem itemsWith_succ (h : Walked fuel) (closing : TokenKind) (s : Stream) :
    Walks [] (itemsWith (fuel + 1) closing)
      (fun ts xs => Laid ts (xs.flatMap fun e => [e.span]) (xs.flatMap Expr.phrases)) s :=
  list_walks (itemsWith_lists closing) (h.expr .default) (h.items closing)

theorem entriesWith_succ (h : Walked fuel) (s : Stream) : Walks [] (entriesWith (fuel + 1))
    (fun ts xs => Laid ts (xs.flatMap fun e => [e.1.span, e.2.span])
      (xs.flatMap fun e => e.1.phrases ++ e.2.phrases)) s := by
  refine list_walks entriesWith_lists (fun s => ?_) h.entries
  refine .part (h.expr _ s) fun us k t _ hk => .token (by decide) fun c t _ => ?_
  refine .part (h.expr _ t) fun vs v t _ hv => .pure ?_
  exact (hk.token [c]).append hv

theorem blockWith_succ (h : Walked fuel) (s : Stream) :
    Walks [] (blockWith (fuel + 1)) LaidBlock s := by
  rw [blockWith]
  refine .token (by decide) fun o t _ => .part (h.stmts t) fun us body t _ hb => ?_
  refine .token (by decide) fun c t _ => .span (List.cons_ne_nil _ _) fun l hl => .pure ?_
  have hall := ((hb.behind [o]).token [c]).whole rfl hl
  rwa [LaidBlock, Block.phrases]

theorem stmtsWith_succ (h : Walked fuel) (s : Stream) : Walks [] (stmtsWith (fuel + 1))
    (fun ts xs => Laid ts (xs.map Stmt.span) (stmtPhrases xs)) s := by
  rw [stmtsWith]
  refine .look ?_
  by_cases hclose : s.kind = .closeCurly
  · rw [if_pos hclose]
    refine .pure ?_
    rw [stmtPhrases]
    exact .nil []
  · rw [if_neg hclose]
    refine .part (h.stmt s) fun us x t _ hx => .part (h.stmts t) fun vs xs t _ hxs => .pure ?_
    rw [stmtPhrases]
    exact hx.append hxs

theorem declaredWith_walks (h : Walked fuel) (opening : Token) (us : List Token) (constant : Bool)
    (s : Stream) : Walks (opening :: us) (declaredWith fuel opening constant) LaidStmt s := by
  rw [declaredWith]
  refine .tokenOr (by decide) fun name t _ => .tokenOr (by decide) fun colon t _ => ?_
  refine .part (readType_walks t) fun ts written t _ _ => .token (by decide) fun a t _ => ?_
  refine .part (h.expr _ t) fun vs value t _ hv => ?_
  refine .span (List.cons_ne_nil _ _) fun l hl => .pure ?_
  have hall := (hv.behind _).whole rfl hl
  rwa [LaidStmt, Stmt.phrases]

theorem declarationWith_succ (h : Walked fuel) (s : Stream)
    (hrule : Grammar.standard.stmt? s.kind = some .declaration) :
    Walks [] (declarationWith (fuel + 1)) LaidStmt s := by
  rw [Stackling.declarationWith_succ]
  refine .opening (stmt_plain hrule).1 fun t _ => ?_
  rw [constantBehind]
  split
  · rw [pure_bind]
    exact h.declaredWith_walks _ _ _ t
  · exact .eat (by decide) (fun a t => h.declaredWith_walks _ _ _ t) (h.declaredWith_walks _ _ _ t)

/-- A second block, or nothing. -/
theorem otherwiseWith_walks (h : Walked fuel) (s : Stream) : Walks [] (otherwiseWith fuel)
    (fun ts no => Laid ts (no.elim [] fun b => [b.span]) (no.elim [] Block.phrases)) s := by
  rw [otherwiseWith]
  refine .eat (by decide) (fun a t => ?_) (.pure (.nil []))
  rw [if_pos rfl, ← bind_pure_comp]
  exact .part (h.block t) fun us b t _ hb => .pure (hb.behind [a])

theorem branchWith_succ (h : Walked fuel) (s : Stream)
    (hrule : Grammar.standard.stmt? s.kind = some .branch) :
    Walks [] (branchWith (fuel + 1)) LaidStmt s := by
  rw [Stackling.branchWith_succ]
  refine .opening (stmt_plain hrule).1 fun t _ => .part (h.expr _ t) fun us c t _ hc => ?_
  refine .part (h.block t) fun vs yes t _ hy => .part (h.otherwiseWith_walks t) ?_
  refine fun ws no t _ hn => .span (List.cons_ne_nil _ _) fun l hl => .pure ?_
  have hall := (((hc.behind [s.current]).append hy).append hn).whole rfl hl
  cases no with
  | none =>
    simp only [Option.elim_none, List.append_nil] at hall
    rw [LaidStmt, Stmt.phrases]
    exact hall
  | some no =>
    rw [LaidStmt, Stmt.phrases]
    exact hall

theorem returnWith_succ (h : Walked fuel) (s : Stream)
    (hrule : Grammar.standard.stmt? s.kind = some .returns) :
    Walks [] (returnWith (fuel + 1)) LaidStmt s := by
  rw [returnWith]
  refine .opening (stmt_plain hrule).1 fun t _ => .look ?_
  dsimp only
  split
  · rw [bind_map_left]
    refine .part (h.expr _ t) fun us value t _ hv => ?_
    refine .span (List.cons_ne_nil _ _) fun l hl => .pure ?_
    have hall := (hv.behind [s.current]).whole rfl hl
    rwa [LaidStmt, Stmt.phrases]
  · rw [pure_bind]
    refine .span (List.cons_ne_nil _ _) fun l hl => .pure ?_
    have hall := (Laid.nil [s.current]).whole rfl hl
    rwa [LaidStmt, Stmt.phrases]

theorem printWith_succ (h : Walked fuel) (s : Stream)
    (hrule : Grammar.standard.stmt? s.kind = some .print) :
    Walks [] (printWith (fuel + 1)) LaidStmt s := by
  rw [printWith]
  refine .opening (stmt_plain hrule).1 fun t _ => .token (by decide) fun a t _ => ?_
  refine .part (h.expr _ t) fun us value t _ hv => .token (by decide) fun c t _ => ?_
  refine .span (List.cons_ne_nil _ _) fun l hl => .pure ?_
  have hall := (((hv.behind [a]).behind [s.current]).token [c]).whole rfl hl
  rwa [LaidStmt, Stmt.phrases]

theorem ruleWith_walks (h : Walked fuel) {rule : Option StmtRule} (s : Stream)
    (hrule : Grammar.standard.stmt? s.kind = rule) : Walks [] (ruleWith fuel rule) LaidStmt s := by
  match rule with
  | none =>
    refine (h.expr _ s).map fun ts e he => ?_
    rwa [LaidStmt, Stmt.phrases]
  | some .block =>
    refine (h.block s).map fun ts b hb => ?_
    rwa [LaidStmt, Stmt.phrases]
  | some .declaration => exact h.declaration s hrule
  | some .branch => exact h.branch s hrule
  | some .returns => exact h.returns s hrule
  | some .print => exact h.print s hrule

theorem stmtWith_succ (h : Walked fuel) (s : Stream) :
    Walks [] (stmtWith (fuel + 1)) LaidStmt s := by
  rw [Stackling.stmtWith_succ]
  refine .whole fun hs => .look ?_
  rw [hs.grammar]
  refine .part (h.ruleWith_walks s rfl) fun us x t _ hx => ?_
  rw [discard_bind]
  exact .eat (by decide) (fun a t => .pure (hx.token [a])) (.pure hx)

end Walked

/-- **All readers, of any fuel.** -/
theorem walked (fuel : Nat) : Walked fuel := by
  induction fuel with
  | zero => exact walked_zero
  | succ fuel ih =>
    exact {
      expr := ih.exprWith_succ
      head := ih.headWith_succ
      tails := ih.tailsWith_succ
      items := ih.itemsWith_succ
      entries := ih.entriesWith_succ
      block := ih.blockWith_succ
      stmts := ih.stmtsWith_succ
      stmt := ih.stmtWith_succ
      declaration := ih.declarationWith_succ
      branch := ih.branchWith_succ
      returns := ih.returnWith_succ
      print := ih.printWith_succ }

/-! ## 3. Programs -/

theorem readExpr_walks (power : Power) (s : Stream) : Walks [] (readExpr power) LaidExpr s :=
  .look ((walked s.budget).expr power s)

theorem readStmt_walks (s : Stream) : Walks [] readStmt LaidStmt s :=
  .look ((walked s.budget).stmt s)

theorem readBlock_walks (s : Stream) : Walks [] readBlock LaidBlock s :=
  .look ((walked s.budget).block s)

/-- The stretch of what stands at top level; that of `main` is the one of its block. -/
def Item.span : Item → Span
  | .function f => f.span
  | .global s => s.span
  | .main body => body.span

/-- All phrases in what stands at top level. -/
def Item.phrases : Item → List Phrase
  | .function f => f.phrases
  | .global s => s.phrases
  | .main body => body.phrases

/-- **The declaration of `main`** takes more than its block. -/
theorem readMain_walks (s : Stream) : Walks [] readMain LaidBlock s := by
  have hblock : ∀ {us : List Token} {t : Stream}, Walks us readBlock LaidBlock t := by
    intro us t
    rw [← bind_pure readBlock]
    exact .part (readBlock_walks t) fun vs b t _ hb => .pure (hb.behind us)
  unfold readMain
  refine .token (by decide) fun a t _ => .token (by decide) fun b t _ => ?_
  refine .token (by decide) fun c t _ => .look ?_
  dsimp only
  by_cases hclose : t.kind = .closeParen
  · rw [if_neg (not_not.mpr hclose)]
    refine .skip (hclose ▸ nofun) fun u _ => .eat (by decide) (fun d v => ?_) hblock
    refine .look (.part (readType_walks v) fun us returns w hw hne => ?_)
    split
    · refine .stops (.failAt ⟨v.current, ?_, rfl⟩)
      have hfirst := List.mem_of_head? (hw.head? hne)
      exact List.mem_append_left _ (List.mem_append_right _ hfirst)
    · exact hblock
  · rw [if_pos hclose]
    exact .stops .unexpectedBecause

/-- **The declaration of a function.** -/
theorem readFunction_walks (s : Stream) :
    Walks [] readFunction (fun ts f => Laid ts [f.span] f.phrases) s := by
  unfold readFunction
  refine .token (by decide) fun o t _ => .token (by decide) fun name t _ => ?_
  refine .part (readParams_walks t) fun us params t _ hp => .tokenOr (by decide) ?_
  refine fun c t _ => .part (readType_walks t) fun vs returns t _ _ => ?_
  refine .part (readBlock_walks t) fun ws body t _ hb => .pure ?_
  exact ((((hp.2.behind [o, name]).token [c]).token vs).append hb).upTo rfl

theorem readItem_walks (seen : Bool) (s : Stream) :
    Walks [] (readItem seen) (fun ts item => Laid ts [item.span] item.phrases) s := by
  unfold readItem
  refine .look ?_
  split
  · refine .part (readMain_walks s) fun us body t ht hb => ?_
    split
    · refine .stops (.failAt ⟨s.current, ?_, rfl⟩)
      exact List.mem_append_left _ (List.mem_of_head? (ht.head? hb.ne_nil))
    · exact .pure hb
  split
  · exact .part (readFunction_walks s) fun us f t _ hf => .pure hf
  · exact .part (readStmt_walks s) fun us x t _ hx => .pure hx

/-- **What stands at top level,** one item behind the other. -/
theorem itemsOf_walks (fuel : Nat) (seen : Bool) (s : Stream) : Walks [] (itemsOf fuel seen)
    (fun ts items => Laid ts (items.map Item.span) (items.flatMap Item.phrases)) s := by
  induction fuel generalizing seen s with
  | zero => exact .unexpected
  | succ fuel ih =>
    rw [itemsOf]
    refine .look ?_
    split
    · exact .pure (.nil [])
    · refine .part (readItem_walks seen s) fun us item t _ hi => ?_
      rw [discard_bind]
      refine .eat (by decide) (fun a t => ?_) ?_
      · exact .part (ih _ t) fun vs items t _ hrest => .pure ((hi.token [a]).append hrest)
      · exact .part (ih _ t) fun vs items t _ hrest => .pure (hi.append hrest)

/-- **A program that was read,** and the items it was read from. -/
theorem readProgram_ok {p : Program} (hs : s.Whole) (h : readProgram s = .ok p t) :
    ∃ ts items, itemsOf (s.size + 1) false s = .ok items t ∧ Taken ts s t ∧
      Laid ts (items.map Item.span) (items.flatMap Item.phrases) ∧
      p.functions = items.filterMap Item.function? ∧ p.globals = items.filterMap Item.global? ∧
      items.findSome? Item.main? = some p.main ∧ p.span = ⟨s.place, t.place⟩ := by
  unfold readProgram at h
  obtain ⟨_, _, ⟨⟩, h⟩ := bind_eq_ok.mp h
  obtain ⟨_, _, ⟨⟩, h⟩ := bind_eq_ok.mp h
  obtain ⟨items, u, hitems, h⟩ := bind_eq_ok.mp h
  obtain ⟨_, _, ⟨⟩, h⟩ := bind_eq_ok.mp h
  obtain ⟨ts, hts, hlaid⟩ := (itemsOf_walks _ _ s hs nofun).1 items u hitems
  cases hm : items.findSome? Item.main? with
  | none =>
    rw [hm] at h
    exact absurd h (failHere_fails _ _ _ _)
  | some main =>
    rw [hm] at h
    cases h
    exact ⟨ts, items, hitems, hts, hlaid, rfl, rfl, hm, rfl⟩

/-- **A program that cannot be read:** the place of the error is the start of a token that stands
    no later than the end of the text. -/
theorem readProgram_error {e : SyntaxError} (hs : s.Whole) (h : readProgram s = .error e t) :
    ∃ a ∈ upToEnd s.left, e.place = a.span.start := by
  have hwalks : Walks [] readProgram (fun _ _ => True) s := by
    unfold readProgram
    refine .look (.look (.part (itemsOf_walks _ _ s) fun us items t _ _ => .look ?_))
    dsimp only
    split
    · exact .failHere
    · exact .pure trivial
  exact (hwalks hs nofun).2 e t h

end Stackling
