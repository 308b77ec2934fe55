import Stackling.Proofs.Syntax.Readable

/-
  File:     Stackling/Proofs/Syntax/Phrases.lean
  Subject:  Expressions, statements and blocks are read from their words.

  The parts of a phrase stand in parentheses, so that a reader meets no operator it did not
  expect: after the head of an expression there is one tail at most, and what stands behind the
  phrase does not continue it. Nested readers use up two or three levels of fuel for each level
  of nesting, which has a word of its own; eight for each word are enough.

  * `ReadsExpr`, `ReadsHead`, `ReadsBlock`, `ReadsStmt` -- a phrase is read from its words;
  * `ReadsHead.withTail`            -- an expression is a head with one tail;
  * `expr_reads`, `stmt_reads`, `block_reads` -- every phrase that can be written is read.
-/
namespace Stackling

open Parse

/-! ## 1. Heads and tails -/

/-- What stands behind a phrase does not continue an expression. -/
def NoTail (rest : List Word) : Prop := Grammar.standard.tail? (firstKind rest) = none

theorem NoTail.of {rest : List Word} {k : TokenKind} (hk : firstKind rest = k)
    (h : Grammar.standard.tail? k = none) : NoTail rest := by
  rw [NoTail, hk, h]

/-- An expression that `post` is true of is read from the words. -/
def ReadsAs (ws : List Word) (post : Expr → Prop) : Prop :=
  ∀ fuel, 8 * ws.length ≤ fuel → ∀ rest, NoTail rest →
    Reads (exprWith fuel .default) ws rest post

/-- The head of such an expression is read from the words. -/
def ReadsHeadAs (ws : List Word) (post : Expr → Prop) : Prop :=
  ∀ fuel, 8 * ws.length ≤ fuel + 1 → ∀ rest, Reads (headWith fuel) ws rest post

/-- **An expression is read from its words.** -/
def ReadsExpr (ws : List Word) (e : Expr) : Prop :=
  ∀ fuel, 8 * ws.length ≤ fuel → ∀ rest, NoTail rest →
    Reads (exprWith fuel .default) ws rest fun x => x.bare = e.bare

/-- The head of an expression is read from its words. -/
def ReadsHead (ws : List Word) (e : Expr) : Prop :=
  ∀ fuel, 8 * ws.length ≤ fuel + 1 → ∀ rest,
    Reads (headWith fuel) ws rest fun x => x.bare = e.bare

/-- **A block is read from its words.** -/
def ReadsBlock (ws : List Word) (b : Block) : Prop :=
  ∀ fuel, 8 * ws.length ≤ fuel → ∀ rest,
    Reads (blockWith fuel) ws rest fun x => x.bare = b.bare

/-- One tail of the expression `left`, whose first word has been read. -/
def tailWith (fuel : Nat) (left : Expr) : TailRule → Parse Expr
  | .binary op => do
    let right ← exprWith fuel op.power
    let id ← freshId
    return .binary ⟨id, ⟨left.span.start, right.span.stop⟩⟩ op left right
  | .call => do
    let args ← itemsWith fuel .closeParen
    let _ ← expect .closeParen
    return .call (← finishNode left.span.start) left args
  | .index => do
    let key ← exprWith fuel .default
    let _ ← expect .closeBracket
    return .index (← finishNode left.span.start) left key

/-- **Tails are read one after the other.** -/
theorem tailsWith_succ (fuel : Nat) (power : Power) (left : Expr) :
    tailsWith (fuel + 1) power left = (do
      let s ← get
      match s.grammar.tail? s.kind with
      | none => return left
      | some rule =>
        if rule.power.rank ≤ power.rank then return left
        discard advance
        tailsWith fuel power (← tailWith fuel left rule)) := by
  rw [tailsWith]
  refine bind_congr fun s => ?_
  cases s.grammar.tail? s.kind with
  | none => rfl
  | some rule =>
    cases rule with
    | binary op =>
      simp only [tailWith, bind_assoc, pure_bind]
      rfl
    | call | index => simp only [tailWith, bind_assoc, pure_bind]

variable {ws ws' rest : List Word} {e : Expr} {fuel : Nat} {post : Expr → Prop}

/-- Where no tail follows, the expression has ended. -/
theorem tails_end (hfuel : 0 < fuel) (hrest : NoTail rest) (power : Power) {left : Expr}
    (h : post left) : Reads (tailsWith fuel power left) [] rest post := by
  obtain ⟨fuel, rfl⟩ := Nat.exists_eq_add_one_of_ne_zero (Nat.ne_of_gt hfuel)
  rw [tailsWith_succ]
  refine Reads.look fun s hs => ?_
  rw [hs.grammar, hs.kind, List.nil_append, hrest]
  exact .pure h

/-- **A head is an expression,** in any context. -/
theorem ReadsHeadAs.at (h : ReadsHeadAs ws post) (hne : ws ≠ []) (power : Power)
    (hfuel : 8 * ws.length ≤ fuel) (hrest : NoTail rest) :
    Reads (exprWith fuel power) ws rest post := by
  have hlength := List.length_pos_iff.mpr hne
  obtain ⟨fuel, rfl⟩ := Nat.exists_eq_add_one_of_ne_zero (by omega : fuel ≠ 0)
  rw [exprWith]
  exact (h fuel hfuel rest).last fun x hx => tails_end (by omega) hrest power hx

theorem ReadsHeadAs.expr (h : ReadsHeadAs ws post) (hne : ws ≠ []) : ReadsAs ws post :=
  fun _ hfuel _ hrest => h.at hne .default hfuel hrest

theorem ReadsHead.at (h : ReadsHead ws e) (hne : ws ≠ []) (power : Power)
    (hfuel : 8 * ws.length ≤ fuel) (hrest : NoTail rest) :
    Reads (exprWith fuel power) ws rest fun x => x.bare = e.bare :=
  ReadsHeadAs.at h hne power hfuel hrest

theorem ReadsHead.expr (h : ReadsHead ws e) (hne : ws ≠ []) : ReadsExpr ws e :=
  ReadsHeadAs.expr h hne

/-- What is read may be said in other words. -/
theorem ReadsAs.mono {post' : Expr → Prop} (h : ReadsAs ws post) (hp : ∀ x, post x → post' x) :
    ReadsAs ws post' :=
  fun fuel hfuel rest hrest => (h fuel hfuel rest hrest).mono hp

/-- An expression is a part of a list, if it does not start with what closes the list. -/
theorem ReadsAs.part {γ : Type} {same : Expr → γ → Prop} {y : γ}
    (h : ReadsAs ws fun x => same x y) (hne : ws ≠ []) {closing : TokenKind}
    (hopen : firstKind ws ≠ closing) (htail : Grammar.standard.tail? closing = none) :
    ReadsPart (exprWith · .default) closing same ws y :=
  ⟨hne, hopen, fun fuel hfuel rest hrest =>
    h fuel hfuel rest (hrest.elim (.of · rfl) (.of · htail))⟩

/-- **A head with one tail** is an expression. -/
theorem ReadsHead.withTail {left : Expr} (h : ReadsHead ws left) {k : TokenKind}
    {rule : TailRule} (hrule : Grammar.standard.tail? k = some rule)
    (hpower : 0 < rule.power.rank)
    (htail : ∀ fuel, 8 * (ws.length + ws'.length) ≤ fuel → ∀ rest, NoTail rest → ∀ x : Expr,
      x.bare = left.bare → Reads (tailWith fuel x rule) ws' rest fun y => y.bare = e.bare) :
    ReadsExpr (ws ++ Word.of k :: ws') e := by
  intro fuel hfuel rest hrest
  rw [List.length_append, List.length_cons] at hfuel
  obtain ⟨fuel, rfl⟩ := Nat.exists_eq_add_one_of_ne_zero (by omega : fuel ≠ 0)
  rw [exprWith]
  refine Reads.bind (h fuel (by omega) _) fun x hx => ?_
  obtain ⟨fuel, rfl⟩ := Nat.exists_eq_add_one_of_ne_zero (by omega : fuel ≠ 0)
  rw [tailsWith_succ]
  refine Reads.look fun s hs => ?_
  rw [hs.grammar, hs.kind, show firstKind (Word.of k :: ws' ++ rest) = k from rfl, hrule]
  dsimp only
  rw [if_neg (show ¬ rule.power.rank ≤ Power.default.rank from Nat.not_le_of_gt hpower)]
  refine Reads.skip ((htail fuel (by omega) rest hrest x hx).last fun y hy => ?_)
  exact tails_end (by omega) hrest .default hy

/-! ## 2. Parentheses -/

theorem length_grouped (ws : List Word) : (grouped ws).length = ws.length + 2 := by
  rw [grouped, List.length_cons, List.length_append]
  rfl

namespace ReadsExpr

/-- **An expression in parentheses** is a head. -/
theorem head (h : ReadsExpr ws e) : ReadsHead (grouped ws) e := by
  intro fuel hfuel rest
  rw [length_grouped] at hfuel
  obtain ⟨fuel, rfl⟩ := Nat.exists_eq_add_one_of_ne_zero (by omega : fuel ≠ 0)
  rw [headWith]
  refine Reads.look fun s hs => ?_
  rw [hs.grammar, hs.kind]
  refine Reads.skip (Reads.bind (h fuel (by omega) _ rfl) fun x hx => ?_)
  exact Reads.token rfl fun _ _ => .pure hx

theorem grouped (h : ReadsExpr ws e) : ReadsExpr (Stackling.grouped ws) e :=
  h.head.expr (List.cons_ne_nil _ _)

theorem enclosed (h : ReadsExpr ws e) (enclose : Bool) :
    ReadsExpr (if enclose then Stackling.grouped ws else ws) e := by
  cases enclose
  · exact h
  · exact h.grouped

/-- An expression in parentheses is a part of a list. -/
theorem part (h : ReadsExpr ws e) {closing : TokenKind} (hopen : .openParen ≠ closing)
    (htail : Grammar.standard.tail? closing = none) :
    ReadsPart (exprWith · .default) closing (fun x e => x.bare = e.bare)
      (Stackling.grouped ws) e := by
  refine ReadsAs.part ?_ (List.cons_ne_nil _ _) hopen htail
  exact h.grouped

end ReadsExpr

/-! ## 3. Lists -/

theorem itemsBare_eq_map (items : List Expr) : itemsBare items = items.map Expr.bare := by
  induction items with
  | nil => rfl
  | cons e rest ih => rw [itemsBare, ih, List.map_cons]

theorem entriesBare_eq_map (entries : List (Expr × Expr)) :
    entriesBare entries = entries.map fun entry => (entry.1.bare, entry.2.bare) := by
  induction entries with
  | nil => rfl
  | cons entry rest ih => rw [entriesBare, ih, List.map_cons]

theorem stmtsBare_eq_map (body : List Stmt) : stmtsBare body = body.map Stmt.bare := by
  induction body with
  | nil => rfl
  | cons s rest ih => rw [stmtsBare, ih, List.map_cons]

/-- A key with its value, as the list of entries reads it. -/
def entryWith (fuel : Nat) : Parse (Expr × Expr) := do
  let key ← exprWith fuel .default
  let _ ← expect .colon
  let value ← exprWith fuel .default
  return (key, value)

theorem itemsWith_lists (closing : TokenKind) :
    ListReader (exprWith · .default) closing (itemsWith · closing) := by
  intro fuel
  show itemsWith (fuel + 1) closing = _
  rw [itemsWith]

theorem entriesWith_lists : ListReader entryWith .closeCurly entriesWith := by
  intro fuel
  rw [entriesWith]
  simp only [entryWith, bind_assoc, pure_bind]

/-- A key and a value are a part of a hash. -/
theorem entryAs_part {γ : Type} {same : Expr × Expr → γ → Prop} {y : γ} {p q : Expr → Prop}
    (hkey : ReadsAs ws p) (hvalue : ReadsAs ws' q) (hne : ws ≠ [])
    (hopen : firstKind ws ≠ .closeCurly) (hsame : ∀ k v, p k → q v → same (k, v) y) :
    ReadsPart entryWith .closeCurly same (ws ++ Word.of .colon :: ws') y := by
  refine ⟨List.append_ne_nil_of_left_ne_nil hne _, by rwa [firstKind_append hne],
    fun fuel hfuel rest hrest => ?_⟩
  rw [List.length_append, List.length_cons] at hfuel
  have htail : NoTail rest := hrest.elim (.of · rfl) (.of · rfl)
  refine Reads.bind (hkey fuel (by omega) _ rfl) fun k hk => ?_
  refine Reads.token rfl fun _ _ => ?_
  exact (hvalue fuel (by omega) rest htail).last fun v hv => .pure (hsame k v hk hv)

/-- The same for a key and a value in parentheses. -/
theorem entry_part {key value : Expr} (hkey : ReadsExpr ws key) (hvalue : ReadsExpr ws' value) :
    ReadsPart entryWith .closeCurly
      (fun x y => (x.1.bare, x.2.bare) = (y.1.bare, y.2.bare))
      (grouped ws ++ Word.of .colon :: grouped ws') (key, value) :=
  entryAs_part hkey.grouped hvalue.grouped (List.cons_ne_nil _ _) nofun
    fun _ _ hk hv => by rw [hk, hv]

/-- **Expressions with commas between them are read.** -/
theorem items_read {parts : List (List Word)} {items : List Expr} {closing : TokenKind}
    (h : List.Forall₂ (ReadsPart (exprWith · .default) closing fun x e => x.bare = e.bare)
      parts items) (hcomma : closing ≠ .comma)
    (hfuel : 8 * (commaSeparated parts).length < fuel) (hrest : firstKind rest = closing) :
    Reads (itemsWith fuel closing) (commaSeparated parts) rest fun xs =>
      itemsBare xs = itemsBare items := by
  refine (list_reads (itemsWith_lists closing) hcomma h fuel hfuel rest hrest).mono fun xs hxs => ?_
  rw [itemsBare_eq_map, itemsBare_eq_map, map_eq_map hxs]

/-! ## 4. Expressions -/

/-- What a word alone stands for. -/
inductive PrimaryWord : Word → Expr → Prop
  | int (node : Node) {value : Int64} (h : 0 ≤ value.toInt) :
      PrimaryWord ⟨.number, Text.decimal value⟩ (.int node value)
  | text (node : Node) (value : String) : PrimaryWord ⟨.text, value⟩ (.text node value)
  | char (node : Node) (value : Char) :
      PrimaryWord ⟨.character, String.singleton value⟩ (.char node value)
  | true (node : Node) : PrimaryWord (.of .trueWord) (.bool node true)
  | false (node : Node) : PrimaryWord (.of .falseWord) (.bool node false)
  | name (node : Node) (value : String) : PrimaryWord (.name value) (.name node value)

/-- The word of a literal or a name is left behind. -/
theorem primary_end (w : Word) {x : Expr} (h : x.bare = e.bare) :
    Reads (do let expr ← pure x; discard advance; return expr) [w] rest
      fun x => x.bare = e.bare := by
  rw [pure_bind]
  exact Reads.skip (.pure h)

/-- **A literal or a name is read.** -/
theorem primary_reads {w : Word} (h : PrimaryWord w e) :
    Reads readPrimary [w] rest fun x => x.bare = e.bare := by
  refine Reads.after .freshId fun id _ => Reads.look fun s hs => ?_
  have hkind : s.current.kind = w.kind := hs.kind
  have hvalue : s.current.value = w.value := congrArg Word.value hs.current
  dsimp only
  rw [hkind, hvalue]
  cases h with
  | int node h =>
    dsimp only
    rw [Text.readDecimal?_decimal h]
    exact primary_end _ rfl
  | char node value =>
    dsimp only
    rw [String.toList_singleton]
    exact primary_end _ rfl
  | text | true | false | name => exact primary_end _ rfl

/-- **A literal or a name is an expression.** -/
theorem primary_expr {w : Word} (h : PrimaryWord w e) : ReadsExpr [w] e := by
  refine ReadsHead.expr (fun fuel hfuel rest => ?_) (List.cons_ne_nil _ _)
  obtain ⟨fuel, rfl⟩ := Nat.exists_eq_add_one_of_ne_zero
    (Nat.ne_of_gt (Nat.lt_of_lt_of_le (Nat.succ_pos 6) (Nat.le_of_succ_le_succ hfuel)))
  rw [headWith]
  refine Reads.look fun s hs => ?_
  have hrule : Grammar.standard.head? (firstKind ([w] ++ rest)) = some .primary := by
    cases h <;> rfl
  rw [hs.grammar, hs.kind, hrule]
  exact primary_reads h

/-- An operator between two expressions. -/
theorem binary_reads {left right : Expr} (hl : ReadsExpr ws left) (hr : ReadsExpr ws' right)
    (node : Node) (op : BinaryOp) :
    ReadsExpr (grouped ws ++ Word.of op.kind :: grouped ws') (.binary node op left right) := by
  refine hl.head.withTail (Grammar.standard_tail?_kind op) (by cases op <;> decide) ?_
  intro fuel hfuel rest hrest x hx
  refine (hr.head.at (List.cons_ne_nil _ _) op.power (by omega) hrest).last fun y hy => ?_
  refine Reads.after .freshId fun id _ => .pure ?_
  rw [Expr.bare, Expr.bare, hx, hy]

/-- An expression with a key in brackets behind it. -/
theorem index_reads {target key : Expr} (ht : ReadsExpr ws target) (hk : ReadsExpr ws' key)
    (node : Node) :
    ReadsExpr (grouped ws ++ Word.of .openBracket :: (grouped ws' ++ [Word.of .closeBracket]))
      (.index node target key) := by
  refine ht.head.withTail rfl (by decide) ?_
  intro fuel hfuel rest hrest x hx
  rw [List.length_append] at hfuel
  refine Reads.bind (hk.grouped fuel (by omega) _ rfl) fun k hk => ?_
  refine Reads.token rfl fun _ _ => Reads.after (.finishNode _) fun node _ => .pure ?_
  rw [Expr.bare, Expr.bare, hx, hk]

/-- An expression with arguments behind it. -/
theorem call_reads {callee : Expr} {args : List Expr} {parts : List (List Word)}
    (hc : ReadsExpr ws callee)
    (h : List.Forall₂ (ReadsPart (exprWith · .default) .closeParen fun x e => x.bare = e.bare)
      parts args) (node : Node) :
    ReadsExpr (grouped ws ++ Word.of .openParen ::
      (commaSeparated parts ++ [Word.of .closeParen])) (.call node callee args) := by
  refine hc.head.withTail rfl (by decide) ?_
  intro fuel hfuel rest hrest x hx
  rw [List.length_append, List.length_singleton, length_grouped] at hfuel
  refine Reads.bind (items_read h (by decide) (by omega) rfl) fun xs hxs => ?_
  refine Reads.token rfl fun _ _ => Reads.after (.finishNode _) fun node _ => .pure ?_
  rw [Expr.bare, Expr.bare, hx, hxs]

/-- **Expressions with commas between them, in brackets.** -/
theorem array_as {γ : Type} {same : Expr → γ → Prop} {parts : List (List Word)} {ys : List γ}
    (h : List.Forall₂ (ReadsPart (exprWith · .default) .closeBracket same) parts ys) :
    ReadsAs (Word.of .openBracket :: (commaSeparated parts ++ [Word.of .closeBracket]))
      fun x => ∃ node items, x = .array node items ∧ List.Forall₂ same items ys := by
  refine ReadsHeadAs.expr (fun fuel hfuel rest => ?_) (List.cons_ne_nil _ _)
  rw [List.length_cons, List.length_append, List.length_singleton] at hfuel
  obtain ⟨fuel, rfl⟩ := Nat.exists_eq_add_one_of_ne_zero (by omega : fuel ≠ 0)
  rw [headWith]
  refine Reads.look fun s hs => ?_
  rw [hs.grammar, hs.kind]
  refine Reads.opening fun _ _ => ?_
  refine Reads.bind (list_reads (itemsWith_lists .closeBracket) (by decide) h fuel (by omega) _ rfl)
    fun xs hxs => ?_
  refine Reads.token rfl fun _ _ => Reads.after (.finishNode _) fun node _ => ?_
  exact .pure ⟨node, xs, rfl, hxs⟩

theorem array_reads {items : List Expr} {parts : List (List Word)}
    (h : List.Forall₂ (ReadsPart (exprWith · .default) .closeBracket fun x e => x.bare = e.bare)
      parts items) (node : Node) :
    ReadsExpr (Word.of .openBracket :: (commaSeparated parts ++ [Word.of .closeBracket]))
      (.array node items) := by
  refine (array_as h).mono ?_
  rintro _ ⟨node', xs, rfl, hxs⟩
  rw [Expr.bare, Expr.bare, itemsBare_eq_map, itemsBare_eq_map, map_eq_map hxs]

/-- **Entries with commas between them, in curly brackets.** -/
theorem hash_as {γ : Type} {same : Expr × Expr → γ → Prop} {parts : List (List Word)}
    {ys : List γ} (h : List.Forall₂ (ReadsPart entryWith .closeCurly same) parts ys) :
    ReadsAs (Word.of .openCurly :: (commaSeparated parts ++ [Word.of .closeCurly]))
      fun x => ∃ node entries, x = .hash node entries ∧ List.Forall₂ same entries ys := by
  refine ReadsHeadAs.expr (fun fuel hfuel rest => ?_) (List.cons_ne_nil _ _)
  rw [List.length_cons, List.length_append, List.length_singleton] at hfuel
  obtain ⟨fuel, rfl⟩ := Nat.exists_eq_add_one_of_ne_zero (by omega : fuel ≠ 0)
  rw [headWith]
  refine Reads.look fun s hs => ?_
  rw [hs.grammar, hs.kind]
  refine Reads.opening fun _ _ => ?_
  refine Reads.bind (list_reads entriesWith_lists (by decide) h fuel (by omega) _ rfl)
    fun xs hxs => ?_
  refine Reads.token rfl fun _ _ => Reads.after (.finishNode _) fun node _ => ?_
  exact .pure ⟨node, xs, rfl, hxs⟩

theorem hash_reads {entries : List (Expr × Expr)} {parts : List (List Word)}
    (h : List.Forall₂ (ReadsPart entryWith .closeCurly
      fun x y => (x.1.bare, x.2.bare) = (y.1.bare, y.2.bare)) parts entries) (node : Node) :
    ReadsExpr (Word.of .openCurly :: (commaSeparated parts ++ [Word.of .closeCurly]))
      (.hash node entries) := by
  refine (hash_as h).mono ?_
  rintro _ ⟨node', xs, rfl, hxs⟩
  rw [Expr.bare, Expr.bare, entriesBare_eq_map, entriesBare_eq_map, map_eq_map hxs]

/-- A function without a name. -/
theorem fn_reads {body : Block} (h : ReadsBlock ws body) (node : Node) (params : List Param)
    (returns : TypeExpr) :
    ReadsExpr (Word.of .fnWord :: (paramWords params ++ Word.of .colon :: (returns.words ++ ws)))
      (.fn node params returns body) := by
  refine ReadsHead.expr (fun fuel hfuel rest => ?_) (List.cons_ne_nil _ _)
  simp only [List.length_cons, List.length_append] at hfuel
  obtain ⟨fuel, rfl⟩ := Nat.exists_eq_add_one_of_ne_zero (by omega : fuel ≠ 0)
  rw [headWith]
  refine Reads.look fun s hs => ?_
  rw [hs.grammar, hs.kind]
  refine Reads.opening fun _ _ => ?_
  refine Reads.bind (readParams_reads params _) fun ps hps => ?_
  refine Reads.token rfl fun _ _ => ?_
  refine Reads.bind (readType_reads returns _) fun t ht => ?_
  refine (h fuel (by omega) rest).last fun b hb => ?_
  refine Reads.after .freshId fun id _ => .pure ?_
  rw [Expr.bare, Expr.bare, hps, ht, hb]

/-! ## 5. Statements -/

/-- A statement that starts with a token of a rule, without the semicolon. -/
def ruleWith (fuel : Nat) : Option StmtRule → Parse Stmt
  | none => Stmt.expr <$> exprWith fuel .default
  | some .block => Stmt.block <$> blockWith fuel
  | some .declaration => declarationWith fuel
  | some .branch => branchWith fuel
  | some .returns => returnWith fuel
  | some .print => printWith fuel

theorem stmtWith_succ (fuel : Nat) : stmtWith (fuel + 1) = (do
    let s ← get
    let stmt ← ruleWith fuel (s.grammar.stmt? s.kind)
    discard (eat .semicolon)
    return stmt) := by
  rw [stmtWith]
  refine bind_congr fun s => ?_
  cases s.grammar.stmt? s.kind with
  | none => rfl
  | some rule => cases rule <;> rfl

/-- **A statement is read from its words,** up to a semicolon. -/
def ReadsStmt (ws : List Word) (s : Stmt) : Prop :=
  ∀ fuel, 8 * ws.length ≤ fuel → ∀ rest, firstKind rest = .semicolon →
    Reads (ruleWith fuel (Grammar.standard.stmt? (firstKind ws))) ws rest fun x => x.bare = s.bare

/-- Statements are read from their words, up to a curly bracket. -/
def ReadsStmts (ws : List Word) (body : List Stmt) : Prop :=
  ∀ fuel, 8 * ws.length < fuel → ∀ rest, firstKind rest = .closeCurly →
    Reads (stmtsWith fuel) ws rest fun xs => stmtsBare xs = stmtsBare body

/-- The kinds a statement starts with. -/
def stmtStarts : List TokenKind :=
  [.openCurly, .openParen, .letWord, .constWord, .ifWord, .returnWord, .printWord]

theorem ne_nil_of_start (h : firstKind ws ∈ stmtStarts) : ws ≠ [] := by
  rintro rfl
  exact absurd h (by decide)

/-- **A statement and its semicolon are read.** -/
theorem stmt_as {p : Stmt → Prop} (hne : ws ≠ [])
    (h : Reads (ruleWith fuel (Grammar.standard.stmt? (firstKind ws))) ws
      (Word.of .semicolon :: rest) p) :
    Reads (stmtWith (fuel + 1)) (ws ++ [Word.of .semicolon]) rest p := by
  rw [stmtWith_succ]
  refine Reads.look fun s hs => ?_
  rw [hs.grammar, hs.kind, List.append_assoc, firstKind_append hne]
  exact Reads.bind h fun x hx => Reads.one (Reads.eats rfl).discard fun _ _ => .pure hx

/-- A statement without a semicolon is read. -/
theorem bareStmt_as {p : Stmt → Prop} (hne : ws ≠ [])
    (h : Reads (ruleWith fuel (Grammar.standard.stmt? (firstKind ws))) ws rest p)
    (hrest : firstKind rest ≠ .semicolon) : Reads (stmtWith (fuel + 1)) ws rest p := by
  rw [stmtWith_succ]
  refine Reads.look fun s hs => ?_
  rw [hs.grammar, hs.kind, firstKind_append hne]
  exact h.last fun x hx => Reads.after (Reads.eatsNot hrest).discard fun _ _ => .pure hx

/-- No statement stands before a curly bracket. -/
theorem stmts_end (hrest : firstKind rest = .closeCurly) :
    Reads (stmtsWith (fuel + 1)) [] rest fun xs => xs = [] := by
  rw [stmtsWith]
  refine Reads.look fun s hs => ?_
  rw [if_pos (hs.kind.trans hrest)]
  exact .pure rfl

/-- **One statement more.** -/
theorem stmts_step {p : Stmt → Prop} {q : List Stmt → Prop} (hne : ws ≠ [])
    (hopen : firstKind ws ≠ .closeCurly) (h : Reads (stmtWith fuel) ws (ws' ++ rest) p)
    (hrest : ∀ x, p x → Reads (stmtsWith fuel) ws' rest fun xs => q (x :: xs)) :
    Reads (stmtsWith (fuel + 1)) (ws ++ ws') rest q := by
  rw [stmtsWith]
  refine Reads.look fun s hs => ?_
  have hkind : s.kind ≠ .closeCurly := by
    rw [hs.kind, List.append_assoc, firstKind_append hne]
    exact hopen
  rw [if_neg hkind]
  exact Reads.bind h fun x hx => (hrest x hx).last fun xs hxs => .pure hxs

/-- **Statements in curly brackets are a block.** -/
theorem block_as {q : List Stmt → Prop}
    (h : Reads (stmtsWith fuel) ws (Word.of .closeCurly :: rest) q) :
    Reads (blockWith (fuel + 1)) (Word.of .openCurly :: (ws ++ [Word.of .closeCurly])) rest
      fun b => ∃ body span, b = .mk body span ∧ q body := by
  rw [blockWith]
  refine Reads.token rfl fun _ _ => Reads.bind h fun xs hxs => Reads.token rfl fun _ _ => ?_
  exact Reads.after (.spanFrom _) fun span _ => .pure ⟨xs, span, rfl, hxs⟩

theorem ReadsStmt.withSemicolon {s : Stmt} (h : ReadsStmt ws s)
    (hstart : firstKind ws ∈ stmtStarts) (hfuel : 8 * ws.length < fuel) (rest : List Word) :
    Reads (stmtWith fuel) (ws ++ [Word.of .semicolon]) rest fun x => x.bare = s.bare := by
  obtain ⟨fuel, rfl⟩ := Nat.exists_eq_add_one_of_ne_zero (Nat.ne_zero_of_lt hfuel)
  exact stmt_as (ne_nil_of_start hstart) (h fuel (Nat.le_of_lt_succ hfuel) _ rfl)

theorem stmts_nil : ReadsStmts [] [] := by
  intro fuel hfuel rest hrest
  obtain ⟨fuel, rfl⟩ := Nat.exists_eq_add_one_of_ne_zero (Nat.ne_of_gt hfuel)
  exact (stmts_end hrest).mono fun xs hxs => by rw [hxs]

theorem stmts_cons {s : Stmt} {body : List Stmt} (h : ReadsStmt ws s)
    (hstart : firstKind ws ∈ stmtStarts) (hbody : ReadsStmts ws' body) :
    ReadsStmts (ws ++ Word.of .semicolon :: ws') (s :: body) := by
  intro fuel hfuel rest hrest
  rw [List.length_append, List.length_cons] at hfuel
  obtain ⟨fuel, rfl⟩ := Nat.exists_eq_add_one_of_ne_zero (Nat.ne_zero_of_lt hfuel)
  have hopen : firstKind (ws ++ [Word.of .semicolon]) ≠ .closeCurly := by
    rw [firstKind_append (ne_nil_of_start hstart)]
    exact ne_of_mem_of_not_mem hstart (by decide)
  rw [List.append_cons]
  refine stmts_step (List.append_ne_nil_of_right_ne_nil _ (List.cons_ne_nil _ _)) hopen
    (h.withSemicolon hstart (by omega) _) fun x hx => ?_
  refine (hbody fuel (by omega) rest hrest).mono fun xs hxs => ?_
  rw [stmtsBare, stmtsBare, hx, hxs]

theorem ReadsStmts.block {body : List Stmt} (h : ReadsStmts ws body) (span : Span) :
    ReadsBlock (Word.of .openCurly :: (ws ++ [Word.of .closeCurly])) (.mk body span) := by
  intro fuel hfuel rest
  rw [List.length_cons, List.length_append, List.length_singleton] at hfuel
  obtain ⟨fuel, rfl⟩ := Nat.exists_eq_add_one_of_ne_zero (by omega : fuel ≠ 0)
  refine (block_as (h fuel (by omega) _ rfl)).mono ?_
  rintro _ ⟨xs, span', rfl, hxs⟩
  rw [Block.bare, Block.bare, hxs]

/-- An expression in parentheses. -/
theorem expr_stmt (h : ReadsExpr ws e) : ReadsStmt (grouped ws) (.expr e) := by
  intro fuel hfuel rest hrest
  exact (h.grouped fuel hfuel rest (.of hrest rfl)).map fun x hx => by rw [Stmt.bare, Stmt.bare, hx]

theorem block_stmt {body : Block} (hstart : firstKind ws = .openCurly) (h : ReadsBlock ws body) :
    ReadsStmt ws (.block body) := by
  intro fuel hfuel rest hrest
  rw [hstart]
  exact (h fuel hfuel rest).map fun x hx => by rw [Stmt.bare, Stmt.bare, hx]

/-- Whether the word for constants has been read, or is the next one. -/
def constantBehind (opening : Token) : Parse Bool :=
  if opening.kind = .constWord then pure true else eat .constWord

/-- What stands behind the words that a declaration starts with. -/
def declaredWith (fuel : Nat) (opening : Token) (constant : Bool) : Parse Stmt := do
  let name ← expectOr .identifier
    (unexpectedBecause "expected identifier during variable declaration")
  let _ ← expectOr .colon (unexpectedBecause "every declaration needs an explicit type")
  let written ← readType
  let _ ← expect .assignment
  let value ← exprWith fuel .default
  return .declare (← spanFrom opening.span.start) constant name.value written value

theorem declarationWith_succ (fuel : Nat) : declarationWith (fuel + 1) = (do
    let opening ← advance
    let constant ← constantBehind opening
    declaredWith fuel opening constant) := by
  rw [declarationWith]
  refine bind_congr fun opening => ?_
  rw [constantBehind]
  split <;> rfl

/-- What follows the first word of a declaration is read with what the word says. -/
theorem constant_reads {constant : Bool} {opening : Token} {f : Bool → Parse Stmt}
    {post : Stmt → Prop} (hk : opening.kind = if constant then .constWord else .letWord)
    (hname : firstKind (ws ++ rest) = .identifier) (hf : Reads (f constant) ws rest post) :
    Reads (constantBehind opening >>= f) ws rest post := by
  rw [constantBehind]
  cases constant with
  | true =>
    rw [if_pos (show opening.kind = .constWord from hk), pure_bind]
    exact hf
  | false =>
    rw [if_neg (by rw [hk]; decide)]
    refine Reads.after (.eatsNot (by rw [hname]; decide)) fun found hfound => ?_
    rw [hfound]
    exact hf

/-- The words of a declaration. -/
def declarationWords (constant : Bool) (name : String) (written : TypeExpr) (ws : List Word) :
    List Word :=
  Word.of (if constant then .constWord else .letWord) :: Word.name name :: Word.of .colon ::
    (written.words ++ Word.of .assignment :: ws)

/-- **A declaration,** up to what does not continue its value. -/
theorem declare_as (h : ReadsAs ws post) (constant : Bool) (name : String) (written : TypeExpr)
    (hfuel : 8 * (declarationWords constant name written ws).length ≤ fuel)
    (hrest : NoTail rest) :
    Reads (declarationWith fuel) (declarationWords constant name written ws) rest fun s =>
      ∃ span x, s = .declare span constant name written x ∧ post x := by
  simp only [declarationWords, List.length_cons, List.length_append] at hfuel
  obtain ⟨fuel, rfl⟩ := Nat.exists_eq_add_one_of_ne_zero (by omega : fuel ≠ 0)
  rw [declarationWith_succ]
  refine Reads.opening fun opening hopening => ?_
  refine constant_reads (congrArg Word.kind hopening) rfl ?_
  rw [declaredWith]
  refine Reads.tokenOr rfl fun token htoken => Reads.tokenOr rfl fun _ _ => ?_
  refine Reads.bind (readType_reads written _) fun t ht => Reads.token rfl fun _ _ => ?_
  refine (h fuel (by omega) rest hrest).last fun x hx => ?_
  refine Reads.after (.spanFrom _) fun span _ => .pure ⟨span, x, ?_, hx⟩
  have hvalue : token.value = name := congrArg Word.value htoken
  rw [hvalue, ht]

theorem declare_stmt (h : ReadsExpr ws e) (span : Span) (constant : Bool) (name : String)
    (written : TypeExpr) :
    ReadsStmt (Word.of (if constant then .constWord else .letWord) :: Word.name name ::
      Word.of .colon :: (written.words ++ Word.of .assignment :: ws))
      (.declare span constant name written e) := by
  intro fuel hfuel rest hrest
  have hrule : Grammar.standard.stmt? (if constant then .constWord else .letWord) =
      some .declaration := by cases constant <;> rfl
  rw [firstKind, Word.of, hrule, ruleWith]
  refine (declare_as h constant name written hfuel (.of hrest rfl)).mono ?_
  rintro _ ⟨span', x, rfl, hx⟩
  rw [Stmt.bare, Stmt.bare, hx]

/-- **A print statement,** whatever follows it. -/
theorem print_as (h : ReadsAs ws post)
    (hfuel : 8 * (Word.of .printWord :: grouped ws).length ≤ fuel) (rest : List Word) :
    Reads (printWith fuel) (Word.of .printWord :: grouped ws) rest fun s =>
      ∃ span x, s = .print span x ∧ post x := by
  rw [List.length_cons, length_grouped] at hfuel
  obtain ⟨fuel, rfl⟩ := Nat.exists_eq_add_one_of_ne_zero (by omega : fuel ≠ 0)
  rw [printWith]
  refine Reads.opening fun _ _ => Reads.token rfl fun _ _ => ?_
  refine Reads.bind (h fuel (by omega) _ rfl) fun x hx => Reads.token rfl fun _ _ => ?_
  exact Reads.after (.spanFrom _) fun span _ => .pure ⟨span, x, rfl, hx⟩

theorem print_stmt (h : ReadsExpr ws e) (span : Span) :
    ReadsStmt (Word.of .printWord :: grouped ws) (.print span e) := by
  intro fuel hfuel rest _
  refine (print_as h hfuel rest).mono ?_
  rintro _ ⟨span', x, rfl, hx⟩
  rw [Stmt.bare, Stmt.bare, hx]

/-- A return without a value: no expression starts with a semicolon. -/
theorem returns_stmt (span : Span) : ReadsStmt [Word.of .returnWord] (.returns span none) := by
  intro fuel hfuel rest hrest
  rw [List.length_singleton] at hfuel
  obtain ⟨fuel, rfl⟩ := Nat.exists_eq_add_one_of_ne_zero (by omega : fuel ≠ 0)
  show Reads (returnWith (fuel + 1)) _ _ _
  rw [returnWith]
  refine Reads.opening fun opening _ => Reads.look fun s hs => ?_
  have hno : ¬ (s.current.span.line = opening.span.line ∧
      (s.grammar.head? s.kind).isSome = true) := by
    rw [hs.grammar, hs.kind, List.nil_append, hrest]
    exact fun h => absurd h.2 (by decide)
  dsimp only
  rw [if_neg hno, pure_bind]
  exact Reads.after (.spanFrom _) fun span _ => .pure rfl

/-- A return with a value, which starts on the line of the return. -/
theorem returns_value_stmt (h : ReadsExpr ws e) (span : Span) :
    ReadsStmt (Word.of .returnWord :: grouped ws) (.returns span (some e)) := by
  intro fuel hfuel rest hrest
  rw [List.length_cons] at hfuel
  obtain ⟨fuel, rfl⟩ := Nat.exists_eq_add_one_of_ne_zero (by omega : fuel ≠ 0)
  show Reads (returnWith (fuel + 1)) _ _ _
  rw [returnWith]
  refine Reads.openingLook fun opening hopening s hs hline => ?_
  have hvalue : s.current.span.line = opening.span.line ∧
      (s.grammar.head? s.kind).isSome = true := by
    rw [hs.grammar, hs.kind]
    exact ⟨(hline (congrArg Word.kind hopening)).symm, rfl⟩
  dsimp only
  rw [if_pos hvalue, bind_map_left]
  refine (h.grouped fuel (by omega) rest (.of hrest rfl)).last fun x hx => ?_
  refine Reads.after (.spanFrom _) fun span _ => .pure ?_
  rw [Stmt.bare, Stmt.bare, hx]

/-- What stands behind the first block of a branch. -/
def otherwiseWith (fuel : Nat) : Parse (Option Block) := do
  if ← eat .elseWord then some <$> blockWith fuel else pure none

theorem branchWith_succ (fuel : Nat) : branchWith (fuel + 1) = (do
    let opening ← advance
    let condition ← exprWith fuel .default
    let yes ← blockWith fuel
    let no ← otherwiseWith fuel
    return .branch (← spanFrom opening.span.start) condition yes no) := by
  rw [branchWith]
  refine bind_congr fun opening => bind_congr fun condition => bind_congr fun yes => ?_
  rw [otherwiseWith, bind_assoc]
  refine bind_congr fun found => ?_
  cases found <;> rfl

/-- A branch, if what stands behind its first block is read. -/
theorem branch_stmt {ws'' : List Word} {yes : Block} {no : Option Block} (h : ReadsExpr ws e)
    (hstart : firstKind ws' = .openCurly) (hyes : ReadsBlock ws' yes)
    (hno : ∀ fuel, 8 * ws''.length ≤ fuel → ∀ rest, firstKind rest = .semicolon →
      Reads (otherwiseWith fuel) ws'' rest fun x => x.map Block.bare = no.map Block.bare)
    (span : Span) :
    ReadsStmt (Word.of .ifWord :: (ws ++ (ws' ++ ws''))) (.branch span e yes no) := by
  intro fuel hfuel rest hrest
  rw [List.length_cons, List.length_append, List.length_append] at hfuel
  obtain ⟨fuel, rfl⟩ := Nat.exists_eq_add_one_of_ne_zero (by omega : fuel ≠ 0)
  show Reads (branchWith (fuel + 1)) _ _ _
  have hopen : firstKind (ws' ++ ws'' ++ rest) = .openCurly := by
    rw [List.append_assoc, firstKind_append (ne_nil_of_start (hstart ▸ by decide)), hstart]
  rw [branchWith_succ]
  refine Reads.opening fun _ _ => ?_
  refine Reads.bind (h fuel (by omega) _ (.of hopen rfl)) fun x hx => ?_
  refine Reads.bind (hyes fuel (by omega) _) fun y hy => ?_
  refine (hno fuel (by omega) rest hrest).last fun n hn => ?_
  refine Reads.after (.spanFrom _) fun span _ => .pure ?_
  rw [Stmt.bare_branch, Stmt.bare_branch, hx, hy, hn]

/-- Nothing, up to a semicolon. -/
theorem otherwise_none (hrest : firstKind rest = .semicolon) :
    Reads (otherwiseWith fuel) [] rest fun x => x.map Block.bare = none := by
  refine Reads.after (.eatsNot (by rw [List.nil_append, hrest]; decide)) fun found hfound => ?_
  rw [hfound]
  exact .pure rfl

/-- A second block. -/
theorem otherwise_some {no : Block} (h : ReadsBlock ws no)
    (hfuel : 8 * (Word.of .elseWord :: ws).length ≤ fuel) :
    Reads (otherwiseWith fuel) (Word.of .elseWord :: ws) rest fun x =>
      x.map Block.bare = some no.bare := by
  rw [List.length_cons] at hfuel
  refine Reads.one (.eats rfl) fun found hfound => ?_
  rw [hfound]
  exact (h fuel (by omega) rest).map fun x hx => congrArg some hx

/-! ## 6. Every phrase -/

variable (enclose : Bool)

theorem Block.words_start (b : Block) : firstKind (b.words enclose) = .openCurly := by
  cases b
  rw [Block.words]
  rfl

theorem start_of {k : TokenKind} (hk : k ∈ stmtStarts) :
    firstKind (Word.of k :: ws) ∈ stmtStarts := hk

theorem Stmt.words_start (s : Stmt) : firstKind (s.words enclose) ∈ stmtStarts := by
  cases s with
  | declare _ constant =>
    rw [Stmt.words]
    exact start_of (by cases constant <;> decide)
  | returns _ value => cases value <;> rw [Stmt.words] <;> exact start_of (by decide)
  | branch _ _ _ no => cases no <;> rw [Stmt.words] <;> exact start_of (by decide)
  | block body =>
    rw [Stmt.words, Block.words_start]
    decide
  | expr | print =>
    rw [Stmt.words]
    exact start_of (by decide)

mutual
/-- **Every expression that can be written is read from its words.** -/
theorem expr_reads : (e : Expr) → e.Writable → ReadsExpr (e.words enclose) e
  | .int node _, h => by
    rw [Expr.words]
    rw [Expr.Writable] at h
    exact primary_expr (.int node h)
  | .text node value, _ => by
    rw [Expr.words]
    exact primary_expr (.text node value)
  | .char node value, _ => by
    rw [Expr.words]
    exact primary_expr (.char node value)
  | .bool node value, _ => by
    rw [Expr.words]
    cases value
    · exact primary_expr (.false node)
    · exact primary_expr (.true node)
  | .name node value, _ => by
    rw [Expr.words]
    exact primary_expr (.name node value)
  | .binary node op left right, h => by
    rw [Expr.words]
    rw [Expr.Writable] at h
    exact binary_reads (expr_reads left h.1) (expr_reads right h.2) node op
  | .array node items, h => by
    rw [Expr.words]
    rw [Expr.Writable] at h
    exact array_reads (items_parts (by decide) rfl items h) node
  | .hash node entries, h => by
    rw [Expr.words]
    rw [Expr.Writable] at h
    exact hash_reads (entries_parts entries h) node
  | .fn node params returns body, h => by
    rw [Expr.words]
    rw [Expr.Writable] at h
    exact fn_reads (block_reads body h.2) node params returns
  | .index node target key, h => by
    rw [Expr.words]
    rw [Expr.Writable] at h
    exact index_reads (expr_reads target h.1) (expr_reads key h.2) node
  | .call node callee args, h => by
    rw [Expr.words]
    rw [Expr.Writable] at h
    exact call_reads (expr_reads callee h.1) (items_parts (by decide) rfl args h.2) node

theorem items_parts {closing : TokenKind} (hopen : .openParen ≠ closing)
    (htail : Grammar.standard.tail? closing = none) : (items : List Expr) →
    itemsWritable items → List.Forall₂ (ReadsPart (exprWith · .default) closing
      fun x e => x.bare = e.bare) (itemWords enclose items) items
  | [], _ => .nil
  | e :: rest, h => by
    rw [itemsWritable] at h
    exact .cons ((expr_reads e h.1).part hopen htail) (items_parts hopen htail rest h.2)

theorem entries_parts : (entries : List (Expr × Expr)) → entriesWritable entries →
    List.Forall₂ (ReadsPart entryWith .closeCurly
      fun x y => (x.1.bare, x.2.bare) = (y.1.bare, y.2.bare)) (entryWords enclose entries) entries
  | [], _ => .nil
  | (k, v) :: rest, h => by
    rw [entriesWritable] at h
    exact .cons (entry_part (expr_reads k h.1) (expr_reads v h.2.1))
      (entries_parts rest h.2.2)

/-- **Every statement that can be written is read from its words.** -/
theorem stmt_reads : (s : Stmt) → s.Writable → ReadsStmt (s.words enclose) s
  | .declare span constant name written value, h => by
    rw [Stmt.words]
    rw [Stmt.Writable] at h
    exact declare_stmt ((expr_reads value h.2).enclosed enclose) span constant name written
  | .returns span none, _ => by
    rw [Stmt.words]
    exact returns_stmt span
  | .returns span (some value), h => by
    rw [Stmt.words]
    rw [Stmt.Writable] at h
    exact returns_value_stmt (expr_reads value h) span
  | .expr value, h => by
    rw [Stmt.words]
    rw [Stmt.Writable] at h
    exact expr_stmt (expr_reads value h)
  | .branch span condition yes none, h => by
    rw [Stmt.words, ← List.append_nil (yes.words enclose)]
    rw [Stmt.Writable] at h
    exact branch_stmt ((expr_reads condition h.1).enclosed enclose) (yes.words_start enclose)
      (block_reads yes h.2) (fun _ _ _ hrest => otherwise_none hrest) span
  | .branch span condition yes (some no), h => by
    rw [Stmt.words]
    rw [Stmt.Writable] at h
    exact branch_stmt ((expr_reads condition h.1).enclosed enclose) (yes.words_start enclose)
      (block_reads yes h.2.1) (fun _ hfuel _ _ => otherwise_some (block_reads no h.2.2) hfuel) span
  | .print span value, h => by
    rw [Stmt.words]
    rw [Stmt.Writable] at h
    exact print_stmt ((expr_reads value h).enclosed enclose) span
  | .block body, h => by
    rw [Stmt.words]
    rw [Stmt.Writable] at h
    exact block_stmt (body.words_start enclose) (block_reads body h)

/-- **Every block that can be written is read from its words.** -/
theorem block_reads : (b : Block) → b.Writable → ReadsBlock (b.words enclose) b
  | .mk body span, h => by
    rw [Block.words]
    rw [Block.Writable] at h
    exact (stmts_read body h).block span

theorem stmts_read : (body : List Stmt) → stmtsWritable body →
    ReadsStmts (stmtWords enclose body) body
  | [], _ => by
    rw [stmtWords]
    exact stmts_nil
  | s :: rest, h => by
    rw [stmtWords]
    rw [stmtsWritable] at h
    exact stmts_cons (stmt_reads s h.1) (s.words_start enclose) (stmts_read rest h.2)
end

end Stackling
