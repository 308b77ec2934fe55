import Mathlib.Data.List.Nodup
import Stackling.Proofs.Syntax.Numbers
import Stackling.Syntax.TopLevel

/-
  File:     Stackling/Proofs/Syntax/Numbering.lean
  Subject:  The reader gives every expression a number of its own.

  A reader that consumes no expression keeps the next number (`Steady`). Any other one numbers
  the expressions it reads in order, without a gap (`Numbers`). The readers nest, so there is
  one induction on the fuel over all of them.

  * `Steady`, `Numbers`   -- the two notions, each with a lemma for every way of composing;
  * `Numbered`            -- all readers of one fuel number what they read;
  * `parse_nodup`         -- no two expressions of a program have the same number.
-/
namespace Stackling

open Parse

variable {α β : Type}

/-! ## 1. Readers that number nothing -/

/-- A sequence of readers succeeds exactly if both do, one after the other. -/
theorem Parse.bind_eq_ok {m : Parse α} {f : α → Parse β} {s t : Stream} {y : β} :
    (m >>= f) s = .ok y t ↔ ∃ x s', m s = .ok x s' ∧ f x s' = .ok y t := by
  show EStateM.bind m f s = _ ↔ _
  unfold EStateM.bind
  constructor
  · intro h
    cases hm : m s with
    | error e s' => rw [hm] at h; cases h
    | ok x s' => rw [hm] at h; exact ⟨x, s', rfl, h⟩
  · rintro ⟨x, s', hm, hf⟩
    rw [hm]
    exact hf

/-- A reader that keeps the number for the next expression. -/
class Steady (m : Parse α) : Prop where
  nextId {s s' : Stream} {x : α} : m s = .ok x s' → s'.nextId = s.nextId

namespace Steady

instance (x : α) : Steady (pure x : Parse α) where
  nextId h := by
    cases h
    rfl

instance bind (m : Parse α) (f : α → Parse β) [hm : Steady m] [hf : ∀ x, Steady (f x)] :
    Steady (m >>= f) where
  nextId h := by
    obtain ⟨x, s', h₁, h₂⟩ := bind_eq_ok.mp h
    rw [(hf x).nextId h₂, hm.nextId h₁]

instance (c : Prop) [Decidable c] (m n : Parse α) [Steady m] [Steady n] :
    Steady (if c then m else n) := by
  split <;> assumption

instance : Steady (get : Parse Stream) where
  nextId h := by
    cases h
    rfl

instance (cause : SyntaxCause) (place : Position) : Steady (failAt cause place : Parse α) where
  nextId := nofun

instance (cause : SyntaxCause) : Steady (failHere cause : Parse α) := by
  unfold failHere
  infer_instance

instance : Steady (unexpected : Parse α) := by
  unfold unexpected
  infer_instance

instance (detail : String) : Steady (unexpectedBecause detail : Parse α) := by
  unfold unexpectedBecause
  infer_instance

instance : Steady advance where
  nextId {s s' x} h := by
    cases h
    unfold Stream.next
    split <;> rfl

instance (m : Parse α) [hm : Steady m] : Steady (discard m) where
  nextId {s s' x} h := by
    have heq : discard m s = (m >>= fun _ => pure ⟨⟩) s := by
      show EStateM.map _ m s = EStateM.bind m _ s
      unfold EStateM.map EStateM.bind
      cases m s <;> rfl
    rw [heq] at h
    obtain ⟨_, _, h₁, h₂⟩ := bind_eq_ok.mp h
    cases h₂
    exact hm.nextId h₁

instance (kind : TokenKind) : Steady (eat kind) := by
  unfold eat
  infer_instance

instance (kind : TokenKind) (otherwise : Parse Token) [Steady otherwise] :
    Steady (expectOr kind otherwise) := by
  unfold expectOr
  infer_instance

instance (kind : TokenKind) : Steady (expect kind) := by
  unfold expect
  infer_instance

instance (start : Position) : Steady (spanFrom start) := by
  unfold spanFrom
  infer_instance

end Steady

mutual
theorem typeWith_steady : (fuel : Nat) → Steady (typeWith fuel)
  | 0 => by
    unfold typeWith
    infer_instance
  | fuel + 1 => by
    have := typeWith_steady fuel
    have := typesWith_steady fuel
    unfold typeWith
    refine @Steady.bind _ _ _ _ inferInstance fun s => ?_
    split
    · infer_instance
    · refine @Steady.bind _ _ _ _ inferInstance fun token => ?_
      split <;> infer_instance
    · infer_instance

theorem typesWith_steady : (fuel : Nat) → Steady (typesWith fuel)
  | 0 => by
    unfold typesWith
    infer_instance
  | fuel + 1 => by
    have := typeWith_steady fuel
    have := typesWith_steady fuel
    unfold typesWith
    infer_instance
end

instance : Steady readType := by
  have := typeWith_steady
  unfold readType
  infer_instance

theorem paramsWith_steady (fuel : Nat) : Steady (paramsWith fuel) := by
  induction fuel with
  | zero =>
    unfold paramsWith
    infer_instance
  | succ fuel ih =>
    unfold paramsWith
    infer_instance

instance : Steady readParams := by
  have := paramsWith_steady
  unfold readParams
  infer_instance

/-! ## 2. Readers that number what they read -/

/-- If `before` is numbered up to the next number, then so is what the reader gives. -/
def Numbers (m : Parse α) (before : List Nat) (ids : α → List Nat) : Prop :=
  ∀ (s s' : Stream) (x : α), m s = .ok x s' → ∀ first, first ≤ s.nextId →
    before = List.range' first (s.nextId - first) →
    first ≤ s'.nextId ∧ ids x = List.range' first (s'.nextId - first)

namespace Numbers

variable {m : Parse α} {f : α → Parse β} {before : List Nat} {ids : α → List Nat}
  {ids' : β → List Nat}

theorem steady [hm : Steady m] : Numbers m before fun _ => before := by
  intro s s' x h first hle hb
  rw [hm.nextId h]
  exact ⟨hle, hb⟩

theorem pure (x : α) (h : ids x = before) : Numbers (Pure.pure x) before ids := by
  rintro s s' y ⟨⟩ first hle hb
  exact ⟨hle, h.trans hb⟩

theorem bind (hm : Numbers m before ids) (hf : ∀ x, Numbers (f x) (ids x) ids') :
    Numbers (m >>= f) before ids' := by
  intro s s' y h first hle hb
  obtain ⟨x, t, h₁, h₂⟩ := bind_eq_ok.mp h
  obtain ⟨hle', hx⟩ := hm s t x h₁ first hle hb
  exact hf x t s' y h₂ first hle' hx

/-- What follows a reader that numbers nothing. -/
theorem after [Steady m] (hf : ∀ x, Numbers (f x) before ids') : Numbers (m >>= f) before ids' :=
  bind steady hf

/-- What was numbered before stays in front. -/
theorem frame (h : Numbers m [] ids) (before : List Nat) :
    Numbers m before fun x => before ++ ids x := by
  intro s s' x hm first hle hb
  obtain ⟨hle', hx⟩ := h s s' x hm s.nextId (Nat.le_refl _) (by simp)
  have hsum : s'.nextId - first = (s.nextId - first) + (s'.nextId - s.nextId) := by omega
  have hend : first + (s.nextId - first) = s.nextId := by omega
  refine ⟨Nat.le_trans hle hle', ?_⟩
  show before ++ ids x = _
  rw [hb, hx, hsum, ← List.range'_append_1, hend]

theorem freshId : Numbers Parse.freshId before fun id => before ++ [id] := by
  rintro s s' x ⟨⟩ first hle hb
  refine ⟨Nat.le_succ_of_le hle, ?_⟩
  have hsum : s.nextId + 1 - first = (s.nextId - first) + 1 := by omega
  have hend : first + (s.nextId - first) = s.nextId := by omega
  simp only [hsum, List.range'_concat, Nat.one_mul, hend, hb]

theorem map {g : α → β} (h : Numbers m before ids) (hg : ∀ x, ids' (g x) = ids x) :
    Numbers (g <$> m) before ids' := by
  rw [← bind_pure_comp]
  exact h.bind fun x => .pure _ (hg x)

theorem ite {c : Prop} [Decidable c] {m' : Parse α} (h : Numbers m before ids)
    (h' : Numbers m' before ids) : Numbers (if c then m else m') before ids := by
  split <;> assumption

theorem finishNode (start : Position) :
    Numbers (Stackling.finishNode start) before fun node => before ++ [node.id] :=
  freshId.bind fun _ => after fun _ => .pure _ rfl

end Numbers

/-! ## 3. Expressions, statements and blocks -/

theorem failAt_numbers (cause : SyntaxCause) (place : Position) (before : List Nat)
    (ids : α → List Nat) : Numbers (failAt cause place) before ids := by
  intro s s' x h
  cases show EStateM.Result.error _ _ = EStateM.Result.ok x s' from h

theorem failHere_numbers (cause : SyntaxCause) (before : List Nat) (ids : α → List Nat) :
    Numbers (failHere cause) before ids := .after fun _ => failAt_numbers _ _ _ _

theorem unexpected_numbers (before : List Nat) (ids : α → List Nat) :
    Numbers unexpected before ids := .after fun _ => failHere_numbers _ _ _

/-- All readers of some fuel number what they read. -/
structure Numbered (fuel : Nat) : Prop where
  expr (power : Power) : Numbers (exprWith fuel power) [] Expr.ids
  head : Numbers (headWith fuel) [] Expr.ids
  tails (power : Power) (left : Expr) : Numbers (tailsWith fuel power left) left.ids Expr.ids
  items (closing : TokenKind) : Numbers (itemsWith fuel closing) [] itemIds
  entries : Numbers (entriesWith fuel) [] entryIds
  block : Numbers (blockWith fuel) [] Block.ids
  stmts : Numbers (stmtsWith fuel) [] stmtIds
  stmt : Numbers (stmtWith fuel) [] Stmt.ids
  declaration : Numbers (declarationWith fuel) [] Stmt.ids
  branch : Numbers (branchWith fuel) [] Stmt.ids
  returns : Numbers (returnWith fuel) [] Stmt.ids
  print : Numbers (printWith fuel) [] Stmt.ids

theorem numbered_zero : Numbered 0 where
  expr _ := by
    unfold exprWith
    exact unexpected_numbers _ _
  head := by
    unfold headWith
    exact unexpected_numbers _ _
  tails _ _ := by
    unfold tailsWith
    exact unexpected_numbers _ _
  items _ := by
    unfold itemsWith
    exact unexpected_numbers _ _
  entries := by
    unfold entriesWith
    exact unexpected_numbers _ _
  block := by
    unfold blockWith
    exact unexpected_numbers _ _
  stmts := by
    unfold stmtsWith
    exact unexpected_numbers _ _
  stmt := by
    unfold stmtWith
    exact unexpected_numbers _ _
  declaration := by
    unfold declarationWith
    exact unexpected_numbers _ _
  branch := by
    unfold branchWith
    exact unexpected_numbers _ _
  returns := by
    unfold returnWith
    exact unexpected_numbers _ _
  print := by
    unfold printWith
    exact unexpected_numbers _ _

theorem readPrimary_numbers : Numbers readPrimary [] Expr.ids := by
  unfold readPrimary
  refine Numbers.freshId.bind fun id => .after fun s => ?_
  have hend : ∀ e : Expr, Numbers (discard advance >>= fun _ => pure e) e.ids Expr.ids :=
    fun e => .after fun _ => .pure e rfl
  dsimp only
  split
  · split
    · exact (Numbers.pure _ rfl).bind hend
    · exact (failHere_numbers _ _ _).bind hend
  · exact (Numbers.pure _ rfl).bind hend
  · exact (Numbers.pure _ rfl).bind hend
  · split
    · exact (Numbers.pure _ rfl).bind hend
    · exact (failHere_numbers _ _ _).bind hend
  · exact (Numbers.pure _ rfl).bind hend
  · exact (Numbers.pure _ rfl).bind hend
  · exact (unexpected_numbers _ _).bind hend

namespace Numbered

variable {fuel : Nat}

theorem exprWith_succ (h : Numbered fuel) (power : Power) :
    Numbers (exprWith (fuel + 1) power) [] Expr.ids := by
  unfold exprWith
  exact h.head.bind fun left => h.tails power left

theorem headWith_succ (h : Numbered fuel) : Numbers (headWith (fuel + 1)) [] Expr.ids := by
  unfold headWith
  refine .after fun s => ?_
  split
  · exact unexpected_numbers _ _
  · exact readPrimary_numbers
  · exact .after fun _ => (h.expr _).bind fun e => .after fun _ => .pure e rfl
  · refine .after fun opening => (h.items _).bind fun items => .after fun _ => ?_
    exact (Numbers.finishNode _).bind fun node => .pure _ (by rw [Expr.ids])
  · refine .after fun opening => h.entries.bind fun entries => .after fun _ => ?_
    exact (Numbers.finishNode _).bind fun node => .pure _ (by rw [Expr.ids])
  · refine .after fun opening => .after fun params => .after fun _ => .after fun returns => ?_
    exact h.block.bind fun body => Numbers.freshId.bind fun id => .pure _ (by rw [Expr.ids])

theorem tailsWith_succ (h : Numbered fuel) (power : Power) (left : Expr) :
    Numbers (tailsWith (fuel + 1) power left) left.ids Expr.ids := by
  unfold tailsWith
  refine .after fun s => ?_
  split
  · exact .pure left rfl
  · refine .ite (.pure left rfl) (.after fun _ => ?_)
    split
    · refine ((h.expr _).frame left.ids).bind fun right => Numbers.freshId.bind fun id => ?_
      have := h.tails power (.binary ⟨id, ⟨left.span.start, right.span.stop⟩⟩ ‹_› left right)
      rwa [Expr.ids] at this
    · refine ((h.items _).frame left.ids).bind fun args => .after fun _ => ?_
      refine (Numbers.finishNode _).bind fun node => ?_
      have := h.tails power (.call node left args)
      rwa [Expr.ids] at this
    · refine ((h.expr _).frame left.ids).bind fun key => .after fun _ => ?_
      refine (Numbers.finishNode _).bind fun node => ?_
      have := h.tails power (.index node left key)
      rwa [Expr.ids] at this

theorem itemsWith_succ (h : Numbered fuel) (closing : TokenKind) :
    Numbers (itemsWith (fuel + 1) closing) [] itemIds := by
  unfold itemsWith
  refine .after fun s => .ite (.pure _ (by rw [itemIds])) ?_
  refine (h.expr _).bind fun first => .after fun more => .ite ?_ (.pure _ ?_)
  · refine ((h.items closing).frame first.ids).bind fun rest => .pure _ (by rw [itemIds])
  · rw [itemIds, itemIds, List.append_nil]

theorem entriesWith_succ (h : Numbered fuel) : Numbers (entriesWith (fuel + 1)) [] entryIds := by
  unfold entriesWith
  refine .after fun s => .ite (.pure _ (by rw [entryIds])) ?_
  refine (h.expr _).bind fun key => .after fun _ => ?_
  refine ((h.expr _).frame key.ids).bind fun value => .after fun more => .ite ?_ (.pure _ ?_)
  · refine (h.entries.frame (key.ids ++ value.ids)).bind fun rest => .pure _ (by rw [entryIds])
  · rw [entryIds, entryIds, List.append_nil]

theorem blockWith_succ (h : Numbered fuel) : Numbers (blockWith (fuel + 1)) [] Block.ids := by
  unfold blockWith
  refine .after fun opening => h.stmts.bind fun body => .after fun _ => .after fun span => ?_
  exact .pure _ (by rw [Block.ids])

theorem stmtsWith_succ (h : Numbered fuel) : Numbers (stmtsWith (fuel + 1)) [] stmtIds := by
  unfold stmtsWith
  refine .after fun s => .ite (.pure _ (by rw [stmtIds])) ?_
  refine h.stmt.bind fun first => (h.stmts.frame first.ids).bind fun rest => ?_
  exact .pure _ (by rw [stmtIds])

theorem stmtWith_succ (h : Numbered fuel) : Numbers (stmtWith (fuel + 1)) [] Stmt.ids := by
  unfold stmtWith
  have hend : ∀ s : Stmt, Numbers (discard (eat .semicolon) >>= fun _ => pure s) s.ids Stmt.ids :=
    fun s => .after fun _ => .pure s rfl
  refine .after fun s => ?_
  dsimp only
  split
  · exact .bind ((h.expr _).map fun e => by rw [Stmt.ids]) hend
  · exact .bind (h.block.map fun b => by rw [Stmt.ids]) hend
  · exact h.declaration.bind hend
  · exact h.branch.bind hend
  · exact h.returns.bind hend
  · exact h.print.bind hend

theorem declarationWith_succ (h : Numbered fuel) :
    Numbers (declarationWith (fuel + 1)) [] Stmt.ids := by
  unfold declarationWith
  refine .after fun opening => ?_
  dsimp only
  refine .ite (.after fun constant => ?_) (.after fun constant => ?_)
  all_goals
    refine .after fun name => .after fun _ => .after fun written => .after fun _ => ?_
    refine (h.expr _).bind fun value => .after fun span => .pure _ ?_
    rw [Stmt.ids]

theorem branchWith_succ (h : Numbered fuel) : Numbers (branchWith (fuel + 1)) [] Stmt.ids := by
  unfold branchWith
  refine .after fun opening => (h.expr _).bind fun condition => ?_
  refine (h.block.frame condition.ids).bind fun yes => .after fun more => ?_
  dsimp only
  have hend : ∀ no : Option Block,
      Numbers (spanFrom opening.span.start >>= fun span => pure (.branch span condition yes no))
        (condition.ids ++ yes.ids ++ no.elim [] Block.ids) Stmt.ids :=
    fun no => .after fun span => .pure _ (by cases no <;> simp [Stmt.ids])
  refine .ite (.bind ?_ hend) (.bind (.pure none ?_) hend)
  · exact (h.block.frame (condition.ids ++ yes.ids)).map fun no => rfl
  · exact List.append_nil _

theorem returnWith_succ (h : Numbered fuel) : Numbers (returnWith (fuel + 1)) [] Stmt.ids := by
  unfold returnWith
  refine .after fun opening => .after fun s => ?_
  dsimp only
  have hend : ∀ value : Option Expr,
      Numbers (spanFrom opening.span.start >>= fun span => pure (.returns span value))
        (value.elim [] Expr.ids) Stmt.ids :=
    fun value => .after fun span => .pure _ (by cases value <;> simp [Stmt.ids])
  refine .ite (.bind ?_ hend) (.bind (.pure none rfl) hend)
  exact (h.expr _).map fun e => rfl

theorem printWith_succ (h : Numbered fuel) : Numbers (printWith (fuel + 1)) [] Stmt.ids := by
  unfold printWith
  refine .after fun opening => .after fun _ => (h.expr _).bind fun value => .after fun _ => ?_
  exact .after fun span => .pure _ (by rw [Stmt.ids])

end Numbered

/-- **The readers of every fuel number what they read.** -/
theorem numbered (fuel : Nat) : Numbered fuel := by
  induction fuel with
  | zero => exact numbered_zero
  | succ fuel ih =>
    exact {
      expr := ih.exprWith_succ
      head := ih.headWith_succ
      tails := ih.tailsWith_succ
      items := ih.itemsWith_succ
      entries := ih.entriesWith_succ
      block := ih.blockWith_succ
      stmts := ih.stmtsWith_succ
      stmt := ih.stmtWith_succ
      declaration := ih.declarationWith_succ
      branch := ih.branchWith_succ
      returns := ih.returnWith_succ
      print := ih.printWith_succ }

/-! ## 4. Programs -/

/-- The numbers in what stands at top level. -/
def Item.ids : Item → List Nat
  | .function f => f.body.ids
  | .global s => s.ids
  | .main body => body.ids

/-- The numbers in all that stands at top level, in the order of the text. -/
def topIds : List Item → List Nat
  | [] => []
  | item :: rest => item.ids ++ topIds rest

theorem readBlock_numbers : Numbers readBlock [] Block.ids :=
  .after fun s => (numbered s.budget).block

theorem readStmt_numbers : Numbers readStmt [] Stmt.ids :=
  .after fun s => (numbered s.budget).stmt

theorem readMain_numbers : Numbers readMain [] Block.ids := by
  unfold readMain
  refine .after fun _ => .after fun _ => .after fun _ => .after fun s => ?_
  dsimp only
  have hblock : Numbers (discard advance >>= fun _ => eat .colon >>= fun typed =>
      if typed then do
        let place := (← get).place
        let returns ← readType
        if !returns.isVoid then
          failAt (.unexpectedBecause returns.text "main must return void") place
        readBlock
      else readBlock) [] Block.ids := by
    refine .after fun _ => .after fun typed => .ite ?_ readBlock_numbers
    refine .after fun s => .after fun returns => ?_
    exact .ite (.after fun _ => readBlock_numbers) readBlock_numbers
  exact .ite (.after fun _ => hblock) hblock

theorem readFunction_numbers : Numbers readFunction [] fun f => f.body.ids := by
  unfold readFunction
  refine .after fun opening => .after fun name => .after fun params => .after fun _ => ?_
  exact .after fun returns => readBlock_numbers.bind fun body => .pure _ rfl

theorem readItem_numbers (seen : Bool) : Numbers (readItem seen) [] Item.ids := by
  unfold readItem
  refine .after fun s => .ite ?_ (.ite ?_ ?_)
  · refine readMain_numbers.bind fun body => ?_
    exact .ite (.after fun _ => .pure _ rfl) (.pure _ rfl)
  · exact readFunction_numbers.bind fun f => .pure _ rfl
  · exact readStmt_numbers.bind fun s => .pure _ rfl

theorem itemsOf_numbers (fuel : Nat) (seen : Bool) : Numbers (itemsOf fuel seen) [] topIds := by
  induction fuel generalizing seen with
  | zero => exact unexpected_numbers _ _
  | succ fuel ih =>
    unfold itemsOf
    refine .after fun s => .ite (.pure _ rfl) ?_
    refine (readItem_numbers seen).bind fun item => .after fun _ => ?_
    exact ((ih _).frame item.ids).bind fun rest => .pure _ rfl

/-- No number occurs more often in the parts of a program than in the text. -/
theorem count_top_le {items : List Item} {main : Block} (n : Nat)
    (h : items.findSome? Item.main? = some main) :
    (stmtIds (items.filterMap Item.global?)).count n +
      (functionIds (items.filterMap Item.function?)).count n + main.ids.count n ≤
        (topIds items).count n := by
  have hrest : ∀ items : List Item, (stmtIds (items.filterMap Item.global?)).count n +
      (functionIds (items.filterMap Item.function?)).count n ≤ (topIds items).count n := by
    intro items
    induction items with
    | nil => simp [stmtIds, functionIds, topIds]
    | cons item rest ih =>
      cases item <;>
        simp only [List.filterMap_cons, Item.global?, Item.function?, stmtIds, functionIds, topIds,
          Item.ids, List.count_append] <;> omega
  induction items with
  | nil => cases h
  | cons item rest ih =>
    cases item with
    | main body =>
      obtain rfl : body = main := Option.some.inj h
      have := hrest rest
      simp only [List.filterMap_cons, Item.global?, Item.function?, topIds, Item.ids,
        List.count_append]
      omega
    | function f | global s =>
      have := ih h
      simp only [List.filterMap_cons, Item.global?, Item.function?, stmtIds, functionIds, topIds,
        Item.ids, List.count_append]
      omega

/-- **No two expressions of a program have the same number.** -/
theorem parse_nodup {tokens : List Token} {p : Program} (h : parse tokens = .ok p) :
    p.ids.Nodup := by
  unfold parse Parse.result EStateM.run at h
  cases hr : readProgram (Stream.ofTokens .standard tokens) with
  | error e s => rw [hr] at h; cases h
  | ok q s =>
    rw [hr] at h
    obtain rfl : q = p := Except.ok.inj h
    unfold readProgram at hr
    obtain ⟨_, _, h₁, hr⟩ := bind_eq_ok.mp hr
    obtain ⟨_, _, h₂, hr⟩ := bind_eq_ok.mp hr
    obtain ⟨items, s₃, h₃, hr⟩ := bind_eq_ok.mp hr
    obtain ⟨_, _, h₄, hr⟩ := bind_eq_ok.mp hr
    obtain ⟨-, hids⟩ := itemsOf_numbers _ _ _ _ _ h₃ _ (Nat.le_refl _) (by simp)
    cases hm : items.findSome? Item.main? with
    | none =>
      rw [hm] at hr
      cases hr
    | some main =>
      rw [hm] at hr
      cases hr
      rw [List.nodup_iff_count_le_one]
      intro n
      have hle := count_top_le n hm
      have hone : (topIds items).count n ≤ 1 := by
        rw [hids]
        exact List.nodup_iff_count_le_one.mp List.nodup_range' n
      simp only [Program.ids, List.count_append]
      omega

end Stackling
