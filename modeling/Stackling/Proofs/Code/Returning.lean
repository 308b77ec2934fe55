import Stackling.Proofs.Code.Alike
import Stackling.Proofs.Code.Pieces
import Stackling.Proofs.Code.Verified

/-
  File:     Stackling/Proofs/Code/Returning.lean
  Subject:  Code comes to its end exactly if the body does not always return.

  The analysis asks of a body whether it returns on all ways, and the generator writes one more
  instruction behind the body. Whatever the table of types says, that instruction is reachable
  exactly if the answer is no. The two are compared part by part: what is written for a part is
  a piece of code, and control comes through it unless the part always returns.

  * `CodeUnit.ReturnsAs`       -- a finished unit agrees with the body of its callable;
  * `Generator.Writes`         -- a step that keeps this for all finished units;
  * `lowerExpr_writes`, `lowerStmt_writes`, … -- what is written for a part is such a step;
  * `generate_returns_exactly` -- all units of a program.
-/
namespace Stackling

open Generate

variable {p : Program} {g g₁ g₂ g' : Generator} {r r' : Bool}

/-! ## 1. Finished units -/

/-- **A unit returns as the body of a callable does:** control comes to its last instruction,
    which stands behind the body, exactly if the body does not always return. -/
structure CodeUnit.ReturnsAs (u : CodeUnit) (c : CallableDecl) : Prop where
  name : u.name = c.name
  arity : u.arity = c.params.length
  last : u.ops.back? = some (terminatorOf c.returns)
  exact : u.Reaches 0 (u.ops.size - 1) ↔ anyAlwaysReturns c.body = false

/-- A unit in work that was begun for a callable and has no code yet. -/
structure UnitBuilder.Fresh (b : UnitBuilder) (id : UnitId) (c : CallableDecl) : Prop where
  id : b.id = id
  name : b.name = c.name
  arity : b.arity = c.params.length
  returns : b.returns = c.returns
  ops : b.ops = #[]

/-- **A unit is finished** behind the code of the body. -/
theorem Generator.Flows.finish {b : UnitBuilder} {id : UnitId} {c : CallableDecl} {v : CodeUnit}
    (hb : b.Fresh id c)
    (h : Generator.Flows { g with current := b } g₁ (anyAlwaysReturns c.body))
    (hf : g₁.current.finish = .ok v) : v.id = id ∧ v.ReturnsAs c := by
  obtain ⟨-, hid, hname, -, harity, -, hops, -, hlabels⟩ := finish_inv hf
  have hsize : v.ops.size = g₁.pc + 1 := by
    rw [hops, Array.size_push]
    rfl
  have hflows := h.flows v
    ⟨⟨[_], by rw [hops, Array.toList_push]⟩, fun l o hl => (hlabels l o).mpr hl⟩
  have hstart : ({ g with current := b } : Generator).pc = 0 := by
    rw [Generator.pc, hb.ops]
    rfl
  rw [hstart] at hflows
  refine ⟨hid.trans (h.id.trans hb.id), hname.trans (h.name.trans hb.name),
    harity.trans (h.arity.trans hb.arity), ?_, ?_⟩
  · rw [hops, Array.back?_push, h.returns, hb.returns]
  · rw [hsize, Nat.add_sub_cancel]
    exact hflows.exact

/-- **The units that are finished agree with the callables of the program.** -/
structure Generator.Agrees (p : Program) (g : Generator) : Prop where
  counted : g.units.size = p.literalUnit g.literals
  units : ∀ (id : UnitId) (v : CodeUnit), g.units[id]? = some (some v) →
    ∃ c, p.callables[id]? = some c ∧ v.ReturnsAs c

/-- **A step that writes some code with some literals,** and the units of these. -/
structure Generator.Writes (p : Program) (g g' : Generator) (literals : List Literal)
    (always : Bool) : Prop extends g.Flows g' always where
  counted : g'.literals = g.literals + literals.length
  agrees : g.Agrees p → Segment p.literals g.literals literals → g'.Agrees p

namespace Generator.Writes

variable {ls ls' : List Literal}

theorem of_flows (h : g.Flows g' r) (hu : g'.units = g.units) (hl : g'.literals = g.literals) :
    g.Writes p g' [] r :=
  { h with
    counted := hl
    agrees := fun ha _ => ⟨by rw [hu, hl, ha.counted], fun id v hv => ha.units id v (hu ▸ hv)⟩ }

theorem refl (g : Generator) : g.Writes p g [] false := .of_flows (.refl g) rfl rfl

theorem trans (h : g.Writes p g₁ ls r) (h' : g₁.Writes p g₂ ls' r') :
    g.Writes p g₂ (ls ++ ls') (r || r') :=
  { h.toFlows.trans h'.toFlows with
    counted := by rw [h'.counted, h.counted, List.length_append, Nat.add_assoc]
    agrees := fun ha hs => by
      refine h'.agrees (h.agrees ha hs.left) ?_
      rw [h.counted]
      exact hs.right }

/-- More code without a literal. -/
theorem next (h : g.Writes p g₁ ls r) (h' : g₁.Writes p g₂ [] r') :
    g.Writes p g₂ ls (r || r') := by
  have := h.trans h'
  rwa [List.append_nil] at this

/-- An instruction that does not jump. -/
theorem emit {op : Op} {u : Unit} (hrun : Generate.emit op g = .ok (u, g'))
    (ht : op.target? = none) : g.Writes p g' [] (!op.falls) := by
  obtain ⟨-, rfl⟩ := emit_eq_ok.mp hrun
  exact .of_flows (.put g ht) rfl rfl

/-- One that does not leave its frame either. -/
theorem straight {op : Op} {u : Unit} (hrun : Generate.emit op g = .ok (u, g'))
    (hf : op.falls = true) (ht : op.target? = none) : g.Writes p g' [] false := by
  have h := emit (p := p) hrun ht
  rwa [hf] at h

theorem convert {source target : Ty} {u : Unit}
    (hrun : Generate.convert source target g = .ok (u, g')) : g.Writes p g' [] false := by
  rcases (convert_inv hrun).1 with rfl | hrun
  · exact .refl g
  · exact .emit hrun rfl

/-- A value is turned into a type, and taken by an instruction that neither jumps nor leaves. -/
theorem turned {source target : Ty} {op : Op} {u : Unit}
    (hrun : (do Generate.convert source target; Generate.emit op : Generate Unit) g = .ok (u, g'))
    (hf : op.falls = true) (ht : op.target? = none) : g.Writes p g' [] false := by
  obtain ⟨_, _, hc, he⟩ := bind_eq_ok.mp hrun
  exact (convert hc).next (straight he hf ht)

theorem bindParams {params : List Param} {u : Unit}
    (hrun : Stackling.bindParams params g = .ok (u, g')) : g.Writes p g' [] false := by
  rw [bindParams_ok] at hrun
  cases hrun
  exact .of_flows
    { Prolongs.refl g with labels := fun _ _ => rfl, flows := fun _ _ => .nil } rfl rfl

/-- The end of a declaration stores the value in a new cell or a new slot. -/
theorem declared {name : String} {value : Nat} {d : Declaration}
    (hrun : lowerDeclared name value g = .ok (d, g')) : g.Writes p g' [] false := by
  obtain ⟨-, -, hemit⟩ | ⟨-, -, hemit⟩ := lowerDeclared_inv hrun
  · have hcell : g.Writes p (g.declareGlobal name).2 [] false :=
      .of_flows (.aside g (g.declareGlobal name).2) rfl rfl
    exact hcell.next (.emit hemit rfl)
  · have hslot : g.Writes p (g.bindLocal name) [] false := .of_flows (.bindLocal g name) rfl rfl
    exact hslot.next (.emit hemit rfl)

/-- A branch, if what is written in its scope is known. -/
theorem branch (h : g.tested.enter.Writes p g' ls r) :
    g.Writes p (g'.leave.place g.nextLabel) ls false :=
  { h.toFlows.inScope.branch with
    counted := h.counted
    agrees := fun ha hs =>
      have ha' := h.agrees ⟨ha.counted, ha.units⟩ hs
      ⟨ha'.counted, ha'.units⟩ }

theorem branches (h : g.tested.enter.Writes p g₁ ls r)
    (h' : (g₁.leave.between g.nextLabel).enter.Writes p g₂ ls' r') :
    g.Writes p (g₂.leave.place g₁.leave.nextLabel) (ls ++ ls') (r && r') :=
  { h.toFlows.inScope.branches h'.toFlows.inScope with
    counted := by
      have h₁ : g₁.literals = g.literals + ls.length := h.counted
      have h₂ : g₂.literals = g₁.literals + ls'.length := h'.counted
      rw [List.length_append, ← Nat.add_assoc, ← h₁]
      exact h₂
    agrees := fun ha hs => by
      have h₁ : g₁.literals = g.literals + ls.length := h.counted
      have ha₁ := h.agrees ⟨ha.counted, ha.units⟩ hs.left
      have ha₂ := h'.agrees ⟨ha₁.counted, ha₁.units⟩ (h₁ ▸ hs.right)
      exact ⟨ha₂.counted, ha₂.units⟩ }

end Generator.Writes

/-- **The unit of a callable is written aside,** if its body is. -/
theorem unit_writes {b : UnitBuilder} {id : UnitId} {c : CallableDecl} {body : Generate Unit}
    {u : Unit} (hb : b.Fresh id c) (hrun : Generate.unit b body g = .ok (u, g'))
    (hbody : ∀ g₁, body { g with current := b } = .ok ((), g₁) →
      Generator.Writes p { g with current := b } g₁ (stmtLiterals c.body)
        (anyAlwaysReturns c.body)) :
    g.Flows g' false ∧ g'.literals = g.literals + (stmtLiterals c.body).length ∧
      (p.callables[id]? = some c → g.Agrees p →
        Segment p.literals g.literals (stmtLiterals c.body) → g'.Agrees p) := by
  obtain ⟨g₁, v, hwritten, hfin, -, rfl⟩ := unit_inv hrun
  have h := hbody g₁ hwritten
  obtain ⟨rfl, hv⟩ := h.toFlows.finish hb hfin
  refine ⟨.aside g { g₁ with units := g₁.units.setIfInBounds v.id (some v) }, h.counted,
    fun hc ha hs => ?_⟩
  have ha₁ := h.agrees ⟨ha.counted, ha.units⟩ hs
  refine ⟨Array.size_setIfInBounds.trans ha₁.counted, fun i w hw => ?_⟩
  have hw : (g₁.units.setIfInBounds v.id (some v))[i]? = some (some w) := hw
  rw [Array.getElem?_setIfInBounds] at hw
  split at hw
  · rename_i hi
    split at hw
    · obtain rfl : v = w := by simpa using hw
      exact ⟨c, hi ▸ hc, hv⟩
    · cases hw
  · exact ha₁.units i w hw

/-- What is known of the body of a callable is known of the whole of it. -/
theorem lowerBody_writes {params : List Param} {body : Block} {u : Unit}
    (hrun : (bindParams params >>= fun _ => lowerBlock convert body) g = .ok (u, g'))
    (hbody : ∀ g₁, lowerStmts convert body.body g₁ = .ok ((), g') →
      g₁.Writes p g' (stmtLiterals body.body) (anyAlwaysReturns body.body)) :
    g.Writes p g' (stmtLiterals body.body) (anyAlwaysReturns body.body) := by
  obtain ⟨_, g₁, hparams, hrun⟩ := bind_eq_ok.mp hrun
  obtain ⟨body, span⟩ := body
  rw [lowerBlock] at hrun
  exact (Generator.Writes.bindParams hparams).trans (hbody g₁ hrun)

/-- **A literal** gets the next unit. -/
theorem Generator.Writes.literal {node : Node} {params : List Param} {returns : TypeExpr}
    {body : Block} {u : Unit}
    (hrun : Generate.unit (.new g.units.size (literalName g.literals) params.length returns.toTy)
      (Stackling.bindParams params >>= fun _ => lowerBlock Generate.convert body)
      { g.reserve.2 with literals := g.literals + 1 } = .ok (u, g'))
    (hbody : ∀ g₁ g₂, lowerStmts Generate.convert body.body g₁ = .ok ((), g₂) →
      g₁.Writes p g₂ (stmtLiterals body.body) (anyAlwaysReturns body.body)) :
    g.Writes p g' (⟨node, params, returns, body⟩ :: stmtLiterals body.body) false := by
  have hfresh : (UnitBuilder.new g.units.size (literalName g.literals) params.length
      returns.toTy).Fresh g.units.size
        (Literal.callable g.literals ⟨node, params, returns, body⟩) := ⟨rfl, rfl, rfl, rfl, rfl⟩
  obtain ⟨hflows, hcounted, hagrees⟩ := unit_writes (p := p) hfresh hrun fun g₁ hwritten =>
    lowerBody_writes hwritten fun g₂ => hbody g₂ g₁
  have hreserve : g.Flows { g.reserve.2 with literals := g.literals + 1 } false :=
    .aside g { g.reserve.2 with literals := g.literals + 1 }
  refine { hreserve.trans hflows with
    counted := ?_
    agrees := fun ha hs => hagrees ?_ ⟨?_, fun id v hv => ?_⟩ hs.tail }
  · rw [hcounted, List.length_cons, Nat.add_assoc, Nat.add_comm 1]
    rfl
  · rw [ha.counted]
    exact Program.callable_literal hs.head
  · show (g.units.push none).size = p.literalUnit (g.literals + 1)
    rw [Array.size_push, ha.counted]
    rfl
  · exact ha.units id v (Generator.finished_of_reserve hv)

/-! ## 2. Expressions and statements -/

/-- A callee that is no value has no parts. -/
theorem Generator.callTarget_literals {callee : Expr} (h : g.callTarget callee ≠ .value) :
    callee.literals = [] := by
  cases callee with
  | name => rw [Expr.literals]
  | _ => exact absurd rfl h

-- By induction on the tree. Nothing is asked of the state of the generator: a step that succeeds
-- has checked what it needs.
mutual
/-- **Control comes through the code of an expression.** -/
theorem lowerExpr_writes : (e : Expr) → {g g' : Generator} → {ty : Ty} →
    lowerExpr convert e g = .ok (ty, g') → g.Writes p g' e.literals false
  | .int .., g, g', ty, hrun | .text .., g, g', ty, hrun | .char .., g, g', ty, hrun
  | .bool .., g, g', ty, hrun => by
    rw [lowerExpr] at hrun
    obtain ⟨-, hbody, -⟩ := producing_inv hrun
    rw [Expr.literals]
    exact .emit hbody rfl
  | .name _ name, g, g', ty, hrun => by
    rw [lowerExpr] at hrun
    obtain ⟨r, -, he⟩ := lowerName_inv (producing_inv hrun).2.1
    obtain ⟨hf, ht⟩ := r.load_straight
    rw [Expr.literals]
    exact .straight he hf ht
  | .binary _ op left right, g, g', ty, hrun => by
    obtain ⟨operand, other, o, g₁, g₂, hl, hr, ho, he⟩ := lowerBinary_inv hrun
    obtain ⟨hf, ht, -⟩ := BinaryOp.op?_plain ho
    rw [Expr.literals]
    exact ((lowerExpr_writes left hl).trans (lowerExpr_writes right hr)).next (.straight he hf ht)
  | .array _ items, g, g', ty, hrun => by
    obtain ⟨element, g₁, -, hnew, hitems⟩ := lowerArray_inv hrun
    have hempty : g.Writes p g₁ [] false := .emit hnew rfl
    rw [Expr.literals]
    exact hempty.trans (lowerItems_writes items hitems)
  | .hash _ entries, g, g', ty, hrun => by
    obtain ⟨key, value, g₁, -, hnew, hentries⟩ := lowerHash_inv hrun
    have hempty : g.Writes p g₁ [] false := .emit hnew rfl
    rw [Expr.literals]
    exact hempty.trans (lowerEntries_writes entries hentries)
  | .fn node params returns (.mk body span), g, g', ty, hrun => by
    obtain ⟨g₁, hunit, he⟩ := lowerFn_inv hrun
    have hliteral : g.Writes p g₁ (⟨node, params, returns, .mk body span⟩ :: stmtLiterals body)
      false := .literal hunit fun _ _ hbody => lowerStmts_writes body hbody
    rw [Expr.literals, Block.literals]
    exact hliteral.next (.emit he rfl)
  | .index _ target key, g, g', ty, hrun => by
    obtain ⟨_, _, _, op, g₁, g₂, ht, hk, hop, hlast⟩ := lowerIndex_inv hrun
    have h₂ := (lowerExpr_writes target ht).trans (lowerExpr_writes key hk)
    rw [Expr.literals]
    rcases hop with rfl | rfl
    · exact h₂.next (.turned hlast rfl rfl)
    · exact h₂.next (.turned hlast rfl rfl)
  | .call _ callee args, g, g', ty, hrun => by
    rw [Expr.literals]
    obtain ⟨name, id, f, g₁, ht, -, hn, ha, he⟩ | ⟨name, b, g₁, ht, ha, he⟩ |
      ⟨params, returns, g₁, g₂, -, hc, hn, ha, he⟩ := lowerCall_inv hrun
    · rw [Generator.callTarget_literals (g := g) (by simp [ht])]
      exact (lowerArgs_writes args hn ha).next (.emit he rfl)
    · rw [Generator.callTarget_literals (g := g) (by simp [ht])]
      exact (lowerAll_writes args ha).next (.emit he rfl)
    · exact ((lowerExpr_writes callee hc).trans (lowerArgs_writes args hn ha)).next (.emit he rfl)

theorem lowerItems_writes : (items : List Expr) → {g g' : Generator} → {element : Ty} →
    {index : Nat} → {u : Unit} → lowerItems convert element index items g = .ok (u, g') →
    g.Writes p g' (itemLiterals items) false
  | [], g, g', element, index, u, hrun => by
    rw [lowerItems] at hrun
    obtain ⟨-, rfl⟩ := pure_eq_ok.mp hrun
    rw [itemLiterals]
    exact .refl g
  | item :: rest, g, g', element, index, u, hrun => by
    obtain ⟨_, g₁, g₂, hi, hstore, hrest⟩ := lowerItems_cons_inv hrun
    rw [itemLiterals]
    exact ((lowerExpr_writes item hi).next (.turned hstore rfl rfl)).trans
      (lowerItems_writes rest hrest)

theorem lowerEntries_writes : (entries : List (Expr × Expr)) → {g g' : Generator} →
    {key value : Ty} → {u : Unit} → lowerEntries convert key value entries g = .ok (u, g') →
    g.Writes p g' (entryLiterals entries) false
  | [], g, g', key, value, u, hrun => by
    rw [lowerEntries] at hrun
    obtain ⟨-, rfl⟩ := pure_eq_ok.mp hrun
    rw [entryLiterals]
    exact .refl g
  | (k, v) :: rest, g, g', key, value, u, hrun => by
    obtain ⟨_, _, g₁, g₂, g₃, g₄, hk, hc, hv, hstore, hrest⟩ := lowerEntries_cons_inv hrun
    have hkey := (lowerExpr_writes k hk).next (.convert hc)
    have hvalue := (lowerExpr_writes v hv).next (.turned hstore rfl rfl)
    rw [entryLiterals]
    exact (hkey.trans hvalue).trans (lowerEntries_writes rest hrest)

theorem lowerArgs_writes : (args : List Expr) → {g g' : Generator} → {params : List Ty} →
    {u : Unit} → params.length = args.length → lowerArgs convert params args g = .ok (u, g') →
    g.Writes p g' (itemLiterals args) false
  | [], g, g', params, u, hn, hrun => by
    simp only [lowerArgs] at hrun
    obtain ⟨-, rfl⟩ := pure_eq_ok.mp hrun
    rw [itemLiterals]
    exact .refl g
  | arg :: rest, g, g', params, u, hn, hrun => by
    cases params with
    | nil => cases hn
    | cons param params =>
      obtain ⟨_, g₁, g₂, ha, hc, hrest⟩ := lowerArgs_cons_inv hrun
      rw [itemLiterals]
      exact ((lowerExpr_writes arg ha).next (.convert hc)).trans
        (lowerArgs_writes rest (Nat.succ.inj hn) hrest)

theorem lowerAll_writes : (args : List Expr) → {g g' : Generator} → {u : Unit} →
    lowerAll convert args g = .ok (u, g') → g.Writes p g' (itemLiterals args) false
  | [], g, g', u, hrun => by
    rw [lowerAll] at hrun
    obtain ⟨-, rfl⟩ := pure_eq_ok.mp hrun
    rw [itemLiterals]
    exact .refl g
  | arg :: rest, g, g', u, hrun => by
    obtain ⟨_, g₁, ha, hrest⟩ := lowerAll_cons_inv hrun
    rw [itemLiterals]
    exact (lowerExpr_writes arg ha).trans (lowerAll_writes rest hrest)

/-- **Control comes through the code of a statement** unless the statement always returns. -/
theorem lowerStmt_writes : (s : Stmt) → {g g' : Generator} → {u : Unit} →
    lowerStmt convert s g = .ok (u, g') → g.Writes p g' s.literals s.alwaysReturns
  | .declare _ _ name written value, g, g', u, hrun => by
    obtain ⟨ty, g₁, g₂, source, hv, hc, hd⟩ := lowerStmt_declare_inv hrun
    rw [Stmt.literals]
    exact ((lowerExpr_writes value hv).next (.convert hc)).next (.declared hd)
  | .returns _ none, g, g', u, hrun => by
    rw [lowerStmt] at hrun
    obtain ⟨hbody, -⟩ := preserving_inv hrun
    rw [Stmt.literals]
    exact .emit hbody rfl
  | .returns _ (some value), g, g', u, hrun => by
    rw [lowerStmt] at hrun
    obtain ⟨hbody, -⟩ := preserving_inv hrun
    obtain ⟨ty, g₁, hv, hbody⟩ := bind_eq_ok.mp hbody
    rw [Stmt.literals]
    split at hbody
    · exact (lowerExpr_writes value hv).next (.emit hbody rfl)
    · obtain ⟨_, _, hg, hbody⟩ := bind_eq_ok.mp hbody
      cases hg
      obtain ⟨_, g₂, hc, hbody⟩ := bind_eq_ok.mp hbody
      exact ((lowerExpr_writes value hv).next (.convert hc)).next (.emit hbody rfl)
  | .expr value, g, g', u, hrun => by
    rw [lowerStmt] at hrun
    obtain ⟨hbody, -⟩ := preserving_inv hrun
    obtain ⟨ty, g₁, hv, hbody⟩ := bind_eq_ok.mp hbody
    rw [Stmt.literals]
    split at hbody
    · exact (lowerExpr_writes value hv).next (.emit hbody rfl)
    · obtain ⟨-, rfl⟩ := pure_eq_ok.mp hbody
      exact lowerExpr_writes value hv
  | .branch _ condition (.mk yes _) none, g, g', u, hrun => by
    obtain ⟨ty, g₁, after, g₂, g₃, hv, ht, hyes, hbehind⟩ := lowerStmt_branch_inv hrun
    obtain ⟨g₄, hc, rfl, rfl⟩ := lowerTest_inv ht
    obtain rfl := lowerBehind_inv hbehind
    rw [Stmt.literals, Block.literals]
    exact ((lowerExpr_writes condition hv).next (.convert hc)).trans
      (lowerStmts_writes yes hyes).branch
  | .branch _ condition (.mk yes _) (some (.mk no _)), g, g', u, hrun => by
    obtain ⟨ty, g₁, otherwise, g₂, g₃, after, g₄, g₅, hv, ht, hyes, hbetween, hno, hbehind⟩ :=
      lowerStmt_branchElse_inv hrun
    obtain ⟨g₆, hc, rfl, rfl⟩ := lowerTest_inv ht
    obtain ⟨rfl, rfl⟩ := lowerBetween_inv hbetween
    obtain rfl := lowerBehind_inv hbehind
    rw [Stmt.literals, Block.literals, Block.literals, List.append_assoc, Stmt.alwaysReturns,
      Block.alwaysReturns, Block.alwaysReturns]
    exact ((lowerExpr_writes condition hv).next (.convert hc)).trans
      ((lowerStmts_writes yes hyes).branches (lowerStmts_writes no hno))
  | .print _ value, g, g', u, hrun => by
    rw [lowerStmt] at hrun
    obtain ⟨hbody, -⟩ := preserving_inv hrun
    obtain ⟨ty, g₁, hv, hbody⟩ := bind_eq_ok.mp hbody
    rw [Stmt.literals]
    exact (lowerExpr_writes value hv).next (.emit hbody rfl)
  | .block (.mk body _), g, g', u, hrun => by
    rw [lowerStmt, lowerBlock] at hrun
    rw [Stmt.literals, Block.literals, Stmt.alwaysReturns, Block.alwaysReturns]
    exact lowerStmts_writes body (preserving_inv hrun).1

/-- **Control comes through the code of statements** unless one of them always returns. -/
theorem lowerStmts_writes : (body : List Stmt) → {g g' : Generator} → {u : Unit} →
    lowerStmts convert body g = .ok (u, g') →
    g.Writes p g' (stmtLiterals body) (anyAlwaysReturns body)
  | [], g, g', u, hrun => by
    rw [lowerStmts] at hrun
    obtain ⟨-, rfl⟩ := pure_eq_ok.mp hrun
    rw [stmtLiterals, anyAlwaysReturns]
    exact .refl g
  | s :: rest, g, g', u, hrun => by
    rw [lowerStmts] at hrun
    obtain ⟨_, g₁, hs, hrun⟩ := bind_eq_ok.mp hrun
    rw [stmtLiterals, anyAlwaysReturns]
    exact (lowerStmt_writes s hs).trans (lowerStmts_writes rest hrun)
end

/-! ## 3. Programs -/

/-- The unit of a callable with a known number. -/
theorem Generator.Writes.unit {b : UnitBuilder} {id : UnitId} {c : CallableDecl}
    {body : Generate Unit} {u : Unit} (hc : p.callables[id]? = some c) (hb : b.Fresh id c)
    (hrun : Generate.unit b body g = .ok (u, g'))
    (hbody : ∀ g₁, body { g with current := b } = .ok ((), g₁) →
      Generator.Writes p { g with current := b } g₁ (stmtLiterals c.body)
        (anyAlwaysReturns c.body)) : g.Writes p g' (stmtLiterals c.body) false := by
  obtain ⟨hflows, hcounted, hagrees⟩ := unit_writes hb hrun hbody
  exact { hflows with
    counted := hcounted
    agrees := hagrees hc }

theorem lowerCallable_writes {id : UnitId} {name : String} {params : List Param} {returns : Ty}
    {body : Block} {u : Unit}
    (hc : p.callables[id]? = some ⟨name, params, returns, body.body, false⟩)
    (hrun : lowerCallable convert (.new id name params.length returns) params body g =
      .ok (u, g')) : g.Writes p g' (stmtLiterals body.body) false :=
  .unit hc ⟨rfl, rfl, rfl, rfl, rfl⟩ hrun fun _ hwritten =>
    lowerBody_writes hwritten fun _ => lowerStmts_writes body.body

theorem lowerFunctions_writes {fs : List FunctionDecl} {id : Nat} {u : Unit}
    (hfs : Segment p.functions id fs) (hrun : lowerFunctions convert id fs g = .ok (u, g')) :
    g.Writes p g' (functionLiterals fs) false := by
  induction fs generalizing g id with
  | nil =>
    obtain ⟨-, rfl⟩ := pure_eq_ok.mp hrun
    exact .refl g
  | cons f fs ih =>
    rw [lowerFunctions] at hrun
    obtain ⟨_, g₁, hf, hrun⟩ := bind_eq_ok.mp hrun
    have hwritten := lowerCallable_writes (Program.callable_function hfs.head) hf
    rw [functionLiterals, Block.literals_eq]
    exact hwritten.trans (ih hfs.tail hrun)

theorem Generator.units_declareFunction (g : Generator) (f : FunctionEntry) :
    (g.declareFunction f).units = g.units ∧ (g.declareFunction f).literals = g.literals := by
  unfold declareFunction
  split <;> exact ⟨rfl, rfl⟩

/-- Units are reserved for the functions, and none is finished. -/
theorem reserveFunctions_inv {fs : List FunctionDecl} {u : Unit}
    (hrun : reserveFunctions fs g = .ok (u, g')) :
    g'.units.size = g.units.size + fs.length ∧ g'.literals = g.literals ∧
      ∀ (id : UnitId) (v : CodeUnit), g'.units[id]? = some (some v) →
        g.units[id]? = some (some v) := by
  induction fs generalizing g with
  | nil =>
    obtain ⟨-, rfl⟩ := pure_eq_ok.mp hrun
    exact ⟨rfl, rfl, fun _ _ hv => hv⟩
  | cons f fs ih =>
    rw [reserveFunctions] at hrun
    obtain ⟨_, _, hr, hrun⟩ := bind_eq_ok.mp hrun
    cases hr
    obtain ⟨_, g₁, hm, hrun⟩ := bind_eq_ok.mp hrun
    have hdeclared : g₁.units = g.reserve.2.units ∧ g₁.literals = g.literals := by
      cases hm
      exact Generator.units_declareFunction g.reserve.2 _
    obtain ⟨hsize, hliterals, hunits⟩ := ih hrun
    refine ⟨?_, hliterals.trans hdeclared.2, fun id v hv => ?_⟩
    · have hreserved : g.reserve.2.units.size = g.units.size + 1 := Array.size_push ..
      rw [hsize, hdeclared.1, hreserved, List.length_cons]
      omega
    · have hv := hunits id v hv
      rw [hdeclared.1] at hv
      exact Generator.finished_of_reserve hv

/-- The unit that a run starts with is written behind all others. -/
theorem entry_inv {name : String} {op op' : Op} {u : Unit}
    (hrun : Generate.unit (.new g.units.size name 0 .void) (do emit op; emit op') g.reserve.2 =
      .ok (u, g')) :
    g'.units.size = g.units.size + 1 ∧ ∀ id < g.units.size, g'.units[id]? = g.units[id]? := by
  obtain ⟨g₁, v, hbody, hfin, -, rfl⟩ := unit_inv hrun
  obtain ⟨_, _, hfirst, hsecond⟩ := bind_eq_ok.mp hbody
  obtain ⟨-, rfl⟩ := emit_eq_ok.mp hfirst
  obtain ⟨-, rfl⟩ := emit_eq_ok.mp hsecond
  obtain ⟨-, hid, -⟩ := finish_inv hfin
  have hid : v.id = g.units.size := hid
  refine ⟨Array.size_setIfInBounds.trans (Array.size_push ..), fun id hlt => ?_⟩
  show ((g.units.push none).setIfInBounds v.id (some v))[id]? = _
  rw [hid, Array.getElem?_setIfInBounds_ne (Nat.ne_of_gt hlt), Array.getElem?_push_lt hlt,
    Array.getElem?_eq_getElem hlt]

/-- **All units of a program agree with its callables.** -/
theorem lowerProgram_agrees {types : TypeTable} {code : Bytecode}
    (hrun : lowerProgram convert p (.new types) = .ok (code, g')) :
    code.units.size = p.callables.length + 1 ∧
      ∀ (id : UnitId) (c : CallableDecl), p.callables[id]? = some c →
        ∃ u, code.unit? id = some u ∧ u.ReturnsAs c := by
  obtain ⟨g₁, g₂, g₃, g₄, g₅, h₁, h₂, h₃, h₄, h₅, -, -, hunits⟩ := lowerProgram_inv hrun
  obtain ⟨hsize, hliterals, hnone⟩ := reserveFunctions_inv h₁
  have hsize : g₁.units.size = p.functions.length := hsize.trans (Nat.zero_add _)
  have hstart : g₁.reserve.2.reserve.2.Agrees p := by
    refine ⟨?_, fun id v hv => ?_⟩
    · show ((g₁.units.push none).push none).size = p.literalUnit g₁.literals
      rw [hliterals, Array.size_push, Array.size_push, hsize]
      rfl
    · have hv := hnone id v (Generator.finished_of_reserve (Generator.finished_of_reserve hv))
      simp [Generator.new] at hv
  have hnumber : g₁.reserve.2.units.size = p.mainUnit := by
    rw [Program.mainUnit, ← hsize]
    exact Array.size_push ..
  rw [hnumber] at h₄
  have hglobals : g₁.reserve.2.reserve.2.Writes p g₂ (stmtLiterals p.globals) false :=
    .unit (c := p.globalsCallable) (hsize ▸ Program.callable_globals) ⟨rfl, rfl, rfl, rfl, rfl⟩ h₂
      fun _ => lowerStmts_writes p.globals
  have hall := (hglobals.trans (lowerFunctions_writes (.self p.functions) h₃)).trans
    (lowerCallable_writes Program.callable_main h₄)
  rw [← Block.literals_eq] at hall
  have hzero : g₁.reserve.2.reserve.2.literals = 0 := hliterals
  have hagrees : g₄.Agrees p := hall.agrees hstart (by rw [hzero]; exact .self _)
  -- all callables have their units now, and one more unit follows
  have hcount : g₄.units.size = p.callables.length := by
    rw [hagrees.counted, hall.counted, hzero, Nat.zero_add, Program.length_callables]
    rfl
  obtain ⟨hlast, hkept⟩ := entry_inv h₅
  have hcode : code.units.size = g₅.units.size := by
    rw [← Array.length_toList, ← Array.length_toList, hunits, List.length_map]
  refine ⟨by rw [hcode, hlast, hcount], fun id c hc => ?_⟩
  have hlt : id < g₄.units.size := hcount ▸ (List.getElem?_eq_some_iff.mp hc).1
  have hin : id < code.units.size := by
    rw [hcode, hlast]
    exact Nat.lt_succ_of_lt hlt
  have hu : code.unit? id = some _ := Array.getElem?_eq_getElem hin
  obtain ⟨c', hc', hreturns⟩ :=
    hagrees.units id _ ((hkept id hlt).symm.trans (held_of_unit hunits hu))
  cases hc.symm.trans hc'
  exact ⟨_, hu, hreturns⟩

/-- **The analysis of returns is exact,** whatever the table of types says. Each function, each
    function literal and `main` has a unit in the code that is generated, and so have the
    statements at top level. The last instruction of the unit ends a body that has come to its
    end, and it is reachable from the first one exactly if the body does not always return. -/
theorem generate_returns_exactly {types : TypeTable} {code : Bytecode}
    (h : generate p types = .ok code) :
    code.units.size = p.callables.length + 1 ∧
      ∀ (id : UnitId) (c : CallableDecl) (body : Block), p.callables[id]? = some c →
        c.body = body.body →
        ∃ u, code.unit? id = some u ∧ u.name = c.name ∧ u.arity = c.params.length ∧
          u.ops.back? = some (terminatorOf c.returns) ∧
          (u.Reaches 0 (u.ops.size - 1) ↔ body.alwaysReturns = false) := by
  obtain ⟨g, hrun⟩ := lowerProgram_of_generate h
  obtain ⟨hsize, hunits⟩ := lowerProgram_agrees hrun
  refine ⟨hsize, fun id c body hc hbody => ?_⟩
  obtain ⟨u, hu, hreturns⟩ := hunits id c hc
  refine ⟨u, hu, hreturns.name, hreturns.arity, hreturns.last, ?_⟩
  rw [Block.alwaysReturns_eq, ← hbody]
  exact hreturns.exact

/-- A function that returns in both arms of a branch and prints something behind it. -/
def chooser : FunctionDecl :=
  let number (id : Nat) : Expr := .int ⟨id, .blank⟩ 7
  ⟨"choose", [], .int, .mk [.branch .blank (.bool ⟨0, .blank⟩ true)
    (.mk [.returns .blank (some (number 1))] .blank)
    (some (.mk [.returns .blank (some (number 2))] .blank)), .print .blank (number 3)] .blank,
    .blank⟩

/-- A program with this function, and a `main` that may return before its end. -/
def choosing : Program :=
  ⟨[chooser], [], .mk [.branch .blank (.bool ⟨4, .blank⟩ true)
    (.mk [.returns .blank none] .blank) none] .blank, .blank⟩

/-- The end of the function is out of reach, that of `main` is not. -/
theorem choosing_returns : ∃ code u v,
    generate choosing ⟨[(0, .bool), (1, .int), (2, .int), (3, .int), (4, .bool)]⟩ = .ok code ∧
    code.unit? 0 = some u ∧ ¬ u.Reaches 0 (u.ops.size - 1) ∧
    code.unit? choosing.mainUnit = some v ∧ v.Reaches 0 (v.ops.size - 1) := by
  have hok : (generate choosing ⟨[(0, .bool), (1, .int), (2, .int), (3, .int),
    (4, .bool)]⟩).isOk = true := by decide +kernel
  obtain ⟨code, hcode⟩ := exists_eq_ok hok
  obtain ⟨-, hunits⟩ := generate_returns_exactly hcode
  obtain ⟨u, hu, -, -, -, hchoose⟩ := hunits 0 chooser.callable chooser.body
    (Program.callable_function (p := choosing) rfl) rfl
  obtain ⟨v, hv, -, -, -, hmain⟩ := hunits choosing.mainUnit choosing.mainCallable choosing.main
    Program.callable_main rfl
  exact ⟨code, u, v, hcode, hu, fun h => absurd (hchoose.mp h) (by decide), hv, hmain.mpr rfl⟩

end Stackling
