import Stackling.Proofs.Code.Distinct
import Stackling.Proofs.Code.Units
import Stackling.Proofs.Code.Verifier

/-
  File:     Stackling/Proofs/Code/Stretches.lean
  Subject:  What the instructions of a unit do, stretch by stretch.

  The code of an expression or of statements is a stretch of a unit: it calls only functions,
  leaves the unit only as the callable may, jumps only inside the stretch, and stores only the
  cells that are declared in it at top level, each at one place that no jump goes over.

  * `Op.Linked`           -- what an instruction may call, and how it may leave its unit;
  * `Stretch`             -- the instructions between two offsets;
  * `StmtsPlaced.stretch` -- the code of statements is a stretch;
  * `CallablePlaced.stretch` -- so is a unit up to its last instruction;
  * `ProgramPlaced.units_cases` -- what units there are.
-/
namespace Stackling

variable {p : Program} {types : TypeTable} {code : Bytecode}

/-! ## 1. Instructions -/

/-- What an instruction in a unit of the callable `c` may call, and how it may leave its unit. -/
def Op.Linked (p : Program) (c : CallableDecl) : Op → Prop
  | .call id arity returns => ∃ f, p.functions[id]? = some f ∧ arity = f.params.length ∧
      returns = !f.returns.toTy.isVoid
  | .ret => c.outside = false ∧ c.returns ≠ .void
  | .retVoid => c.outside = false ∧ c.returns = .void
  | .missingReturn => False
  | _ => True

/-- An instruction neither jumps nor stores a cell. -/
structure Op.Quiet (op : Op) : Prop where
  target : op.target? = none
  store : ∀ cell, op ≠ .storeGlobal cell

/-- **The instructions of a unit between two offsets,** in which the given cells are stored. -/
structure Stretch (p : Program) (u : CodeUnit) (c : CallableDecl) (pc : Nat)
    (cells : List (String × Ty)) (pc' : Nat) : Prop where
  le : pc ≤ pc'
  linked : ∀ i op, pc ≤ i → i < pc' → u.ops[i]? = some op → op.Linked p c
  stores : ∀ i cell, pc ≤ i → i < pc' → u.ops[i]? = some (.storeGlobal cell) →
    ∃ x ∈ cells, p.cells[cell]? = some x
  stored : ∀ x ∈ cells, ∃ i cell, pc ≤ i ∧ i < pc' ∧ u.ops[i]? = some (.storeGlobal cell) ∧
    p.cells[cell]? = some x
  once : (cells.map (·.1)).Nodup → ∀ i j cell, pc ≤ i → i < pc' → pc ≤ j → j < pc' →
    u.ops[i]? = some (.storeGlobal cell) → u.ops[j]? = some (.storeGlobal cell) → i = j
  jumps : ∀ i op l offset, pc ≤ i → i < pc' → u.ops[i]? = some op → op.target? = some l →
    u.offset? l = some offset → offset ≤ pc' ∧
      ∀ j cell, i < j → j < offset → u.ops[j]? ≠ some (.storeGlobal cell)

namespace Stretch

variable {u : CodeUnit} {c : CallableDecl} {pc pc₁ pc' : Nat} {xs ys : List (String × Ty)}

theorem nil : Stretch p u c pc [] pc where
  le := Nat.le_refl _
  linked _ _ h h' := absurd (Nat.lt_of_le_of_lt h h') (Nat.lt_irrefl _)
  stores _ _ h h' := absurd (Nat.lt_of_le_of_lt h h') (Nat.lt_irrefl _)
  stored := nofun
  once _ _ _ _ h h' := absurd (Nat.lt_of_le_of_lt h h') (Nat.lt_irrefl _)
  jumps _ _ _ _ h h' := absurd (Nat.lt_of_le_of_lt h h') (Nat.lt_irrefl _)

/-- **One stretch after the other.** -/
theorem append (h : Stretch p u c pc xs pc₁) (h' : Stretch p u c pc₁ ys pc') :
    Stretch p u c pc (xs ++ ys) pc' where
  le := Nat.le_trans h.le h'.le
  linked i op hl hr hop := (Nat.lt_or_ge i pc₁).elim (fun hi => h.linked i op hl hi hop)
    fun hi => h'.linked i op hi hr hop
  stores i cell hl hr hop := by
    rcases Nat.lt_or_ge i pc₁ with hi | hi
    · obtain ⟨x, hx, hc⟩ := h.stores i cell hl hi hop
      exact ⟨x, List.mem_append_left _ hx, hc⟩
    · obtain ⟨x, hx, hc⟩ := h'.stores i cell hi hr hop
      exact ⟨x, List.mem_append_right _ hx, hc⟩
  stored x hx := by
    rcases List.mem_append.mp hx with hx | hx
    · obtain ⟨i, cell, hl, hr, hop, hc⟩ := h.stored x hx
      exact ⟨i, cell, hl, Nat.lt_of_lt_of_le hr h'.le, hop, hc⟩
    · obtain ⟨i, cell, hl, hr, hop, hc⟩ := h'.stored x hx
      exact ⟨i, cell, Nat.le_trans h.le hl, hr, hop, hc⟩
  once hn i j cell hil hir hjl hjr hi hj := by
    rw [List.map_append] at hn
    obtain ⟨hxs, hys, hapart⟩ := List.nodup_append.mp hn
    -- a cell that is stored in both parts is declared in both
    have apart : ∀ {i j}, pc ≤ i → i < pc₁ → pc₁ ≤ j → j < pc' →
        u.ops[i]? = some (.storeGlobal cell) → u.ops[j]? ≠ some (.storeGlobal cell) := by
      intro i j hil hir hjl hjr hi hj
      obtain ⟨x, hx, hcx⟩ := h.stores i cell hil hir hi
      obtain ⟨y, hy, hcy⟩ := h'.stores j cell hjl hjr hj
      cases hcx.symm.trans hcy
      exact hapart _ (List.mem_map_of_mem hx) _ (List.mem_map_of_mem hy) rfl
    rcases Nat.lt_or_ge i pc₁ with hi₁ | hi₁
    · rcases Nat.lt_or_ge j pc₁ with hj₁ | hj₁
      · exact h.once hxs i j cell hil hi₁ hjl hj₁ hi hj
      · exact absurd hj (apart hil hi₁ hj₁ hjr hi)
    · rcases Nat.lt_or_ge j pc₁ with hj₁ | hj₁
      · exact absurd hi (apart hjl hj₁ hi₁ hir hj)
      · exact h'.once hys i j cell hi₁ hir hj₁ hjr hi hj
  jumps i op l offset hl hr hop ht ho := by
    rcases Nat.lt_or_ge i pc₁ with hi | hi
    · obtain ⟨hle, hfree⟩ := h.jumps i op l offset hl hi hop ht ho
      exact ⟨Nat.le_trans hle h'.le, hfree⟩
    · exact h'.jumps i op l offset hi hr hop ht ho

/-- Two stretches in which nothing is stored. -/
theorem trans (h : Stretch p u c pc [] pc₁) (h' : Stretch p u c pc₁ [] pc') :
    Stretch p u c pc [] pc' := h.append h'

/-- **One instruction** that neither jumps nor stores a cell. -/
theorem op {op : Op} (hop : u.ops[pc]? = some op) (hq : op.Quiet) (hl : op.Linked p c) :
    Stretch p u c pc [] (pc + 1) := by
  have same : ∀ {i op'}, pc ≤ i → i < pc + 1 → u.ops[i]? = some op' → op' = op := by
    intro i op' hl hr hop'
    obtain rfl : i = pc := by omega
    exact Option.some.inj (hop'.symm.trans hop)
  refine ⟨Nat.le_succ _, fun i op' hl' hr hop' => ?_, fun i cell hl' hr hop' => ?_, nofun,
    fun _ i j cell _ _ _ _ _ _ => by omega, fun i op' l offset hl' hr hop' ht ho => ?_⟩
  · exact same hl' hr hop' ▸ hl
  · exact absurd (same hl' hr hop').symm (hq.store cell)
  · rw [same hl' hr hop', hq.target] at ht
    cases ht

/-- An instruction stores a cell. -/
theorem store {cell : Nat} {x : String × Ty} (hop : u.ops[pc]? = some (.storeGlobal cell))
    (hc : p.cells[cell]? = some x) : Stretch p u c pc [x] (pc + 1) := by
  have same : ∀ {i op}, pc ≤ i → i < pc + 1 → u.ops[i]? = some op → op = .storeGlobal cell := by
    intro i op hl hr hop'
    obtain rfl : i = pc := by omega
    exact Option.some.inj (hop'.symm.trans hop)
  refine ⟨Nat.le_succ _, fun i op hl hr hop' => ?_, fun i cell' hl hr hop' => ?_, fun y hy => ?_,
    fun _ i j cell _ _ _ _ _ _ => by omega, fun i op l offset hl hr hop' ht ho => ?_⟩
  · rw [same hl hr hop']
    trivial
  · cases same hl hr hop'
    exact ⟨x, List.mem_cons_self, hc⟩
  · obtain rfl := List.mem_singleton.mp hy
    exact ⟨pc, cell, Nat.le_refl _, Nat.lt_succ_self _, hop, hc⟩
  · rw [same hl hr hop'] at ht
    cases ht

/-- **A jump** over some of the instructions behind it. -/
theorem jump {op : Op} {l : Label} {offset : Nat} (hop : u.ops[pc]? = some op)
    (ht : op.target? = some l) (ho : u.offset? l = some offset) (hle : offset ≤ pc')
    (h : Stretch p u c (pc + 1) [] pc') : Stretch p u c pc [] pc' := by
  have hnot : ∀ j cell, pc < j → j < pc' → u.ops[j]? ≠ some (.storeGlobal cell) := by
    intro j cell hl hr hj
    obtain ⟨x, hx, -⟩ := h.stores j cell hl hr hj
    cases hx
  have first : ∀ {i op'}, pc ≤ i → u.ops[i]? = some op' → op' = op ∧ i = pc ∨ pc + 1 ≤ i := by
    intro i op' hl hop'
    rcases Nat.eq_or_lt_of_le hl with rfl | hl
    · exact .inl ⟨Option.some.inj (hop'.symm.trans hop), rfl⟩
    · exact .inr hl
  have hstore : ∀ i cell, pc ≤ i → i < pc' → u.ops[i]? ≠ some (.storeGlobal cell) := by
    intro i cell hl hr hop'
    rcases first hl hop' with ⟨rfl, -⟩ | hl
    · cases ht
    · exact hnot i cell hl hr hop'
  refine ⟨Nat.le_of_succ_le h.le, fun i op' hl hr hop' => ?_, fun i cell hl hr hop' =>
    absurd hop' (hstore i cell hl hr), nofun, fun _ i j cell hil hir _ _ hi _ =>
    absurd hi (hstore i cell hil hir), fun i op' l' offset' hl hr hop' ht' ho' => ?_⟩
  · rcases first hl hop' with ⟨rfl, -⟩ | hl
    · cases op' <;> first | cases ht; done | trivial
    · exact h.linked i op' hl hr hop'
  · rcases first hl hop' with ⟨rfl, rfl⟩ | hl
    · cases ht.symm.trans ht'
      cases ho.symm.trans ho'
      exact ⟨hle, fun j cell hj hjo => hnot j cell hj (Nat.lt_of_lt_of_le hjo hle)⟩
    · exact h.jumps i op' l' offset' hl hr hop' ht' ho'

end Stretch

/-! ## 2. Expressions and statements -/

/-- The global names of a layout stand for what the program has under them. -/
def Layout.Named (p : Program) (L : Layout) : Prop := ∀ x ∈ L.globals, p.Names x.1 x.2.1 x.2.2

theorem Resolved.load_quiet (r : Resolved) : r.load.Quiet := by
  cases r with
  | slot s => cases s <;> exact ⟨rfl, nofun⟩
  | _ => exact ⟨rfl, nofun⟩

theorem Resolved.load_linked (r : Resolved) (c : CallableDecl) : r.load.Linked p c := by
  cases r with
  | slot s => cases s <;> trivial
  | _ => trivial

theorem BinaryOp.op?_quiet {b : BinaryOp} {operand : Ty} {op : Op} (h : b.op? operand = some op)
    (c : CallableDecl) : op.Quiet ∧ op.Linked p c := by
  obtain rfl | rfl | rfl | rfl | rfl | ⟨_, _, rfl⟩ := BinaryOp.op?_cases h <;>
    exact ⟨⟨rfl, nofun⟩, trivial⟩

/-- A name that refers to a function is one of the program. -/
theorem Layout.Named.function {L : Layout} {name : String} {unit : UnitId} {e : Entity}
    (h : L.Named p) (hf : L.find? name = some (.function unit, e)) :
    ∃ f, p.functions[unit]? = some f ∧ e = .function (paramTypes f.params) f.returns.toTy := by
  unfold Layout.find? at hf
  split at hf
  · cases hf
  · have hn : p.Names name (.function unit) e := h _ (mem_of_lookup hf)
    cases hn with
    | function hfun _ => exact ⟨_, hfun, rfl⟩

mutual
/-- A statement keeps the global names, and adds its cells at top level. -/
theorem StmtPlaced.named {u : CodeUnit} {c : CallableDecl} {L L' : Layout} {pc pc' : Nat} :
    (s : Stmt) → StmtPlaced p types code u c L pc s L' pc' → L.Named p → L'.Named p
  | .declare .., .declareCell _ _ _ hcell _, h => List.forall_mem_cons.mpr ⟨.cell hcell, h⟩
  | .declare .., .declareLocal hs _ _ _ _ _, h => by
    unfold Layout.Named
    rwa [(Layout.Grown.bind _ _ _ _).globals hs]
  | .returns _ none, .returnsNothing .., h | .returns _ (some _), .returnsVoid .., h
  | .returns _ (some _), .returns .., h | .expr _, .exprVoid _, h | .expr _, .expr .., h
  | .branch _ _ (.mk _ _) none, .branch .., h
  | .branch _ _ (.mk _ _) (some (.mk _ _)), .branchElse .., h | .print .., .print .., h => h
  | .block (.mk body _), .block hb, h => StmtsPlaced.named body hb h
termination_by structural s => s

theorem StmtsPlaced.named {u : CodeUnit} {c : CallableDecl} {L L' : Layout} {pc pc' : Nat} :
    (body : List Stmt) → StmtsPlaced p types code u c L pc body L' pc' → L.Named p → L'.Named p
  | [], .nil, h => h
  | s :: rest, .cons hs hr, h => StmtsPlaced.named rest hr (StmtPlaced.named s hs h)
termination_by structural body => body
end

mutual
/-- **The code of an expression is a stretch** in which nothing is stored. -/
theorem ExprPlaced.stretch {u : CodeUnit} {c : CallableDecl} {L : Layout} {pc pc' : Nat}
    {ty : Ty} : (e : Expr) → ExprPlaced p types code u c L pc e ty pc' → L.Named p →
    Stretch p u c pc [] pc'
  | .int .., .int _ hop, _ | .text .., .text _ hop, _ | .char .., .char _ hop, _
  | .bool .., .bool _ hop, _ | .fn _ _ _ (.mk _ _), .fn _ _ _ hop, _ =>
    .op hop ⟨rfl, nofun⟩ trivial
  | .name .., .name _ _ _ hop, _ => .op hop (Resolved.load_quiet _) (Resolved.load_linked _ c)
  | .binary _ _ left right, .binary _ hl hr _ ho hop, h =>
    have ⟨hq, hlink⟩ := BinaryOp.op?_quiet ho c
    ((ExprPlaced.stretch left hl h).trans (ExprPlaced.stretch right hr h)).trans (.op hop hq hlink)
  | .array _ items, .array _ _ hop hi, h =>
    (Stretch.op hop ⟨rfl, nofun⟩ trivial).trans (ItemsPlaced.stretch items hi h)
  | .hash _ entries, .hash _ _ _ hop he, h =>
    (Stretch.op hop ⟨rfl, nofun⟩ trivial).trans (EntriesPlaced.stretch entries he h)
  | .index _ target key, .indexArray _ _ hg hk hop, h =>
    ((ExprPlaced.stretch target hg h).trans (ExprPlaced.stretch key hk h)).trans
      (.op hop ⟨rfl, nofun⟩ trivial)
  | .index _ target key, .indexHash _ _ _ hg hk hop, h =>
    ((ExprPlaced.stretch target hg h).trans (ExprPlaced.stretch key hk h)).trans
      (.op hop ⟨rfl, nofun⟩ trivial)
  | .call _ (.name _ _) args, .callFunction _ hf ha hop, h => by
    obtain ⟨f, hfun, he⟩ := h.function hf
    cases he
    refine (ArgsPlaced.stretch args ha h).trans (.op hop ⟨rfl, nofun⟩ ⟨f, hfun, ?_, rfl⟩)
    rw [ArgsPlaced.length args ha, paramTypes, List.length_map]
  | .call _ (.name _ _) args, .callBuiltin _ _ _ ha _ hop, h =>
    (ArgsPlaced.stretch args ha h).trans (.op hop ⟨rfl, nofun⟩ trivial)
  | .call _ callee args, .callValue _ hc ha hop, h =>
    ((ExprPlaced.stretch callee hc h).trans (ArgsPlaced.stretch args ha h)).trans
      (.op hop ⟨rfl, nofun⟩ trivial)
termination_by structural e => e

theorem ItemsPlaced.stretch {u : CodeUnit} {c : CallableDecl} {L : Layout} {element : Ty}
    {index pc pc' : Nat} : (items : List Expr) →
    ItemsPlaced p types code u c L element index pc items pc' → L.Named p →
    Stretch p u c pc [] pc'
  | [], .nil, _ => .nil
  | item :: rest, .cons hi hop hr, h =>
    ((ExprPlaced.stretch item hi h).trans (.op hop ⟨rfl, nofun⟩ trivial)).trans
      (ItemsPlaced.stretch rest hr h)
termination_by structural items => items

theorem EntriesPlaced.stretch {u : CodeUnit} {c : CallableDecl} {L : Layout} {key value : Ty}
    {pc pc' : Nat} : (entries : List (Expr × Expr)) →
    EntriesPlaced p types code u c L key value pc entries pc' → L.Named p →
    Stretch p u c pc [] pc'
  | [], .nil, _ => .nil
  | (k, v) :: rest, .cons hk hv hop hr, h =>
    (((ExprPlaced.stretch k hk h).trans (ExprPlaced.stretch v hv h)).trans
      (.op hop ⟨rfl, nofun⟩ trivial)).trans (EntriesPlaced.stretch rest hr h)
termination_by structural entries => entries

theorem ArgsPlaced.stretch {u : CodeUnit} {c : CallableDecl} {L : Layout} {params : List Ty}
    {pc pc' : Nat} : (args : List Expr) → ArgsPlaced p types code u c L pc args params pc' →
    L.Named p → Stretch p u c pc [] pc'
  | [], .nil, _ => .nil
  | arg :: rest, .cons _ ha hr, h =>
    (ExprPlaced.stretch arg ha h).trans (ArgsPlaced.stretch rest hr h)
termination_by structural args => args
end

/-- The cells that are declared by statements outside all scopes. -/
def Layout.cellsOf (L : Layout) (cells : List (String × Ty)) : List (String × Ty) :=
  if L.scopes.isEmpty then cells else []

theorem Layout.cellsOf_nil (L : Layout) : L.cellsOf [] = [] := by
  unfold cellsOf
  split <;> rfl

theorem Layout.cellsOf_append (L : Layout) (xs ys : List (String × Ty)) :
    L.cellsOf (xs ++ ys) = L.cellsOf xs ++ L.cellsOf ys := by
  unfold cellsOf
  split <;> rfl

theorem Layout.Grown.cellsOf {L L' : Layout} (h : L.Grown L') (cells : List (String × Ty)) :
    L'.cellsOf cells = L.cellsOf cells := by
  unfold Layout.cellsOf
  rw [h.isEmpty]

theorem Layout.cellsOf_scoped {L : Layout} (h : L.scopes ≠ []) (cells : List (String × Ty)) :
    L.cellsOf cells = [] := by
  unfold cellsOf
  rw [List.isEmpty_eq_false_iff.mpr h]
  rfl

mutual
/-- **The code of a statement is a stretch** in which the cells are stored that it declares. -/
theorem StmtPlaced.stretch {u : CodeUnit} {c : CallableDecl} {L L' : Layout} {pc pc' : Nat} :
    (s : Stmt) → StmtPlaced p types code u c L pc s L' pc' → L.Named p →
    Stretch p u c pc (L.cellsOf s.cells) pc'
  | .declare _ _ _ _ value, .declareCell _ _ he hcell hop, h =>
    (ExprPlaced.stretch value he h).append (.store hop hcell)
  | .declare _ _ _ _ value, .declareLocal hs _ he _ _ hop, h => by
    rw [Layout.cellsOf_scoped hs]
    exact (ExprPlaced.stretch value he h).trans (.op hop ⟨rfl, nofun⟩ trivial)
  | .returns _ none, .returnsNothing ho hr hop, _ => by
    rw [Stmt.cells, Layout.cellsOf_nil]
    exact .op hop ⟨rfl, nofun⟩ ⟨ho, hr⟩
  | .returns _ (some value), .returnsVoid ho hr he hop, h => by
    rw [Stmt.cells, Layout.cellsOf_nil]
    exact (ExprPlaced.stretch value he h).trans (.op hop ⟨rfl, nofun⟩ ⟨ho, hr⟩)
  | .returns _ (some value), .returns ho hr he hop, h => by
    rw [Stmt.cells, Layout.cellsOf_nil]
    exact (ExprPlaced.stretch value he h).trans (.op hop ⟨rfl, nofun⟩ ⟨ho, hr⟩)
  | .expr value, .exprVoid he, h => by
    rw [Stmt.cells, Layout.cellsOf_nil]
    exact ExprPlaced.stretch value he h
  | .expr value, .expr _ he hop, h => by
    rw [Stmt.cells, Layout.cellsOf_nil]
    exact (ExprPlaced.stretch value he h).trans (.op hop ⟨rfl, nofun⟩ trivial)
  | .branch _ condition (.mk yes _) none, .branch hc hnot hjump hafter hy, h => by
    rw [Stmt.cells, Layout.cellsOf_nil]
    have hyes := StmtsPlaced.stretch yes hy h
    rw [Layout.cellsOf_scoped (List.cons_ne_nil _ _)] at hyes
    exact (ExprPlaced.stretch condition hc h).trans ((Stretch.op hnot ⟨rfl, nofun⟩ trivial).trans
      (.jump hjump rfl hafter (Nat.le_refl _) hyes))
  | .branch _ condition (.mk yes _) (some (.mk no _)),
      .branchElse hc hnot hjump hother hy hskip hafter hn, h => by
    rw [Stmt.cells, Layout.cellsOf_nil]
    have hyes := StmtsPlaced.stretch yes hy h
    have hno := StmtsPlaced.stretch no hn h
    rw [Layout.cellsOf_scoped (List.cons_ne_nil _ _)] at hyes hno
    have harms := hyes.trans (.jump hskip rfl hafter (Nat.le_refl _) hno)
    exact (ExprPlaced.stretch condition hc h).trans ((Stretch.op hnot ⟨rfl, nofun⟩ trivial).trans
      (.jump hjump rfl hother hno.le harms))
  | .print _ value, .print _ he hop, h => by
    rw [Stmt.cells, Layout.cellsOf_nil]
    exact (ExprPlaced.stretch value he h).trans (.op hop ⟨rfl, nofun⟩ trivial)
  | .block (.mk body _), .block hb, h => StmtsPlaced.stretch body hb h
termination_by structural s => s

theorem StmtsPlaced.stretch {u : CodeUnit} {c : CallableDecl} {L L' : Layout} {pc pc' : Nat} :
    (body : List Stmt) → StmtsPlaced p types code u c L pc body L' pc' → L.Named p →
    Stretch p u c pc (L.cellsOf (stmtCells body)) pc'
  | [], .nil, _ => by
    rw [stmtCells, Layout.cellsOf_nil]
    exact .nil
  | s :: rest, .cons hs hr, h => by
    have hfirst := StmtPlaced.stretch s hs h
    have hrest := StmtsPlaced.stretch rest hr (StmtPlaced.named s hs h)
    rw [(StmtPlaced.grown s hs).cellsOf] at hrest
    rw [stmtCells, L.cellsOf_append]
    exact hfirst.append hrest
termination_by structural body => body
end

/-! ## 3. Units -/

/-- **A unit is a stretch up to its last instruction,** in which the cells of the program are
    stored if it is that of the statements at top level. -/
theorem CallablePlaced.stretch {id : UnitId} {c : CallableDecl} {globals : GlobalNames}
    (h : CallablePlaced p types code id c globals) : ∃ u pc, code.unit? id = some u ∧
      u.ops.size = pc + 1 ∧ u.ops[pc]? = some (terminatorOf c.returns) ∧
      Stretch p u c 0 (if c.outside then stmtCells c.body else []) pc := by
  cases h with
  | mk hu _ _ _ hg _ hb ht _ hs =>
    refine ⟨_, _, hu, hs, ht, ?_⟩
    have hstretch := StmtsPlaced.stretch c.body hb hg
    unfold Layout.cellsOf at hstretch
    rwa [c.isEmpty_layout] at hstretch

/-- A unit of a program is that of a callable, or the one that a run starts with. -/
theorem ProgramPlaced.units_cases (h : ProgramPlaced p types code) {id : UnitId} {u : CodeUnit}
    (hu : code.unit? id = some u) : (∃ c, p.callables[id]? = some c) ∨ id = code.entry := by
  have hlt : id < p.entryUnit + 1 := h.size ▸ (Array.getElem?_eq_some_iff.mp hu).1
  rcases Nat.lt_or_eq_of_le (Nat.le_of_lt_succ hlt) with hlt | rfl
  · rw [← Program.length_callables] at hlt
    exact .inl ⟨_, List.getElem?_eq_getElem hlt⟩
  · exact .inr h.last.symm

end Stackling
