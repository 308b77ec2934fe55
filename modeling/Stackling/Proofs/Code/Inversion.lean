import Stackling.Proofs.Code.Balanced
import Stackling.Proofs.Code.Bindings
import Stackling.Proofs.Code.Statements

/-
  File:     Stackling/Proofs/Code/Inversion.lean
  Subject:  The generator, taken apart.

  Code that has been generated for a construct has been generated for its parts, in order, with
  the instructions of the construct between them. There is one lemma for each construct; what
  is proved of all generated code goes by these lemmas and leaves the generator closed.

  * `convert_inv`, `unit_inv`, `lowerTest_inv`, …    -- steps between two parts;
  * `lowerExpr_depth`, `lowerStmt_depth`             -- how many values a part leaves;
  * `lowerBinary_inv`, `lowerIndex_inv`, …           -- expressions;
  * `lowerItems_cons_inv`, `lowerArgs_cons_inv`, …   -- lists of expressions;
  * `lowerStmt_declare_inv`, `lowerStmt_branch_inv`, … -- statements.
-/
namespace Stackling

open Generate

variable {g g' : Generator} {node : Node} {ty : Ty} {u : Unit}

/-! ## 1. Steps between parts -/

/-- A conversion puts at most one instruction, which takes one value and leaves one. -/
theorem convert_inv {source target : Ty} (h : convert source target g = .ok (u, g')) :
    (g = g' ∨ emit .intToBool g = .ok (u, g')) ∧ (target ≠ .void → source ≠ .void) := by
  unfold convert at h
  split at h
  · rename_i hc
    obtain rfl := (Ty.compatible_iff _ _).mp hc
    exact ⟨.inl (pure_eq_ok.mp h).2, id⟩
  · split at h
    · exact ⟨.inl (pure_eq_ok.mp h).2, nofun⟩
    · exact ⟨.inr h, nofun⟩
    · exact absurd h throw_ne_ok

/-- A unit is written by its body, and set aside when it is finished. -/
theorem unit_inv {builder : UnitBuilder} {body : Generate Unit}
    (h : unit builder body g = .ok (u, g')) :
    ∃ g₁ v, body { g with current := builder } = .ok ((), g₁) ∧ g₁.current.finish = .ok v ∧
      v.id < g₁.units.size ∧
      g' = { g₁ with current := g.current, units := g₁.units.setIfInBounds v.id (some v) } := by
  obtain ⟨_, _, hg, h⟩ := bind_eq_ok.mp h
  cases hg
  obtain ⟨_, _, hm, h⟩ := bind_eq_ok.mp h
  cases hm
  obtain ⟨_, g₁, hbody, h⟩ := bind_eq_ok.mp h
  obtain ⟨_, _, hg, h⟩ := bind_eq_ok.mp h
  cases hg
  obtain ⟨v, _, hf, h⟩ := bind_eq_ok.mp h
  obtain ⟨hfin, rfl⟩ := lift_eq_ok.mp hf
  obtain ⟨_, _, hc, h⟩ := bind_eq_ok.mp h
  cases hc
  obtain ⟨_, _, hg, h⟩ := bind_eq_ok.mp h
  cases hg
  by_cases hlt : v.id < g₁.units.size
  · rw [if_pos hlt] at h
    cases h
    exact ⟨g₁, v, hbody, hfin, hlt, rfl⟩
  · rw [if_neg hlt] at h
    exact absurd h throw_ne_ok

/-- A name has a place, and its value is loaded from there. -/
theorem lowerName_inv {name : String} (h : lowerName name g = .ok (u, g')) :
    ∃ r, g.resolve? name = some r ∧ emit r.load g = .ok ((), g') := by
  obtain ⟨_, _, hg, h⟩ := bind_eq_ok.mp h
  cases hg
  cases hr : g.resolve? name with
  | none =>
    rw [hr] at h
    exact absurd h throw_ne_ok
  | some r =>
    rw [hr] at h
    exact ⟨r, rfl, h⟩

/-- The end of a declaration makes a cell or a slot, and stores the value there. -/
theorem lowerDeclared_inv {name : String} {value : Nat} {d : Declaration}
    (h : lowerDeclared name value g = .ok (d, g')) :
    (g.current.declaresGlobals = true ∧ d = .cell value g.globalNames.size ∧
      emit (.storeGlobal g.globalNames.size) (g.declareGlobal name).2 = .ok ((), g')) ∨
    (g.current.declaresGlobals = false ∧ d = .slot value g.current.locals ∧
      emit (.storeLocal g.current.locals) (g.bindLocal name) = .ok ((), g')) := by
  obtain ⟨_, _, hg, h⟩ := bind_eq_ok.mp h
  cases hg
  cases hc : g.current.declaresGlobals with
  | true =>
    rw [if_pos hc] at h
    obtain ⟨_, _, hset, h⟩ := bind_eq_ok.mp h
    cases hset
    obtain ⟨_, _, hemit, h⟩ := bind_eq_ok.mp h
    obtain ⟨rfl, rfl⟩ := pure_eq_ok.mp h
    exact .inl ⟨rfl, rfl, hemit⟩
  | false =>
    rw [if_neg (by rw [hc]; exact Bool.false_ne_true)] at h
    obtain ⟨_, _, hbind, h⟩ := bind_eq_ok.mp h
    rw [bindLocal_ok] at hbind
    cases hbind
    obtain ⟨_, _, hemit, h⟩ := bind_eq_ok.mp h
    obtain ⟨rfl, rfl⟩ := pure_eq_ok.mp h
    exact .inr ⟨rfl, rfl, hemit⟩

/-- A declaration ends so, whatever is made of it. -/
theorem lowerDeclared_ok {name : String} {value : Nat}
    (h : (do
      let g ← get
      if g.current.declaresGlobals then
        let (cell, g) := g.declareGlobal name
        set g
        emit (.storeGlobal cell)
      else
        let slot ← onUnit fun b => b.declareLocal name
        emit (.storeLocal slot) : Generate Unit) g = .ok (u, g')) :
    ∃ source, lowerDeclared name value g = .ok (source, g') := by
  obtain ⟨_, _, hg, h⟩ := bind_eq_ok.mp h
  cases hg
  unfold lowerDeclared
  rw [bind_of_ok get_ok]
  split at h
  · rename_i hc
    obtain ⟨_, _, hset, hemit⟩ := bind_eq_ok.mp h
    rw [if_pos hc]
    exact ⟨_, (bind_of_ok hset).trans (bind_of_ok hemit)⟩
  · rename_i hc
    obtain ⟨_, _, hbind, hemit⟩ := bind_eq_ok.mp h
    rw [if_neg hc]
    exact ⟨_, (bind_of_ok hbind).trans (bind_of_ok hemit)⟩

/-- The test of a branch ends in the scope of the first arm. -/
theorem lowerTest_inv {after : Label} (h : lowerTest ty g = .ok (after, g')) :
    ∃ g₁, convert ty .bool g = .ok ((), g₁) ∧ after = g₁.nextLabel ∧ g' = g₁.tested.enter := by
  obtain ⟨_, g₁, hc, h⟩ := bind_eq_ok.mp h
  obtain ⟨_, _, hl, h⟩ := bind_eq_ok.mp h
  obtain ⟨_, _, hnot, h⟩ := bind_eq_ok.mp h
  obtain ⟨_, _, hjump, h⟩ := bind_eq_ok.mp h
  obtain ⟨_, _, henter, h⟩ := bind_eq_ok.mp h
  cases hl
  obtain ⟨-, rfl⟩ := emit_eq_ok.mp hnot
  obtain ⟨-, rfl⟩ := emit_eq_ok.mp hjump
  cases henter
  obtain ⟨rfl, rfl⟩ := pure_eq_ok.mp h
  exact ⟨g₁, hc, rfl, rfl⟩

/-- The step between two arms leaves the scope of the first one and opens one. -/
theorem lowerBetween_inv {otherwise after : Label}
    (h : lowerBetween otherwise g = .ok (after, g')) :
    after = g.leave.nextLabel ∧ g' = (g.leave.between otherwise).enter := by
  obtain ⟨_, _, hl, h⟩ := bind_eq_ok.mp h
  obtain ⟨_, _, hskip, h⟩ := bind_eq_ok.mp h
  obtain ⟨_, _, hplace, h⟩ := bind_eq_ok.mp h
  cases hl
  obtain ⟨-, rfl⟩ := emit_eq_ok.mp hskip
  cases hplace
  obtain ⟨rfl, rfl⟩ := pure_eq_ok.mp h
  exact ⟨rfl, rfl⟩

/-- The end of a branch leaves the scope of the last arm. -/
theorem lowerBehind_inv {after : Label} (h : lowerBehind after g = .ok (u, g')) :
    g' = g.leave.place after := by
  cases h
  rfl

/-! ## 2. Expressions -/

/-- **An expression leaves as many values as its type is wide,** for this is checked. -/
theorem lowerExpr_depth {e : Expr} (h : lowerExpr convert e g = .ok (ty, g')) :
    g'.depth = g.depth + ty.width := by
  cases e <;> rw [lowerExpr] at h <;> exact (producing_inv h).2.2

/-- The operands of an operator are written in order, and its instruction is put behind them. -/
theorem lowerBinary_inv {op : BinaryOp} {left right : Expr}
    (h : lowerExpr convert (.binary node op left right) g = .ok (ty, g')) :
    ∃ operand other o g₁ g₂, lowerExpr convert left g = .ok (operand, g₁) ∧
      lowerExpr convert right g₁ = .ok (other, g₂) ∧ op.op? operand = some o ∧
      emit o g₂ = .ok ((), g') := by
  rw [lowerExpr] at h
  obtain ⟨-, h, -⟩ := producing_inv h
  obtain ⟨operand, g₁, hl, h⟩ := bind_eq_ok.mp h
  obtain ⟨_, g₂, hr, h⟩ := bind_eq_ok.mp h
  obtain ⟨other, hr⟩ := discard_eq_ok.mp hr
  cases ho : op.op? operand with
  | none =>
    rw [ho] at h
    exact absurd h throw_ne_ok
  | some o =>
    rw [ho] at h
    exact ⟨operand, other, o, g₁, g₂, hl, hr, ho, h⟩

/-- An array is made empty, and its items are stored. -/
theorem lowerArray_inv {items : List Expr}
    (h : lowerExpr convert (.array node items) g = .ok (ty, g')) :
    ∃ element g₁, ty = .array element ∧ emit (.newArray items.length) g = .ok ((), g₁) ∧
      lowerItems convert element 0 items g₁ = .ok ((), g') := by
  rw [lowerExpr] at h
  obtain ⟨-, h, -⟩ := producing_inv h
  cases ty with
  | array element =>
    obtain ⟨_, g₁, hnew, h⟩ := bind_eq_ok.mp h
    exact ⟨element, g₁, rfl, hnew, h⟩
  | _ => exact absurd h throw_ne_ok

/-- A hash is made empty, and its entries are added. -/
theorem lowerHash_inv {entries : List (Expr × Expr)}
    (h : lowerExpr convert (.hash node entries) g = .ok (ty, g')) :
    ∃ key value g₁, ty = .hash key value ∧ emit .newHash g = .ok ((), g₁) ∧
      lowerEntries convert key value entries g₁ = .ok ((), g') := by
  rw [lowerExpr] at h
  obtain ⟨-, h, -⟩ := producing_inv h
  cases ty with
  | hash key value =>
    obtain ⟨_, g₁, hnew, h⟩ := bind_eq_ok.mp h
    exact ⟨key, value, g₁, rfl, hnew, h⟩
  | _ => exact absurd h throw_ne_ok

/-- A literal is written in a new unit, whose number is then put on the stack. -/
theorem lowerFn_inv {params : List Param} {returns : TypeExpr} {body : Block}
    (h : lowerExpr convert (.fn node params returns body) g = .ok (ty, g')) :
    ∃ g₁, unit (.new g.units.size (literalName g.literals) params.length returns.toTy)
        (bindParams params >>= fun _ => lowerBlock convert body)
        { g.reserve.2 with literals := g.literals + 1 } = .ok ((), g₁) ∧
      emit (.pushUnit g.units.size) g₁ = .ok ((), g') := by
  rw [lowerExpr] at h
  obtain ⟨-, h, -⟩ := producing_inv h
  obtain ⟨_, _, hg, h⟩ := bind_eq_ok.mp h
  cases hg
  obtain ⟨_, _, hset, h⟩ := bind_eq_ok.mp h
  cases hset
  obtain ⟨_, g₁, hunit, h⟩ := bind_eq_ok.mp h
  exact ⟨g₁, hunit, h⟩

/-- A target and its index are written in order. The index is turned into the type that the target
    takes, and an instruction for arrays or for hashes is put behind it. -/
theorem lowerIndex_inv {target key : Expr}
    (h : lowerExpr convert (.index node target key) g = .ok (ty, g')) :
    ∃ targetTy keyTy expected op g₁ g₂, lowerExpr convert target g = .ok (targetTy, g₁) ∧
      lowerExpr convert key g₁ = .ok (keyTy, g₂) ∧ (op = .indexArray ∨ op = .indexHash) ∧
      (do convert keyTy expected; emit op : Generate Unit) g₂ = .ok ((), g') := by
  rw [lowerExpr] at h
  obtain ⟨-, h, -⟩ := producing_inv h
  obtain ⟨targetTy, g₁, ht, h⟩ := bind_eq_ok.mp h
  obtain ⟨keyTy, g₂, hk, h⟩ := bind_eq_ok.mp h
  cases targetTy with
  | array element => exact ⟨_, keyTy, .int, .indexArray, g₁, g₂, ht, hk, .inl rfl, h⟩
  | hash expected value =>
    exact ⟨_, keyTy, expected, .indexHash, g₁, g₂, ht, hk, .inr rfl, h⟩
  | _ => exact absurd h throw_ne_ok

/-- A call goes to a function, to a built-in, or to the value of its callee. -/
theorem lowerCall_inv {callee : Expr} {args : List Expr}
    (h : lowerExpr convert (.call node callee args) g = .ok (ty, g')) :
    (∃ name id f g₁, g.callTarget callee = .function name id ∧ g.functionOf? id = some f ∧
        f.params.length = args.length ∧ lowerArgs convert f.params args g = .ok ((), g₁) ∧
        emit (.call id args.length !ty.isVoid) g₁ = .ok ((), g')) ∨
      (∃ name b g₁, g.callTarget callee = .builtin name b ∧
        lowerAll convert args g = .ok ((), g₁) ∧ emit (.callBuiltin b) g₁ = .ok ((), g')) ∨
      ∃ params returns g₁ g₂, g.callTarget callee = .value ∧
        lowerExpr convert callee g = .ok (.fn params returns, g₁) ∧
        params.length = args.length ∧ lowerArgs convert params args g₁ = .ok ((), g₂) ∧
        emit (.callIndirect args.length !ty.isVoid) g₂ = .ok ((), g') := by
  rw [lowerExpr] at h
  obtain ⟨-, h, -⟩ := producing_inv h
  obtain ⟨_, _, hg, h⟩ := bind_eq_ok.mp h
  cases hg
  cases ht : g.callTarget callee with
  | function name id =>
    simp only [ht] at h
    cases hf : g.functionOf? id with
    | none =>
      rw [hf] at h
      exact absurd h throw_ne_ok
    | some f =>
      rw [hf] at h
      obtain ⟨hn, h⟩ := unless_throw_eq_ok.mp h
      obtain ⟨_, g₁, ha, he⟩ := bind_eq_ok.mp h
      exact .inl ⟨name, id, f, g₁, rfl, hf, not_not.mp hn, ha, he⟩
  | builtin name b =>
    simp only [ht] at h
    obtain ⟨-, h⟩ := unless_throw_eq_ok.mp h
    obtain ⟨_, g₁, ha, he⟩ := bind_eq_ok.mp h
    exact .inr (.inl ⟨name, b, g₁, rfl, ha, he⟩)
  | value =>
    simp only [ht] at h
    obtain ⟨calleeTy, g₁, hc, h⟩ := bind_eq_ok.mp h
    cases calleeTy with
    | fn params returns =>
      obtain ⟨hn, h⟩ := unless_throw_eq_ok.mp h
      obtain ⟨_, g₂, ha, he⟩ := bind_eq_ok.mp h
      exact .inr (.inr ⟨params, returns, g₁, g₂, rfl, hc, not_not.mp hn, ha, he⟩)
    | _ => exact absurd h throw_ne_ok

/-! ## 3. Lists of expressions -/

/-- An item is turned into the type of the elements and stored. -/
theorem lowerItems_cons_inv {element : Ty} {index : Nat} {item : Expr} {rest : List Expr}
    (h : lowerItems convert element index (item :: rest) g = .ok (u, g')) :
    ∃ found g₁ g₂, lowerExpr convert item g = .ok (found, g₁) ∧
      (do convert found element; emit (.setElement index) : Generate Unit) g₁ = .ok ((), g₂) ∧
      lowerItems convert element (index + 1) rest g₂ = .ok (u, g') := by
  rw [lowerItems] at h
  obtain ⟨found, g₁, hi, h⟩ := bind_eq_ok.mp h
  obtain ⟨_, _, hc, h⟩ := bind_eq_ok.mp h
  obtain ⟨_, g₂, he, h⟩ := bind_eq_ok.mp h
  exact ⟨found, g₁, g₂, hi, bind_eq_ok.mpr ⟨_, _, hc, he⟩, h⟩

/-- A key and its value are turned into the types of the hash, and the entry is added. -/
theorem lowerEntries_cons_inv {key value : Ty} {k v : Expr} {rest : List (Expr × Expr)}
    (h : lowerEntries convert key value ((k, v) :: rest) g = .ok (u, g')) :
    ∃ found found' g₁ g₂ g₃ g₄, lowerExpr convert k g = .ok (found, g₁) ∧
      convert found key g₁ = .ok ((), g₂) ∧ lowerExpr convert v g₂ = .ok (found', g₃) ∧
      (do convert found' value; emit .insertEntry : Generate Unit) g₃ = .ok ((), g₄) ∧
      lowerEntries convert key value rest g₄ = .ok (u, g') := by
  rw [lowerEntries] at h
  obtain ⟨found, g₁, hk, h⟩ := bind_eq_ok.mp h
  obtain ⟨_, g₂, hc, h⟩ := bind_eq_ok.mp h
  obtain ⟨found', g₃, hv, h⟩ := bind_eq_ok.mp h
  obtain ⟨_, _, hc', h⟩ := bind_eq_ok.mp h
  obtain ⟨_, g₄, he, h⟩ := bind_eq_ok.mp h
  exact ⟨found, found', g₁, g₂, g₃, g₄, hk, hc, hv, bind_eq_ok.mpr ⟨_, _, hc', he⟩, h⟩

/-- An argument is turned into the type of its parameter. -/
theorem lowerArgs_cons_inv {param : Ty} {params : List Ty} {arg : Expr} {rest : List Expr}
    (h : lowerArgs convert (param :: params) (arg :: rest) g = .ok (u, g')) :
    ∃ found g₁ g₂, lowerExpr convert arg g = .ok (found, g₁) ∧
      convert found param g₁ = .ok ((), g₂) ∧ lowerArgs convert params rest g₂ = .ok (u, g') := by
  rw [lowerArgs] at h
  obtain ⟨found, g₁, ha, h⟩ := bind_eq_ok.mp h
  obtain ⟨_, g₂, hc, h⟩ := bind_eq_ok.mp h
  exact ⟨found, g₁, g₂, ha, hc, h⟩

/-- The argument of a built-in keeps its type. -/
theorem lowerAll_cons_inv {arg : Expr} {rest : List Expr}
    (h : lowerAll convert (arg :: rest) g = .ok (u, g')) :
    ∃ found g₁, lowerExpr convert arg g = .ok (found, g₁) ∧
      lowerAll convert rest g₁ = .ok (u, g') := by
  rw [lowerAll] at h
  obtain ⟨_, g₁, ha, h⟩ := bind_eq_ok.mp h
  obtain ⟨found, ha⟩ := discard_eq_ok.mp ha
  exact ⟨found, g₁, ha, h⟩

/-! ## 4. Statements -/

/-- **A statement leaves the depth as it was,** for this is checked. -/
theorem lowerStmt_depth {s : Stmt} (h : lowerStmt convert s g = .ok (u, g')) :
    g'.depth = g.depth := by
  rcases s with _ | ⟨_, _ | _⟩ | _ | ⟨_, _, _, _ | _⟩ | _ | _ <;>
    rw [lowerStmt] at h <;> exact (preserving_inv h).2

theorem lowerStmts_depth {body : List Stmt} (h : lowerStmts convert body g = .ok (u, g')) :
    g'.depth = g.depth := by
  induction body generalizing g with
  | nil =>
    rw [lowerStmts] at h
    obtain ⟨-, rfl⟩ := pure_eq_ok.mp h
    rfl
  | cons s rest ih =>
    rw [lowerStmts] at h
    obtain ⟨_, g₁, hs, hrest⟩ := bind_eq_ok.mp h
    exact (ih hrest).trans (lowerStmt_depth hs)

/-- A declaration is its value, turned into the declared type, and what is declared. -/
theorem lowerStmt_declare_inv {span : Span} {constant : Bool} {name : String}
    {written : TypeExpr} {value : Expr}
    (h : lowerStmt convert (.declare span constant name written value) g = .ok (u, g')) :
    ∃ ty g₁ g₂ source, lowerExpr convert value g = .ok (ty, g₁) ∧
      convert ty written.toTy g₁ = .ok ((), g₂) ∧
      lowerDeclared name value.id g₂ = .ok (source, g') := by
  rw [lowerStmt] at h
  obtain ⟨h, -⟩ := preserving_inv h
  obtain ⟨ty, g₁, hv, h⟩ := bind_eq_ok.mp h
  obtain ⟨_, g₂, hc, h⟩ := bind_eq_ok.mp h
  obtain ⟨source, hd⟩ := lowerDeclared_ok h
  exact ⟨ty, g₁, g₂, source, hv, hc, hd⟩

/-- A branch with one arm is its condition, the test, the arm and an end. -/
theorem lowerStmt_branch_inv {span spanYes : Span} {condition : Expr} {yes : List Stmt}
    (h : lowerStmt convert (.branch span condition (.mk yes spanYes) none) g = .ok (u, g')) :
    ∃ ty g₁ after g₂ g₃, lowerExpr convert condition g = .ok (ty, g₁) ∧
      lowerTest ty g₁ = .ok (after, g₂) ∧ lowerStmts convert yes g₂ = .ok ((), g₃) ∧
      lowerBehind after g₃ = .ok ((), g') := by
  rw [lowerStmt] at h
  obtain ⟨h, -⟩ := preserving_inv h
  obtain ⟨ty, g₁, hv, h⟩ := bind_eq_ok.mp h
  obtain ⟨_, _, hc, h⟩ := bind_eq_ok.mp h
  obtain ⟨after, _, hl, h⟩ := bind_eq_ok.mp h
  obtain ⟨_, _, hnot, h⟩ := bind_eq_ok.mp h
  obtain ⟨_, _, hjump, h⟩ := bind_eq_ok.mp h
  obtain ⟨_, g₂, henter, h⟩ := bind_eq_ok.mp h
  obtain ⟨_, g₃, hyes, h⟩ := bind_eq_ok.mp h
  rw [lowerBlock] at hyes
  refine ⟨ty, g₁, after, g₂, g₃, hv, ?_, hyes, h⟩
  unfold lowerTest
  rw [bind_of_ok hc, bind_of_ok hl, bind_of_ok hnot, bind_of_ok hjump, bind_of_ok henter]
  rfl

/-- A branch with two arms has a step between them. -/
theorem lowerStmt_branchElse_inv {span spanYes spanNo : Span} {condition : Expr}
    {yes no : List Stmt}
    (h : lowerStmt convert (.branch span condition (.mk yes spanYes) (some (.mk no spanNo))) g =
      .ok (u, g')) :
    ∃ ty g₁ otherwise g₂ g₃ after g₄ g₅, lowerExpr convert condition g = .ok (ty, g₁) ∧
      lowerTest ty g₁ = .ok (otherwise, g₂) ∧ lowerStmts convert yes g₂ = .ok ((), g₃) ∧
      lowerBetween otherwise g₃ = .ok (after, g₄) ∧ lowerStmts convert no g₄ = .ok ((), g₅) ∧
      lowerBehind after g₅ = .ok ((), g') := by
  rw [lowerStmt] at h
  obtain ⟨h, -⟩ := preserving_inv h
  obtain ⟨ty, g₁, hv, h⟩ := bind_eq_ok.mp h
  obtain ⟨_, _, hc, h⟩ := bind_eq_ok.mp h
  obtain ⟨otherwise, _, hl, h⟩ := bind_eq_ok.mp h
  obtain ⟨_, _, hnot, h⟩ := bind_eq_ok.mp h
  obtain ⟨_, _, hjump, h⟩ := bind_eq_ok.mp h
  obtain ⟨_, g₂, henter, h⟩ := bind_eq_ok.mp h
  obtain ⟨_, g₃, hyes, h⟩ := bind_eq_ok.mp h
  obtain ⟨after, _, hafter, h⟩ := bind_eq_ok.mp h
  obtain ⟨_, _, hskip, h⟩ := bind_eq_ok.mp h
  obtain ⟨_, g₄, hplace, h⟩ := bind_eq_ok.mp h
  obtain ⟨_, g₅, hno, h⟩ := bind_eq_ok.mp h
  rw [lowerBlock] at hyes hno
  refine ⟨ty, g₁, otherwise, g₂, g₃, after, g₄, g₅, hv, ?_, hyes, ?_, hno, h⟩
  · unfold lowerTest
    rw [bind_of_ok hc, bind_of_ok hl, bind_of_ok hnot, bind_of_ok hjump, bind_of_ok henter]
    rfl
  · unfold lowerBetween
    rw [bind_of_ok hafter, bind_of_ok hskip, bind_of_ok hplace]
    rfl

end Stackling
