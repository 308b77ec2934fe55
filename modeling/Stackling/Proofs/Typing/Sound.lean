import Stackling.Proofs.Typing.Inversion

/-
  File:     Stackling/Proofs/Typing/Sound.lean
  Subject:  What the analysis accepts is well typed.

  A step that reports nothing gives a derivation, construct by construct: it has found the
  type of the derivation, has filed its rows, and ends in its context.

  * `checkExpr_sound`  -- expressions;
  * `checkStmts_sound` -- statements.
-/
namespace Stackling

open Check

/-! ## 1. Conditions of the reports -/

/-- An item is not compared with an element type that is `void`, but there is none. -/
theorem eq_of_not_item {element found : Ty} (hv : element ≠ .void)
    (h : ¬ (!element.isVoid && !element.compatible found) = true) : found = element := by
  have hv' := Ty.isVoid_eq_false hv
  exact eq_of_not_unlike (by simpa [hv'] using h)

/-- A `void` element is not reported if the context expects it, which it does not. -/
theorem value_of_not_void {wanted : Option Ty} {ty : Ty} (hw : ∀ t ∈ wanted, t ≠ Ty.void)
    (h : ¬ (ty.isVoid && wanted != some .void) = true) : ty ≠ .void := by
  rintro rfl
  have hne : wanted ≠ some .void := fun he => hw _ he rfl
  exact h (by simp [Ty.isVoid, hne])

/-- A name that is analysed quietly stands for something. -/
theorem checkExpr_name_sound {Γ : Context} {within : Option Enclosing} {returns : Option Ty}
    {a b : Analysis} {wanted : Option Ty} {ty : Ty} {node : Node} {name : String}
    (hs : Stands within Γ returns) (ha : a.scopes.Agrees Γ)
    (h : Quiet (checkExpr within wanted (.name node name)) a ty b) :
    ∃ e, Γ.find? name = some e ∧ ty = e.ty ∧ Analysed Γ [(node.id, e.ty)] a b := by
  obtain ⟨_, h₁, rfl⟩ := checkExpr_name_inv h
  obtain ⟨rfl, e, he, rfl⟩ := (quiet_checkName hs ha).mp h₁
  exact ⟨e, he, rfl, (Analysed.refl ha).file node _⟩

/-! ## 2. Expressions and statements -/

mutual
/-- **An expression that is analysed quietly is well typed.** -/
theorem checkExpr_sound {Γ : Context} {within : Option Enclosing} {returns : Option Ty}
    {a b : Analysis} {wanted : Option Ty} {ty : Ty} (hs : Stands within Γ returns)
    (hΓ : Γ.Sane) (hw : Wanted wanted) (ha : a.scopes.Agrees Γ) : (e : Expr) →
    Quiet (checkExpr within wanted e) a ty b →
    ∃ rows, ExprTyped Γ wanted e ty rows ∧ Analysed Γ rows a b
  | .int node _, h => by
    unfold checkExpr at h
    obtain ⟨rfl, rfl⟩ := h.file_inv
    exact ⟨_, .int, (Analysed.refl ha).file node _⟩
  | .text node _, h => by
    unfold checkExpr at h
    obtain ⟨rfl, rfl⟩ := h.file_inv
    exact ⟨_, .text, (Analysed.refl ha).file node _⟩
  | .char node _, h => by
    unfold checkExpr at h
    obtain ⟨rfl, rfl⟩ := h.file_inv
    exact ⟨_, .char, (Analysed.refl ha).file node _⟩
  | .bool node _, h => by
    unfold checkExpr at h
    obtain ⟨rfl, rfl⟩ := h.file_inv
    exact ⟨_, .bool, (Analysed.refl ha).file node _⟩
  | .name _ _, h => by
    obtain ⟨e, he, rfl, hA⟩ := checkExpr_name_sound hs ha h
    exact ⟨_, .name he, hA⟩
  | .binary node op left right, h => by
    obtain ⟨l, r, _, _, h₁, h₂, hop, rfl⟩ := checkExpr_binary_iff.mp h
    obtain ⟨rows₁, hl, hA₁⟩ := checkExpr_sound hs hΓ .none ha left h₁
    obtain ⟨rows₂, hr, hA₂⟩ := checkExpr_sound hs hΓ .none hA₁.scopes right h₂
    exact ⟨_, .binary hl hr (BinaryOp.check_eq_iff.mp hop), (hA₁.trans hA₂).file node _⟩
  | .array node [], h => by
    unfold checkExpr at h
    obtain ⟨rfl, rfl⟩ := h.file_inv
    exact ⟨_, .emptyArray rfl, (Analysed.refl ha).file node _⟩
  | .array node (first :: rest), h => by
    obtain ⟨element, _, _, h₁, hv, h₂, rfl, rfl⟩ := checkExpr_array_iff.mp h
    have hv := value_of_not_void (fun t ht => (hw.element t ht).2) hv
    obtain ⟨rows₁, hf, hA₁⟩ := checkExpr_sound hs hΓ hw.of_element ha first h₁
    have hp := hf.proper hΓ hw.of_element
    obtain ⟨rows₂, hr, hA₂⟩ := checkItems_sound hs hΓ hp hv hA₁.scopes rest h₂
    exact ⟨_, .array hf hv hr, (hA₁.trans hA₂).file node _⟩
  | .hash node [], h => by
    unfold checkExpr at h
    obtain ⟨rfl, rfl⟩ := h.file_inv
    exact ⟨_, .emptyHash rfl, (Analysed.refl ha).file node _⟩
  | .hash node ((firstKey, firstValue) :: rest), h => by
    obtain ⟨key, value, _, _, _, h₁, h₂, hk, hv, h₃, rfl, rfl⟩ := checkExpr_hash_iff.mp h
    have hkey : key = .int ∨ key = .string := by simpa [← isHashKey_iff] using hk
    have hv := value_of_not_void (fun t ht => (hw.value t ht).2) hv
    obtain ⟨rows₁, hk, hA₁⟩ := checkExpr_sound hs hΓ hw.of_key ha firstKey h₁
    obtain ⟨rows₂, hval, hA₂⟩ := checkExpr_sound hs hΓ hw.of_value hA₁.scopes firstValue h₂
    have hp := hval.proper hΓ hw.of_value
    obtain ⟨rows₃, hr, hA₃⟩ := checkEntries_sound hs hΓ hkey hp hv hA₂.scopes rest h₃
    exact ⟨_, .hash hk hval hkey hv hr, ((hA₁.trans hA₂).trans hA₃).file node _⟩
  | .fn node params written (.mk body span), h => by
    obtain ⟨_, _, _, hr, hp, h₁, h₂, h₃, he, rfl, rfl⟩ := checkExpr_fn_inv h
    have ha₀ : a.scopes.enter.Agrees (Γ.literal []) := ha.enter rfl rfl
    obtain ⟨hn, -, hA₁⟩ := declareParams_sound ha₀ h₁
    rw [List.append_nil] at hA₁
    have hps : ParamsTyped params := ⟨fun p h => (hp p h).1, fun p h => (hp p h).2, hn⟩
    have hs' : Stands (some ⟨written.toTy, some a.scopes.enter.level⟩)
        (Γ.literal (paramScope params)) (some written.toTy) := by
      refine ⟨rfl, ?_, nofun⟩
      rintro _ ⟨⟩
      exact ha₀.level
    have hΓ' := hΓ.literal (paramScope_proper hps)
    obtain ⟨Γ', rows, hb, hA₂⟩ := checkStmts_sound hs' hΓ' (.some hr) hA₁.scopes body h₂
    have ho := (Context.Opened.literal Γ (paramScope params)).grown (hb.grown body)
    have hA : Analysed Γ rows a _ := (Analysed.refl ha).scoped (hA₁.trans hA₂) ho h₃
    exact ⟨_, .fn hr hps hb he, hA.file node _⟩
  | .index node target key, h => by
    obtain ⟨t, _, k, _, h₁, hcases, h₂, rfl⟩ := checkExpr_index_inv h
    obtain ⟨rows₁, ht, hA₁⟩ := checkExpr_sound hs hΓ .none ha target h₁
    rcases hcases with ⟨rfl, rfl⟩ | rfl
    · obtain ⟨rows₂, hk, hA₂⟩ := checkExpr_sound hs hΓ (.some .int) hA₁.scopes key h₂
      exact ⟨_, .indexArray ht hk, (hA₁.trans hA₂).file node _⟩
    · have hp := (Ty.Proper.of_key (ht.proper hΓ .none).entry.1).1
      obtain ⟨rows₂, hk, hA₂⟩ := checkExpr_sound hs hΓ (.some hp) hA₁.scopes key h₂
      exact ⟨_, .indexHash ht hk, (hA₁.trans hA₂).file node _⟩
  | .call node callee args, h => by
    obtain ⟨calleeTy, _, _, h₁, rfl, ⟨b, types, hb, h₂, hcall⟩ | ⟨hb, params, rfl, h₂⟩⟩ :=
      checkExpr_call_inv h
    · obtain ⟨inner, name, rfl, he⟩ := (builtinCallee?_eq_some_iff hΓ ha).mp hb
      obtain ⟨e, he', -, hA₁⟩ := checkExpr_name_sound hs ha h₁
      obtain rfl := Option.some.inj (he.symm.trans he')
      obtain ⟨rows₂, hargs, hA₂⟩ := checkBuiltinArgs_sound hs hΓ .none hA₁.scopes args h₂
      exact ⟨_, .callBuiltin he hargs (Builtin.checkCall_eq_ok_iff.mp hcall),
        (hA₁.trans hA₂).file node _⟩
    · have hn : ∀ inner name b, callee = .name inner name →
          Γ.find? name ≠ some (.builtin b) := by
        intro inner name b hc he
        rw [(builtinCallee?_eq_some_iff hΓ ha).mpr ⟨inner, name, hc, he⟩] at hb
        cases hb
      obtain ⟨rows₁, hc, hA₁⟩ := checkExpr_sound hs hΓ .none ha callee h₁
      have hparams := fun p h => ((hc.proper hΓ .none).param p h).1
      obtain ⟨rows₂, hargs, hA₂⟩ := checkArgs_sound hs hΓ hparams hA₁.scopes args h₂
      exact ⟨_, .call hn hc hargs, (hA₁.trans hA₂).file node _⟩

/-- Items that are analysed quietly are well typed. -/
theorem checkItems_sound {Γ : Context} {within : Option Enclosing} {returns : Option Ty}
    {a b : Analysis} {line : Nat} {element : Ty} {u : Unit} (hs : Stands within Γ returns)
    (hΓ : Γ.Sane) (hp : element.Proper) (hv : element ≠ .void) (ha : a.scopes.Agrees Γ) :
    (items : List Expr) → Quiet (checkItems within line element items) a u b →
    ∃ rows, ItemsTyped Γ element items rows ∧ Analysed Γ rows a b
  | [], h => by
    unfold checkItems at h
    obtain ⟨-, rfl⟩ := h.pure_inv
    exact ⟨_, .nil, .refl ha⟩
  | item :: rest, h => by
    obtain ⟨found, _, h₁, hf, h₂⟩ := checkItems_cons_inv h
    obtain rfl := eq_of_not_item hv hf
    obtain ⟨rows₁, hi, hA₁⟩ := checkExpr_sound hs hΓ (.some hp) ha item h₁
    obtain ⟨rows₂, hr, hA₂⟩ := checkItems_sound hs hΓ hp hv hA₁.scopes rest h₂
    exact ⟨_, .cons hi hr, hA₁.trans hA₂⟩

/-- Entries that are analysed quietly are well typed. -/
theorem checkEntries_sound {Γ : Context} {within : Option Enclosing} {returns : Option Ty}
    {a b : Analysis} {line : Nat} {key value : Ty} {u : Unit}
    (hs : Stands within Γ returns) (hΓ : Γ.Sane) (hk : key = .int ∨ key = .string)
    (hp : value.Proper) (hv : value ≠ .void) (ha : a.scopes.Agrees Γ) :
    (entries : List (Expr × Expr)) → Quiet (checkEntries within line key value entries) a u b →
    ∃ rows, EntriesTyped Γ key value entries rows ∧ Analysed Γ rows a b
  | [], h => by
    unfold checkEntries at h
    obtain ⟨-, rfl⟩ := h.pure_inv
    exact ⟨_, .nil, .refl ha⟩
  | (k, v) :: rest, h => by
    obtain ⟨found, _, _, h₁, h₂, hf, h₃⟩ := checkEntries_cons_inv h
    obtain rfl := eq_of_not_item hv hf
    obtain ⟨rows₁, hke, hA₁⟩ := checkExpr_sound hs hΓ (.some (Ty.Proper.of_key hk).1) ha k h₁
    obtain ⟨rows₂, hve, hA₂⟩ := checkExpr_sound hs hΓ (.some hp) hA₁.scopes v h₂
    obtain ⟨rows₃, hr, hA₃⟩ := checkEntries_sound hs hΓ hk hp hv hA₂.scopes rest h₃
    exact ⟨_, .cons hke hve hr, (hA₁.trans hA₂).trans hA₃⟩

/-- Arguments that are analysed quietly and have the types of the parameters are well
    typed. -/
theorem checkArgs_sound {Γ : Context} {within : Option Enclosing} {returns : Option Ty}
    {a b : Analysis} {params : List Ty} (hs : Stands within Γ returns) (hΓ : Γ.Sane)
    (hp : ∀ p ∈ params, p.Proper) (ha : a.scopes.Agrees Γ) : (args : List Expr) →
    Quiet (checkArgs within params args) a params b →
    ∃ rows, ArgsTyped Γ params args rows ∧ Analysed Γ rows a b
  | [], h => by
    unfold checkArgs at h
    obtain ⟨rfl, rfl⟩ := h.pure_inv
    exact ⟨_, .nil, .refl ha⟩
  | arg :: rest, h => by
    obtain ⟨ty, types, _, h₁, h₂, rfl⟩ := checkArgs_cons_inv h
    obtain ⟨hty, hp⟩ := List.forall_mem_cons.mp hp
    obtain ⟨rows₁, harg, hA₁⟩ := checkExpr_sound hs hΓ (.some hty) ha arg h₁
    obtain ⟨rows₂, hr, hA₂⟩ := checkArgs_sound hs hΓ hp hA₁.scopes rest h₂
    exact ⟨_, .cons harg hr, hA₁.trans hA₂⟩

/-- Arguments of a built-in that are analysed quietly are well typed. -/
theorem checkBuiltinArgs_sound {Γ : Context} {within : Option Enclosing} {returns : Option Ty}
    {a b : Analysis} {builtin : Builtin} {first : Option Ty} {types : List Ty}
    (hs : Stands within Γ returns) (hΓ : Γ.Sane) (hw : Wanted first) (ha : a.scopes.Agrees Γ) :
    (args : List Expr) → Quiet (checkBuiltinArgs within builtin first args) a types b →
    ∃ rows, BuiltinArgsTyped Γ builtin first args types rows ∧ Analysed Γ rows a b
  | [], h => by
    unfold checkBuiltinArgs at h
    obtain ⟨rfl, rfl⟩ := h.pure_inv
    exact ⟨_, .nil, .refl ha⟩
  | arg :: rest, h => by
    obtain ⟨ty, types, _, h₁, h₂, rfl⟩ := checkBuiltinArgs_cons_inv h
    have hw₁ := hw.expectedNext builtin
    obtain ⟨rows₁, harg, hA₁⟩ := checkExpr_sound hs hΓ hw₁ ha arg h₁
    have hw₂ := hw.orElse (harg.proper hΓ hw₁)
    obtain ⟨rows₂, hr, hA₂⟩ := checkBuiltinArgs_sound hs hΓ hw₂ hA₁.scopes rest h₂
    exact ⟨_, .cons harg hr, hA₁.trans hA₂⟩

/-- **A statement that is analysed quietly is well typed.** -/
theorem checkStmt_sound {Γ : Context} {within : Option Enclosing} {returns : Option Ty}
    {a b : Analysis} {u : Unit} (hs : Stands within Γ returns) (hΓ : Γ.Sane)
    (hr : Wanted returns) (ha : a.scopes.Agrees Γ) : (s : Stmt) →
    Quiet (checkStmt within s) a u b →
    ∃ Γ' rows, StmtTyped Γ returns s Γ' rows ∧ Analysed Γ' rows a b
  | .declare span constant name written value, h => by
    obtain ⟨_, hw, hv, h₁, h₂⟩ := checkStmt_declare_inv h
    obtain ⟨rows, he, hA⟩ := checkExpr_sound hs hΓ (.some hw) ha value h₁
    obtain ⟨t, ht, rfl⟩ := h₂.declare_inv
    obtain ⟨Γ', hd⟩ := hA.scopes.declares_of_some hΓ.outermost ht
    obtain ⟨t', ht', hA'⟩ := hA.scopes.declare hΓ.outermost hd constant
    obtain rfl : t = t' := Option.some.inj (ht.symm.trans ht')
    exact ⟨Γ', rows, .declare hw hv he hd, hA', hA.types⟩
  | .returns span none, h => by
    obtain ⟨rfl⟩ := hs.returns
    obtain ⟨f, rfl, hv, rfl⟩ := checkStmt_returnsNothing_inv h
    exact ⟨Γ, [], by simpa [hv] using StmtTyped.returnsNothing, .refl ha⟩
  | .returns span (some value), h => by
    obtain ⟨rfl⟩ := hs.returns
    obtain ⟨f, rfl, h₁⟩ := checkStmt_returns_inv h
    obtain ⟨rows, he, hA⟩ := checkExpr_sound hs hΓ hr ha value h₁
    exact ⟨Γ, rows, .returns he, hA⟩
  | .expr value, h => by
    unfold checkStmt at h
    obtain ⟨ty, h⟩ := h.discard_inv
    obtain ⟨rows, he, hA⟩ := checkExpr_sound hs hΓ .none ha value h
    exact ⟨Γ, rows, .expr he, hA⟩
  | .branch span condition (.mk yes spanYes) none, h => by
    obtain ⟨_, _, _, h₁, h₂, h₃, h₄⟩ := checkStmt_branch_inv h
    obtain ⟨rows₀, hc, hA₀⟩ := checkExpr_sound hs hΓ (.some .bool) ha condition h₁
    obtain rfl := h₂.enter_inv
    have ha₀ := hA₀.scopes.enter_branch
    obtain ⟨Γ₁, rows₁, hy, hA₁⟩ := checkStmts_sound hs.branch hΓ.branch hr ha₀ yes h₃
    exact ⟨Γ, _, .branch hc hy, hA₀.scoped hA₁ ((Context.Opened.branch Γ).grown (hy.grown yes)) h₄⟩
  | .branch span condition (.mk yes spanYes) (some (.mk no spanNo)), h => by
    obtain ⟨_, _, _, _, _, _, h₁, h₂, h₃, h₄, h₅, h₆, h₇⟩ := checkStmt_branchElse_inv h
    obtain ⟨rows₀, hc, hA₀⟩ := checkExpr_sound hs hΓ (.some .bool) ha condition h₁
    obtain rfl := h₂.enter_inv
    have ha₀ := hA₀.scopes.enter_branch
    obtain ⟨Γ₁, rows₁, hy, hA₁⟩ := checkStmts_sound hs.branch hΓ.branch hr ha₀ yes h₃
    have hA₂ := hA₀.scoped hA₁ ((Context.Opened.branch Γ).grown (hy.grown yes)) h₄
    obtain rfl := h₅.enter_inv
    have ha₂ := hA₂.scopes.enter_branch
    obtain ⟨Γ₂, rows₂, hn, hA₃⟩ := checkStmts_sound hs.branch hΓ.branch hr ha₂ no h₆
    have hA₄ := hA₂.scoped hA₃ ((Context.Opened.branch Γ).grown (hn.grown no)) h₇
    exact ⟨Γ, _, .branchElse hc hy hn, hA₄⟩
  | .print span value, h => by
    obtain ⟨ty, h₁, hv⟩ := checkStmt_print_inv h
    obtain ⟨rows, he, hA⟩ := checkExpr_sound hs hΓ .none ha value h₁
    exact ⟨Γ, rows, .print he hv, hA⟩
  | .block (.mk body span), h => by
    unfold checkStmt checkBlock at h
    obtain ⟨Γ', rows, hb, hA⟩ := checkStmts_sound hs hΓ hr ha body h
    exact ⟨Γ', rows, .block hb, hA⟩

/-- **Statements that are analysed quietly are well typed.** -/
theorem checkStmts_sound {Γ : Context} {within : Option Enclosing} {returns : Option Ty}
    {a b : Analysis} {u : Unit} (hs : Stands within Γ returns) (hΓ : Γ.Sane)
    (hr : Wanted returns) (ha : a.scopes.Agrees Γ) : (body : List Stmt) →
    Quiet (checkStmts within body) a u b →
    ∃ Γ' rows, StmtsTyped Γ returns body Γ' rows ∧ Analysed Γ' rows a b
  | [], h => by
    unfold checkStmts at h
    obtain ⟨-, rfl⟩ := h.pure_inv
    exact ⟨Γ, [], .nil, .refl ha⟩
  | s :: rest, h => by
    unfold checkStmts at h
    obtain ⟨_, _, h₁, h₂⟩ := h.bind_inv
    obtain ⟨Γ₁, rows₁, hst, hA₁⟩ := checkStmt_sound hs hΓ hr ha s h₁
    have hs₁ := hs.grown (hst.grown s)
    have hΓ₁ := StmtTyped.sane hΓ s hst
    obtain ⟨Γ₂, rows₂, hrest, hA₂⟩ := checkStmts_sound hs₁ hΓ₁ hr hA₁.scopes rest h₂
    exact ⟨Γ₂, _, .cons hst hrest, hA₁.trans hA₂⟩
end

end Stackling
