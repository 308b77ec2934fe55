import Stackling.Proofs.Typing.Inversion

/-
  File:     Stackling/Proofs/Typing/Complete.lean
  Subject:  What is well typed is accepted by the analysis.

  A derivation tells the analysis what to find: every step succeeds, reports nothing, and
  leaves the rows and the context of the derivation.

  * `ExprTyped.quiet`  -- expressions;
  * `StmtsTyped.quiet` -- statements.
-/
namespace Stackling

open Check

/-! ## 1. Conditions of the reports -/

/-- A condition that fails keeps its report back. -/
theorem Quiet.unless {p : Prop} [Decidable p] {line : Nat} {problem : Problem} (hp : ¬ p)
    (a : Analysis) : Quiet (if p then report line problem else Pure.pure PUnit.unit) a ⟨⟩ a :=
  Quiet.report_if.mpr ⟨hp, rfl⟩

/-- A name that stands for something is analysed quietly. -/
theorem checkExpr_name_quiet {Γ : Context} {within : Option Enclosing} {returns : Option Ty}
    {a : Analysis} {wanted : Option Ty} {e : Entity} {node : Node} {name : String}
    (hs : Stands within Γ returns) (ha : a.scopes.Agrees Γ) (he : Γ.find? name = some e) :
    ∃ b, Quiet (checkExpr within wanted (.name node name)) a e.ty b ∧
      Analysed Γ [(node.id, e.ty)] a b := by
  unfold checkExpr
  exact ⟨_, .bind ((quiet_checkName hs ha).mpr ⟨rfl, e, he, rfl⟩) (.file node _ _),
    (Analysed.refl ha).file node _⟩

/-! ## 2. Expressions and statements -/

mutual
/-- **A well typed expression is analysed quietly.** -/
theorem ExprTyped.quiet {Γ : Context} {within : Option Enclosing} {returns : Option Ty}
    {a : Analysis} {wanted : Option Ty} {ty : Ty} {rows : Rows} (hs : Stands within Γ returns)
    (hΓ : Γ.Sane) (hw : Wanted wanted) (ha : a.scopes.Agrees Γ) : (e : Expr) →
    ExprTyped Γ wanted e ty rows →
    ∃ b, Quiet (checkExpr within wanted e) a ty b ∧ Analysed Γ rows a b
  | .int node _, .int => by
    unfold checkExpr
    exact ⟨_, .file node _ _, (Analysed.refl ha).file node _⟩
  | .text node _, .text => by
    unfold checkExpr
    exact ⟨_, .file node _ _, (Analysed.refl ha).file node _⟩
  | .char node _, .char => by
    unfold checkExpr
    exact ⟨_, .file node _ _, (Analysed.refl ha).file node _⟩
  | .bool node _, .bool => by
    unfold checkExpr
    exact ⟨_, .file node _ _, (Analysed.refl ha).file node _⟩
  | .name _ _, .name found => checkExpr_name_quiet hs ha found
  | .binary node op left right, .binary hl hr ho => by
    obtain ⟨_, h₁, hA₁⟩ := ExprTyped.quiet hs hΓ .none ha left hl
    obtain ⟨_, h₂, hA₂⟩ := ExprTyped.quiet hs hΓ .none hA₁.scopes right hr
    refine ⟨_, checkExpr_binary_iff.mpr ?_, (hA₁.trans hA₂).file node _⟩
    exact ⟨_, _, _, _, h₁, h₂, BinaryOp.check_eq_iff.mpr ho, rfl⟩
  | .array node [], .emptyArray hty => by
    subst hty
    unfold checkExpr
    exact ⟨_, .file node _ _, (Analysed.refl ha).file node _⟩
  | .array node (first :: rest), .array hf hv hr => by
    obtain ⟨_, h₁, hA₁⟩ := ExprTyped.quiet hs hΓ hw.of_element ha first hf
    have hp := hf.proper hΓ hw.of_element
    obtain ⟨_, h₂, hA₂⟩ := ItemsTyped.quiet node.line hs hΓ hp hv hA₁.scopes rest hr
    refine ⟨_, checkExpr_array_iff.mpr ?_, (hA₁.trans hA₂).file node _⟩
    exact ⟨_, _, _, h₁, by simp [Ty.isVoid_eq_false hv], h₂, rfl, rfl⟩
  | .hash node [], .emptyHash hty => by
    subst hty
    unfold checkExpr
    exact ⟨_, .file node _ _, (Analysed.refl ha).file node _⟩
  | .hash node ((firstKey, firstValue) :: rest), .hash hk hval hkey hv hr => by
    obtain ⟨_, h₁, hA₁⟩ := ExprTyped.quiet hs hΓ hw.of_key ha firstKey hk
    obtain ⟨_, h₂, hA₂⟩ := ExprTyped.quiet hs hΓ hw.of_value hA₁.scopes firstValue hval
    have hp := hval.proper hΓ hw.of_value
    obtain ⟨_, h₃, hA₃⟩ := EntriesTyped.quiet node.line hs hΓ hkey hp hv hA₂.scopes rest hr
    refine ⟨_, checkExpr_hash_iff.mpr ?_, ((hA₁.trans hA₂).trans hA₃).file node _⟩
    exact ⟨_, _, _, _, _, h₁, h₂, by simpa [← isHashKey_iff] using hkey,
      by simp [Ty.isVoid_eq_false hv], h₃, rfl, rfl⟩
  | .fn node params written (.mk body span), .fn hr hp hb he => by
    have ha₀ : a.scopes.enter.Agrees (Γ.literal []) := ha.enter rfl rfl
    obtain ⟨_, h₁, hA₁⟩ := declareParams_complete (a := { a with scopes := a.scopes.enter }) ha₀
      hp.distinct (fun _ _ => rfl)
    rw [List.append_nil] at hA₁
    have hs' : Stands (some ⟨written.toTy, some a.scopes.enter.level⟩)
        (Γ.literal (paramScope params)) (some written.toTy) := by
      refine ⟨rfl, ?_, nofun⟩
      rintro _ ⟨⟩
      exact ha₀.level
    have hΓ' := hΓ.literal (paramScope_proper hp)
    obtain ⟨_, h₂, hA₂⟩ := StmtsTyped.quiet hs' hΓ' (.some hr) hA₁.scopes body hb
    have ho := (Context.Opened.literal Γ (paramScope params)).grown (hb.grown body)
    obtain ⟨_, h₃, hA⟩ := (Analysed.refl ha).exists_scoped (hA₁.trans hA₂) ho
    rw [List.nil_append, List.nil_append] at hA
    have hall : ∀ p ∈ params, p.written.toTy.Proper ∧ p.written.toTy ≠ .void :=
      fun p h => ⟨hp.proper p h, hp.value p h⟩
    have he' : ¬ (!written.toTy.isVoid && !(Block.mk body span).alwaysReturns) = true := by
      rcases he with he | he <;> simp [he, Ty.isVoid, Block.alwaysReturns]
    unfold checkExpr
    refine ⟨_, ?_, hA.file node _⟩
    refine .bind (quiet_resolve.mpr ⟨rfl, hr, rfl⟩) ?_
    refine .bind (quiet_resolveParams.mpr ⟨rfl, hall, rfl⟩) ?_
    refine .bind (.enter a) (Quiet.get_bind.mpr ?_)
    exact h₁.bind (h₂.bind (h₃.bind (Quiet.report_if_then.mpr ⟨he', .file node _ _⟩)))
  | .index node target key, .indexArray ht hk => by
    obtain ⟨_, h₁, hA₁⟩ := ExprTyped.quiet hs hΓ .none ha target ht
    obtain ⟨_, h₂, hA₂⟩ := ExprTyped.quiet hs hΓ (.some .int) hA₁.scopes key hk
    unfold checkExpr
    refine ⟨_, h₁.bind (h₂.bind ?_), (hA₁.trans hA₂).file node _⟩
    exact Quiet.report_if_then.mpr ⟨by simp, .file node _ _⟩
  | .index node target key, .indexHash ht hk => by
    have hp := (Ty.Proper.of_key (ht.proper hΓ .none).entry.1).1
    obtain ⟨_, h₁, hA₁⟩ := ExprTyped.quiet hs hΓ .none ha target ht
    obtain ⟨_, h₂, hA₂⟩ := ExprTyped.quiet hs hΓ (.some hp) hA₁.scopes key hk
    unfold checkExpr
    refine ⟨_, h₁.bind (h₂.bind ?_), (hA₁.trans hA₂).file node _⟩
    exact Quiet.report_if_then.mpr ⟨by simp, .file node _ _⟩
  | .call node (.name inner name) args, @ExprTyped.callBuiltin _ _ _ _ _ b _ _ _ _ found hargs hb =>
    by
    obtain ⟨_, h₁, hA₁⟩ := @checkExpr_name_quiet Γ within returns a none _ inner name hs ha found
    obtain ⟨_, h₂, hA₂⟩ := BuiltinArgsTyped.quiet hs hΓ .none hA₁.scopes args hargs
    unfold checkExpr
    refine ⟨_, Quiet.get_bind.mpr ?_, (hA₁.trans hA₂).file node _⟩
    rw [(builtinCallee?_eq_some_iff hΓ ha).mpr ⟨inner, name, rfl, found⟩]
    refine h₁.discard.bind (h₂.bind ?_)
    rw [Builtin.checkCall_eq_ok_iff.mpr hb]
    exact .file node _ _
  | .call node callee args, .call hn hc hargs => by
    have hparams := fun p h => ((hc.proper hΓ .none).param p h).1
    obtain ⟨_, h₁, hA₁⟩ := ExprTyped.quiet hs hΓ .none ha callee hc
    obtain ⟨_, h₂, hA₂⟩ := ArgsTyped.quiet hs hΓ hparams hA₁.scopes args hargs
    have hb : builtinCallee? a.scopes callee = none := by
      rw [Option.eq_none_iff_forall_not_mem]
      intro b hb
      obtain ⟨inner, name, rfl, he⟩ := (builtinCallee?_eq_some_iff hΓ ha).mp hb
      exact hn inner name b rfl he
    unfold checkExpr
    refine ⟨_, Quiet.get_bind.mpr ?_, (hA₁.trans hA₂).file node _⟩
    rw [hb]
    refine h₁.bind (h₂.bind ?_)
    rw [callProblems_eq_nil_iff.mpr rfl]
    exact .bind (.pure _ _) (.file node _ _)
termination_by structural e => e

/-- Well typed items are analysed quietly. -/
theorem ItemsTyped.quiet {Γ : Context} {within : Option Enclosing} {returns : Option Ty}
    {a : Analysis} {element : Ty} {rows : Rows} (line : Nat) (hs : Stands within Γ returns)
    (hΓ : Γ.Sane) (hp : element.Proper) (hv : element ≠ .void) (ha : a.scopes.Agrees Γ) :
    (items : List Expr) → ItemsTyped Γ element items rows →
    ∃ b, Quiet (checkItems within line element items) a ⟨⟩ b ∧ Analysed Γ rows a b
  | [], .nil => by
    unfold checkItems
    exact ⟨a, .pure _ _, .refl ha⟩
  | item :: rest, .cons hi hr => by
    obtain ⟨_, h₁, hA₁⟩ := ExprTyped.quiet hs hΓ (.some hp) ha item hi
    obtain ⟨_, h₂, hA₂⟩ := ItemsTyped.quiet line hs hΓ hp hv hA₁.scopes rest hr
    unfold checkItems
    refine ⟨_, h₁.bind ?_, hA₁.trans hA₂⟩
    exact Quiet.report_if_then.mpr ⟨by simp, h₂⟩

/-- Well typed entries are analysed quietly. -/
theorem EntriesTyped.quiet {Γ : Context} {within : Option Enclosing} {returns : Option Ty}
    {a : Analysis} {key value : Ty} {rows : Rows} (line : Nat) (hs : Stands within Γ returns)
    (hΓ : Γ.Sane) (hk : key = .int ∨ key = .string) (hp : value.Proper) (hv : value ≠ .void)
    (ha : a.scopes.Agrees Γ) : (entries : List (Expr × Expr)) →
    EntriesTyped Γ key value entries rows →
    ∃ b, Quiet (checkEntries within line key value entries) a ⟨⟩ b ∧ Analysed Γ rows a b
  | [], .nil => by
    unfold checkEntries
    exact ⟨a, .pure _ _, .refl ha⟩
  | (k, v) :: rest, .cons hke hve hr => by
    have hkp := (Ty.Proper.of_key hk).1
    obtain ⟨_, h₁, hA₁⟩ := ExprTyped.quiet hs hΓ (.some hkp) ha k hke
    obtain ⟨_, h₂, hA₂⟩ := ExprTyped.quiet hs hΓ (.some hp) hA₁.scopes v hve
    obtain ⟨_, h₃, hA₃⟩ := EntriesTyped.quiet line hs hΓ hk hp hv hA₂.scopes rest hr
    unfold checkEntries
    refine ⟨_, h₁.bind (h₂.bind ?_), (hA₁.trans hA₂).trans hA₃⟩
    refine Quiet.report_if_then.mpr ⟨by simp, ?_⟩
    exact Quiet.report_if_then.mpr ⟨by simp, h₃⟩
termination_by structural entries => entries

/-- Well typed arguments are analysed quietly. -/
theorem ArgsTyped.quiet {Γ : Context} {within : Option Enclosing} {returns : Option Ty}
    {a : Analysis} {params : List Ty} {rows : Rows} (hs : Stands within Γ returns)
    (hΓ : Γ.Sane) (hp : ∀ p ∈ params, p.Proper) (ha : a.scopes.Agrees Γ) :
    (args : List Expr) → ArgsTyped Γ params args rows →
    ∃ b, Quiet (checkArgs within params args) a params b ∧ Analysed Γ rows a b
  | [], .nil => by
    unfold checkArgs
    exact ⟨a, .pure _ _, .refl ha⟩
  | arg :: rest, .cons harg hr => by
    obtain ⟨hty, hp⟩ := List.forall_mem_cons.mp hp
    obtain ⟨_, h₁, hA₁⟩ := ExprTyped.quiet hs hΓ (.some hty) ha arg harg
    obtain ⟨_, h₂, hA₂⟩ := ArgsTyped.quiet hs hΓ hp hA₁.scopes rest hr
    unfold checkArgs
    exact ⟨_, h₁.bind (h₂.bind (.pure _ _)), hA₁.trans hA₂⟩

/-- Well typed arguments of a built-in are analysed quietly. -/
theorem BuiltinArgsTyped.quiet {Γ : Context} {within : Option Enclosing} {returns : Option Ty}
    {a : Analysis} {builtin : Builtin} {first : Option Ty} {types : List Ty} {rows : Rows}
    (hs : Stands within Γ returns) (hΓ : Γ.Sane) (hw : Wanted first) (ha : a.scopes.Agrees Γ) :
    (args : List Expr) → BuiltinArgsTyped Γ builtin first args types rows →
    ∃ b, Quiet (checkBuiltinArgs within builtin first args) a types b ∧ Analysed Γ rows a b
  | [], .nil => by
    unfold checkBuiltinArgs
    exact ⟨a, .pure _ _, .refl ha⟩
  | arg :: rest, .cons harg hr => by
    have hw₁ := hw.expectedNext builtin
    have hw₂ := hw.orElse (harg.proper hΓ hw₁)
    obtain ⟨_, h₁, hA₁⟩ := ExprTyped.quiet hs hΓ hw₁ ha arg harg
    obtain ⟨_, h₂, hA₂⟩ := BuiltinArgsTyped.quiet hs hΓ hw₂ hA₁.scopes rest hr
    unfold checkBuiltinArgs
    exact ⟨_, h₁.bind (h₂.bind (.pure _ _)), hA₁.trans hA₂⟩

/-- **A well typed statement is analysed quietly.** -/
theorem StmtTyped.quiet {Γ Γ' : Context} {within : Option Enclosing} {returns : Option Ty}
    {a : Analysis} {rows : Rows} (hs : Stands within Γ returns) (hΓ : Γ.Sane)
    (hr : Wanted returns) (ha : a.scopes.Agrees Γ) : (s : Stmt) →
    StmtTyped Γ returns s Γ' rows →
    ∃ b, Quiet (checkStmt within s) a ⟨⟩ b ∧ Analysed Γ' rows a b
  | .declare span constant name written value, .declare hw hv he hd => by
    obtain ⟨b, h₁, hA⟩ := ExprTyped.quiet hs hΓ (.some hw) ha value he
    obtain ⟨t, ht, hA'⟩ := hA.scopes.declare hΓ.outermost hd constant
    unfold checkStmt
    refine ⟨{ b with scopes := t }, ?_, hA', hA.types⟩
    refine .bind (quiet_resolve.mpr ⟨rfl, hw, rfl⟩) (h₁.bind ?_)
    refine Quiet.report_if_else_then.mpr ⟨by simpa using hv, by simp, ?_⟩
    exact .bind (Quiet.declare ht) (.unless (by simp) _)
  | .returns span none, .returnsNothing => by
    unfold checkStmt
    cases within with
    | none => cases hs.returns
    | some f =>
      have hv : f.returns = .void := Option.some.inj hs.returns
      exact ⟨a, .unless (by simp [hv, Ty.isVoid]) a, .refl ha⟩
  | .returns span (some value), @StmtTyped.returns _ ty _ _ _ he => by
    obtain ⟨b, h, hA⟩ := ExprTyped.quiet hs hΓ hr ha value he
    unfold checkStmt
    cases within with
    | none => cases hs.returns
    | some f =>
      obtain rfl : f.returns = ty := Option.some.inj hs.returns
      exact ⟨b, h.bind (.unless (by simp) b), hA⟩
  | .expr value, .expr he => by
    obtain ⟨b, h, hA⟩ := ExprTyped.quiet hs hΓ .none ha value he
    unfold checkStmt
    exact ⟨b, h.discard, hA⟩
  | .branch span condition (.mk yes spanYes) none, .branch hc hy => by
    obtain ⟨b, h₁, hA₀⟩ := ExprTyped.quiet hs hΓ (.some .bool) ha condition hc
    have ha₀ := hA₀.scopes.enter_branch
    obtain ⟨_, h₂, hA₁⟩ := StmtsTyped.quiet (a := { b with scopes := b.scopes.enter })
      hs.branch hΓ.branch hr ha₀ yes hy
    obtain ⟨_, h₃, hA₂⟩ := hA₀.exists_scoped hA₁ ((Context.Opened.branch Γ).grown (hy.grown yes))
    unfold checkStmt
    refine ⟨_, h₁.bind ?_, hA₂⟩
    exact Quiet.report_if_then.mpr ⟨by simp, .bind (.enter _) (h₂.bind h₃)⟩
  | .branch span condition (.mk yes spanYes) (some (.mk no spanNo)), .branchElse hc hy hn => by
    obtain ⟨b, h₁, hA₀⟩ := ExprTyped.quiet hs hΓ (.some .bool) ha condition hc
    have ha₀ := hA₀.scopes.enter_branch
    obtain ⟨_, h₂, hA₁⟩ := StmtsTyped.quiet (a := { b with scopes := b.scopes.enter })
      hs.branch hΓ.branch hr ha₀ yes hy
    obtain ⟨c, h₃, hA₂⟩ := hA₀.exists_scoped hA₁ ((Context.Opened.branch Γ).grown (hy.grown yes))
    have ha₂ := hA₂.scopes.enter_branch
    obtain ⟨_, h₄, hA₃⟩ := StmtsTyped.quiet (a := { c with scopes := c.scopes.enter })
      hs.branch hΓ.branch hr ha₂ no hn
    obtain ⟨_, h₅, hA₄⟩ := hA₂.exists_scoped hA₃ ((Context.Opened.branch Γ).grown (hn.grown no))
    unfold checkStmt
    refine ⟨_, h₁.bind ?_, hA₄⟩
    refine Quiet.report_if_then.mpr ⟨by simp, .bind (.enter _) (h₂.bind (h₃.bind ?_))⟩
    exact .bind (.enter _) (h₄.bind h₅)
  | .print span value, .print he hv => by
    obtain ⟨b, h, hA⟩ := ExprTyped.quiet hs hΓ .none ha value he
    unfold checkStmt
    exact ⟨b, h.bind (.unless (by simpa using hv) b), hA⟩
  | .block (.mk body span), .block hb => by
    unfold checkStmt checkBlock
    exact StmtsTyped.quiet hs hΓ hr ha body hb
termination_by structural s => s

/-- **Well typed statements are analysed quietly.** -/
theorem StmtsTyped.quiet {Γ Γ' : Context} {within : Option Enclosing} {returns : Option Ty}
    {a : Analysis} {rows : Rows} (hs : Stands within Γ returns) (hΓ : Γ.Sane)
    (hr : Wanted returns) (ha : a.scopes.Agrees Γ) : (body : List Stmt) →
    StmtsTyped Γ returns body Γ' rows →
    ∃ b, Quiet (checkStmts within body) a ⟨⟩ b ∧ Analysed Γ' rows a b
  | [], .nil => by
    unfold checkStmts
    exact ⟨a, .pure _ _, .refl ha⟩
  | s :: rest, .cons hst hrest => by
    obtain ⟨_, h₁, hA₁⟩ := StmtTyped.quiet hs hΓ hr ha s hst
    have hs₁ := hs.grown (hst.grown s)
    have hΓ₁ := StmtTyped.sane hΓ s hst
    obtain ⟨_, h₂, hA₂⟩ := StmtsTyped.quiet hs₁ hΓ₁ hr hA₁.scopes rest hrest
    unfold checkStmts
    exact ⟨_, h₁.bind h₂, hA₁.trans hA₂⟩
termination_by structural body => body
end

end Stackling
