import Stackling.Proofs.Typing.Analysed

/-
  File:     Stackling/Proofs/Typing/Inversion.lean
  Subject:  The analysis, taken apart where it reports nothing.

  An analysis of a construct that reports nothing is made of such analyses of its parts, in order,
  and what is reported under a condition says that the condition fails. There is one lemma for
  each construct; what is proved of all that is analysed quietly goes by these lemmas.

  * `checkExpr_binary_iff`, `checkExpr_call_inv`, …      -- expressions;
  * `checkItems_cons_inv`, `checkArgs_cons_inv`, …       -- lists of expressions;
  * `checkStmt_declare_inv`, `checkStmt_branch_inv`, …   -- statements.
-/
namespace Stackling

open Check

variable {within : Option Enclosing} {a b : Analysis} {wanted : Option Ty} {ty : Ty} {node : Node}

/-! ## 1. Expressions -/

/-- Two types that are not reported as unlike are the same. -/
theorem eq_of_not_unlike {expected found : Ty} (h : ¬ (!expected.compatible found) = true) :
    found = expected := by
  simp only [Bool.not_eq_true', Bool.not_eq_false, Ty.compatible_iff] at h
  exact h.symm

/-- A name is looked up and filed. -/
theorem checkExpr_name_inv {name : String}
    (h : Quiet (checkExpr within wanted (.name node name)) a ty b) :
    ∃ a₁, Quiet (checkName within node.line name) a ty a₁ ∧
      b = { a₁ with types := a₁.types.file node.id ty } := by
  unfold checkExpr at h
  obtain ⟨_, a₁, h₁, h⟩ := h.bind_inv
  obtain ⟨rfl, rfl⟩ := h.file_inv
  exact ⟨a₁, h₁, rfl⟩

/-- The operands of an operator fit it. -/
theorem checkExpr_binary_iff {op : BinaryOp} {left right : Expr} :
    Quiet (checkExpr within wanted (.binary node op left right)) a ty b ↔
      ∃ l r a₁ a₂, Quiet (checkExpr within none left) a l a₁ ∧
        Quiet (checkExpr within none right) a₁ r a₂ ∧ op.check wanted l r = (ty, none) ∧
        b = { a₂ with types := a₂.types.file node.id ty } := by
  constructor
  · intro h
    unfold checkExpr at h
    obtain ⟨l, a₁, h₁, h⟩ := h.bind_inv
    obtain ⟨r, a₂, h₂, h⟩ := h.bind_inv
    cases hop : op.check wanted l r with
    | mk found problem =>
      rw [hop] at h
      obtain ⟨_, _, hp, h⟩ := h.bind_inv
      obtain ⟨rfl, rfl⟩ := hp.reportAny_inv
      obtain ⟨rfl, rfl⟩ := h.file_inv
      exact ⟨l, r, a₁, _, h₁, h₂, hop, rfl⟩
  · rintro ⟨l, r, a₁, a₂, h₁, h₂, hop, rfl⟩
    unfold checkExpr
    refine h₁.bind (h₂.bind ?_)
    rw [hop]
    exact .bind (.pure _ _) (.file node _ _)

/-- The first item of an array gives the type of the elements. -/
theorem checkExpr_array_iff {first : Expr} {rest : List Expr} :
    Quiet (checkExpr within wanted (.array node (first :: rest))) a ty b ↔
      ∃ element a₁ a₂, Quiet (checkExpr within (expectedElement wanted) first) a element a₁ ∧
        ¬ (element.isVoid && expectedElement wanted != some .void) = true ∧
        Quiet (checkItems within node.line element rest) a₁ () a₂ ∧ ty = .array element ∧
        b = { a₂ with types := a₂.types.file node.id ty } := by
  constructor
  · intro h
    unfold checkExpr at h
    obtain ⟨element, a₁, h₁, h⟩ := h.bind_inv
    obtain ⟨hvoid, h⟩ := Quiet.report_if_then.mp h
    obtain ⟨_, a₂, h₂, h⟩ := h.bind_inv
    obtain ⟨rfl, rfl⟩ := h.file_inv
    exact ⟨element, a₁, a₂, h₁, hvoid, h₂, rfl, rfl⟩
  · rintro ⟨element, a₁, a₂, h₁, hvoid, h₂, rfl, rfl⟩
    unfold checkExpr
    exact h₁.bind (Quiet.report_if_then.mpr ⟨hvoid, h₂.bind (.file node _ _)⟩)

/-- The first entry of a hash gives the types of the keys and of the values. -/
theorem checkExpr_hash_iff {firstKey firstValue : Expr} {rest : List (Expr × Expr)} :
    Quiet (checkExpr within wanted (.hash node ((firstKey, firstValue) :: rest))) a ty b ↔
      ∃ key value a₁ a₂ a₃, Quiet (checkExpr within (expectedKey wanted) firstKey) a key a₁ ∧
        Quiet (checkExpr within (expectedValue wanted) firstValue) a₁ value a₂ ∧
        ¬ (!key.isHashKey) = true ∧
        ¬ (value.isVoid && expectedValue wanted != some .void) = true ∧
        Quiet (checkEntries within node.line key value rest) a₂ () a₃ ∧ ty = .hash key value ∧
        b = { a₃ with types := a₃.types.file node.id ty } := by
  constructor
  · intro h
    unfold checkExpr at h
    obtain ⟨key, a₁, h₁, h⟩ := h.bind_inv
    obtain ⟨value, a₂, h₂, h⟩ := h.bind_inv
    obtain ⟨hkey, h⟩ := Quiet.report_if_then.mp h
    obtain ⟨hvoid, h⟩ := Quiet.report_if_then.mp h
    obtain ⟨_, a₃, h₃, h⟩ := h.bind_inv
    obtain ⟨rfl, rfl⟩ := h.file_inv
    exact ⟨key, value, a₁, a₂, a₃, h₁, h₂, hkey, hvoid, h₃, rfl, rfl⟩
  · rintro ⟨key, value, a₁, a₂, a₃, h₁, h₂, hkey, hvoid, h₃, rfl, rfl⟩
    unfold checkExpr
    refine h₁.bind (h₂.bind (Quiet.report_if_then.mpr ⟨hkey, ?_⟩))
    exact Quiet.report_if_then.mpr ⟨hvoid, h₃.bind (.file node _ _)⟩

set_option synthInstance.maxSize 512 in
/-- The body of a literal is analysed in a scope with the parameters. -/
theorem checkExpr_fn_inv {params : List Param} {written : TypeExpr} {body : List Stmt}
    {span : Span} (h : Quiet (checkExpr within wanted (.fn node params written (.mk body span)))
      a ty b) :
    ∃ a₁ a₂ a₃, written.toTy.Proper ∧
      (∀ p ∈ params, p.written.toTy.Proper ∧ p.written.toTy ≠ .void) ∧
      Quiet (declareParams params (paramTypes params)) { a with scopes := a.scopes.enter } () a₁ ∧
      Quiet (checkStmts (some ⟨written.toTy, some a.scopes.enter.level⟩) body) a₁ () a₂ ∧
      Quiet leave a₂ () a₃ ∧ (written.toTy = .void ∨ anyAlwaysReturns body = true) ∧
      ty = .fn (paramTypes params) written.toTy ∧
      b = { a₃ with types := a₃.types.file node.id ty } := by
  unfold checkExpr at h
  dsimp only at h
  obtain ⟨_, _, hreturns, h⟩ := h.bind_inv
  obtain ⟨_, a₀, htypes, h⟩ := h.bind_inv
  obtain ⟨_, _, henter, h⟩ := h.bind_inv
  rw [Quiet.get_bind] at h
  obtain ⟨_, a₁, hparams, h⟩ := h.bind_inv
  obtain ⟨_, a₂, hbody, h⟩ := h.bind_inv
  obtain ⟨_, a₃, hleave, h⟩ := h.bind_inv
  obtain ⟨hends, hfile⟩ := Quiet.report_if_then.mp h
  obtain ⟨rfl, hproper, rfl⟩ := quiet_resolve.mp hreturns
  obtain ⟨rfl, hpropers, rfl⟩ := quiet_resolveParams.mp htypes
  obtain rfl := henter.enter_inv
  obtain ⟨rfl, rfl⟩ := hfile.file_inv
  unfold checkBlock at hbody
  refine ⟨a₁, a₂, a₃, hproper, hpropers, hparams, hbody, hleave, ?_, rfl, rfl⟩
  by_cases hvoid : written.toTy = .void
  · exact .inl hvoid
  · have hvoid := Ty.isVoid_eq_false hvoid
    exact .inr (by simpa [hvoid, Block.alwaysReturns] using hends)

/-- What is indexed quietly is an array or a hash, and the key is of its type. -/
theorem checkExpr_index_inv {target key : Expr}
    (h : Quiet (checkExpr within wanted (.index node target key)) a ty b) :
    ∃ t a₁ k a₂, Quiet (checkExpr within none target) a t a₁ ∧
      (t = .array ty ∧ k = .int ∨ t = .hash k ty) ∧
      Quiet (checkExpr within (some k) key) a₁ k a₂ ∧
      b = { a₂ with types := a₂.types.file node.id ty } := by
  unfold checkExpr at h
  obtain ⟨t, a₁, h⟩ := h.bind_cases
  cases t with
  | array element =>
    obtain ⟨h₁, h⟩ := h inferInstance
    obtain ⟨found, a₂, h₂, h⟩ := h.bind_inv
    obtain ⟨hf, h⟩ := Quiet.report_if_then.mp h
    obtain ⟨rfl, rfl⟩ := h.file_inv
    obtain rfl : found = .int := by simpa using hf
    exact ⟨_, a₁, _, a₂, h₁, .inl ⟨rfl, rfl⟩, h₂, rfl⟩
  | hash keyTy value =>
    obtain ⟨h₁, h⟩ := h inferInstance
    obtain ⟨found, a₂, h₂, h⟩ := h.bind_inv
    obtain ⟨hf, h⟩ := Quiet.report_if_then.mp h
    obtain ⟨rfl, rfl⟩ := h.file_inv
    obtain rfl := eq_of_not_unlike hf
    exact ⟨_, a₁, _, a₂, h₁, .inr rfl, h₂, rfl⟩
  | int | string | bool | char | void | fn =>
    obtain ⟨-, h⟩ := h inferInstance
    obtain ⟨_, _, -, h⟩ := h.bind_inv
    obtain ⟨_, _, h, -⟩ := h.bind_inv
    exact absurd h Quiet.not_report

/-- What is called quietly is a built-in that the callee names, or the value of the callee. -/
theorem checkExpr_call_inv {callee : Expr} {args : List Expr}
    (h : Quiet (checkExpr within wanted (.call node callee args)) a ty b) :
    ∃ calleeTy a₁ a₂, Quiet (checkExpr within none callee) a calleeTy a₁ ∧
      b = { a₂ with types := a₂.types.file node.id ty } ∧
      ((∃ builtin types, builtinCallee? a.scopes callee = some builtin ∧
          Quiet (checkBuiltinArgs within builtin none args) a₁ types a₂ ∧
          builtin.checkCall types = .ok ty) ∨
        (builtinCallee? a.scopes callee = none ∧ ∃ params, calleeTy = .fn params ty ∧
          Quiet (checkArgs within params args) a₁ params a₂)) := by
  unfold checkExpr at h
  rw [Quiet.get_bind] at h
  cases hb : builtinCallee? a.scopes callee with
  | some builtin =>
    rw [hb] at h
    obtain ⟨_, a₁, h⟩ := h.bind_cases
    obtain ⟨h₁, h⟩ := h (@Grows.bind _ _ _ _ inferInstance
      fun types => by cases builtin.checkCall types <;> infer_instance)
    obtain ⟨types, a₂, h⟩ := h.bind_cases
    obtain ⟨h₂, h⟩ := h (by cases builtin.checkCall types <;> infer_instance)
    obtain ⟨calleeTy, h₁⟩ := h₁.discard_inv
    cases hcall : builtin.checkCall types with
    | ok result =>
      rw [hcall] at h
      obtain ⟨rfl, rfl⟩ := h.file_inv
      exact ⟨calleeTy, a₁, a₂, h₁, rfl, .inl ⟨builtin, types, rfl, h₂, hcall⟩⟩
    | error problem =>
      rw [hcall] at h
      obtain ⟨_, _, h, -⟩ := h.bind_inv
      exact absurd h Quiet.not_report
  | none =>
    rw [hb] at h
    obtain ⟨calleeTy, a₁, h⟩ := h.bind_cases
    cases calleeTy with
    | fn params result =>
      obtain ⟨h₁, h⟩ := h inferInstance
      obtain ⟨types, a₂, h₂, h⟩ := h.bind_inv
      obtain ⟨_, _, h₃, h⟩ := h.bind_inv
      obtain ⟨rfl, rfl⟩ := h.file_inv
      obtain ⟨hp, rfl⟩ := h₃.reportAll_inv
      obtain rfl := callProblems_eq_nil_iff.mp hp
      exact ⟨_, a₁, _, h₁, rfl, .inr ⟨rfl, _, rfl, h₂⟩⟩
    | int | string | bool | char | void | array | hash =>
      obtain ⟨-, h⟩ := h inferInstance
      obtain ⟨_, _, -, h⟩ := h.bind_inv
      obtain ⟨_, _, h, -⟩ := h.bind_inv
      exact absurd h Quiet.not_report

/-! ## 2. Lists of expressions -/

/-- An item is of the type of the elements, unless that is `void`. -/
theorem checkItems_cons_inv {line : Nat} {element : Ty} {item : Expr} {rest : List Expr} {u : Unit}
    (h : Quiet (checkItems within line element (item :: rest)) a u b) :
    ∃ found a₁, Quiet (checkExpr within (some element) item) a found a₁ ∧
      ¬ (!element.isVoid && !element.compatible found) = true ∧
      Quiet (checkItems within line element rest) a₁ u b := by
  unfold checkItems at h
  obtain ⟨found, a₁, h₁, h⟩ := h.bind_inv
  obtain ⟨hlike, h₂⟩ := Quiet.report_if_then.mp h
  exact ⟨found, a₁, h₁, hlike, h₂⟩

/-- An entry is of the types of the keys and of the values. -/
theorem checkEntries_cons_inv {line : Nat} {key value : Ty} {k v : Expr}
    {rest : List (Expr × Expr)} {u : Unit}
    (h : Quiet (checkEntries within line key value ((k, v) :: rest)) a u b) :
    ∃ found a₁ a₂, Quiet (checkExpr within (some key) k) a key a₁ ∧
      Quiet (checkExpr within (some value) v) a₁ found a₂ ∧
      ¬ (!value.isVoid && !value.compatible found) = true ∧
      Quiet (checkEntries within line key value rest) a₂ u b := by
  unfold checkEntries at h
  obtain ⟨foundKey, a₁, h₁, h⟩ := h.bind_inv
  obtain ⟨found, a₂, h₂, h⟩ := h.bind_inv
  obtain ⟨hkey, h⟩ := Quiet.report_if_then.mp h
  obtain ⟨hlike, h₃⟩ := Quiet.report_if_then.mp h
  obtain rfl := eq_of_not_unlike hkey
  exact ⟨found, a₁, a₂, h₁, h₂, hlike, h₃⟩

theorem checkArgs_cons_inv {params types : List Ty} {arg : Expr} {rest : List Expr}
    (h : Quiet (checkArgs within params (arg :: rest)) a types b) :
    ∃ found found' a₁, Quiet (checkExpr within params.head? arg) a found a₁ ∧
      Quiet (checkArgs within params.tail rest) a₁ found' b ∧ types = found :: found' := by
  unfold checkArgs at h
  obtain ⟨found, a₁, h₁, h⟩ := h.bind_inv
  obtain ⟨found', _, h₂, h⟩ := h.bind_inv
  obtain ⟨rfl, rfl⟩ := h.pure_inv
  exact ⟨found, found', a₁, h₁, h₂, rfl⟩

theorem checkBuiltinArgs_cons_inv {builtin : Builtin} {first : Option Ty} {types : List Ty}
    {arg : Expr} {rest : List Expr}
    (h : Quiet (checkBuiltinArgs within builtin first (arg :: rest)) a types b) :
    ∃ found found' a₁, Quiet (checkExpr within (builtin.expectedNext first) arg) a found a₁ ∧
      Quiet (checkBuiltinArgs within builtin (first <|> some found) rest) a₁ found' b ∧
      types = found :: found' := by
  unfold checkBuiltinArgs at h
  obtain ⟨found, a₁, h₁, h⟩ := h.bind_inv
  obtain ⟨found', _, h₂, h⟩ := h.bind_inv
  obtain ⟨rfl, rfl⟩ := h.pure_inv
  exact ⟨found, found', a₁, h₁, h₂, rfl⟩

/-! ## 3. Statements -/

variable {u : Unit} {span : Span}

/-- The value of a declaration is of the declared type, and the name is new. -/
theorem checkStmt_declare_inv {constant : Bool} {name : String} {written : TypeExpr}
    {value : Expr}
    (h : Quiet (checkStmt within (.declare span constant name written value)) a u b) :
    ∃ a₁, written.toTy.Proper ∧ written.toTy ≠ .void ∧
      Quiet (checkExpr within (some written.toTy) value) a written.toTy a₁ ∧
      Quiet (declare name written.toTy constant false) a₁ true b := by
  unfold checkStmt at h
  obtain ⟨_, _, hresolve, h⟩ := h.bind_inv
  obtain ⟨found, a₁, hvalue, h⟩ := h.bind_inv
  obtain ⟨hvoid, hlike, h⟩ := Quiet.report_if_else_then.mp h
  obtain ⟨ok, _, hdeclare, hnew⟩ := h.bind_inv
  obtain ⟨rfl, hproper, rfl⟩ := quiet_resolve.mp hresolve
  obtain rfl := eq_of_not_unlike hlike
  obtain ⟨hok, rfl⟩ := Quiet.report_if.mp hnew
  obtain rfl : ok = true := by simpa using hok
  exact ⟨a₁, hproper, by simpa using hvoid, hvalue, hdeclare⟩

/-- A return without a value leaves a callable that has no result. -/
theorem checkStmt_returnsNothing_inv (h : Quiet (checkStmt within (.returns span none)) a u b) :
    ∃ f, within = some f ∧ f.returns = .void ∧ b = a := by
  unfold checkStmt at h
  cases within with
  | none => exact absurd h Quiet.not_report
  | some f =>
    obtain ⟨hvoid, rfl⟩ := Quiet.report_if.mp h
    exact ⟨f, rfl, by simpa using hvoid, rfl⟩

/-- A value that is returned is of the type of the result. -/
theorem checkStmt_returns_inv {value : Expr}
    (h : Quiet (checkStmt within (.returns span (some value))) a u b) :
    ∃ f, within = some f ∧ Quiet (checkExpr within (some f.returns) value) a f.returns b := by
  unfold checkStmt at h
  cases within with
  | none => exact absurd h Quiet.not_report
  | some f =>
    obtain ⟨found, _, hvalue, h⟩ := h.bind_inv
    obtain ⟨hlike, rfl⟩ := Quiet.report_if.mp h
    obtain rfl := eq_of_not_unlike hlike
    exact ⟨f, rfl, hvalue⟩

/-- A branch tests a truth value, and its arm has a scope. -/
theorem checkStmt_branch_inv {condition : Expr} {yes : List Stmt} {spanYes : Span}
    (h : Quiet (checkStmt within (.branch span condition (.mk yes spanYes) none)) a u b) :
    ∃ a₁ a₂ a₃, Quiet (checkExpr within (some .bool) condition) a .bool a₁ ∧
      Quiet enter a₁ () a₂ ∧ Quiet (checkStmts within yes) a₂ () a₃ ∧ Quiet leave a₃ () b := by
  unfold checkStmt at h
  obtain ⟨found, a₁, hcondition, h⟩ := h.bind_inv
  obtain ⟨hbool, h⟩ := Quiet.report_if_then.mp h
  obtain ⟨_, a₂, henter, h⟩ := h.bind_inv
  obtain ⟨_, a₃, hyes, hleave⟩ := h.bind_inv
  obtain rfl : found = .bool := by simpa using hbool
  unfold checkBlock at hyes
  exact ⟨a₁, a₂, a₃, hcondition, henter, hyes, hleave⟩

set_option synthInstance.maxSize 512 in
/-- The second arm has a scope of its own. -/
theorem checkStmt_branchElse_inv {condition : Expr} {yes no : List Stmt} {spanYes spanNo : Span}
    (h : Quiet (checkStmt within
      (.branch span condition (.mk yes spanYes) (some (.mk no spanNo)))) a u b) :
    ∃ a₁ a₂ a₃ a₄ a₅ a₆, Quiet (checkExpr within (some .bool) condition) a .bool a₁ ∧
      Quiet enter a₁ () a₂ ∧ Quiet (checkStmts within yes) a₂ () a₃ ∧ Quiet leave a₃ () a₄ ∧
      Quiet enter a₄ () a₅ ∧ Quiet (checkStmts within no) a₅ () a₆ ∧ Quiet leave a₆ () b := by
  unfold checkStmt at h
  obtain ⟨found, a₁, hcondition, h⟩ := h.bind_inv
  obtain ⟨hbool, h⟩ := Quiet.report_if_then.mp h
  obtain ⟨_, a₂, henter, h⟩ := h.bind_inv
  obtain ⟨_, a₃, hyes, h⟩ := h.bind_inv
  obtain ⟨_, a₄, hleave, h⟩ := h.bind_inv
  obtain ⟨_, a₅, henter', h⟩ := h.bind_inv
  obtain ⟨_, a₆, hno, hleave'⟩ := h.bind_inv
  obtain rfl : found = .bool := by simpa using hbool
  unfold checkBlock at hyes hno
  exact ⟨a₁, a₂, a₃, a₄, a₅, a₆, hcondition, henter, hyes, hleave, henter', hno, hleave'⟩

/-- A value that is printed is none of `void`. -/
theorem checkStmt_print_inv {value : Expr}
    (h : Quiet (checkStmt within (.print span value)) a u b) :
    ∃ ty, Quiet (checkExpr within none value) a ty b ∧ ty ≠ .void := by
  unfold checkStmt at h
  obtain ⟨ty, _, hvalue, h⟩ := h.bind_inv
  obtain ⟨hvoid, rfl⟩ := Quiet.report_if.mp h
  exact ⟨ty, hvalue, by simpa using hvoid⟩

end Stackling
