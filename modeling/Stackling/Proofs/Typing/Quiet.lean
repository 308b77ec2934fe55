import Stackling.Proofs.Steps

/-
  File:     Stackling/Proofs/Typing/Quiet.lean
  Subject:  Steps of the analysis that report nothing.

  Reports are only ever added (`Grows`), so a sequence of steps that ends with the reports it
  started with has reported nothing on the way.

  * `Grows` -- a step that keeps the reports made before, with an instance for every step of
    the analysis;
  * `Quiet` -- a step that succeeds and reports nothing;
  * `Quiet.bind_inv`, `Quiet.bind` -- a sequence is quiet if its parts are, and only then.
-/
namespace Stackling

open Check

variable {α β : Type}

/-! ## 1. Reports are only added -/

/-- A step that keeps the reports made before it. -/
class Grows (m : Check α) : Prop where
  suffix {a b : Analysis} {x : α} : m a = .ok (x, b) → a.reports <:+ b.reports

namespace Grows

instance (x : α) : Grows (pure x : Check α) where
  suffix h := by
    obtain ⟨-, rfl⟩ := pure_eq_ok.mp h
    exact List.suffix_rfl

instance bind (m : Check α) (f : α → Check β) [hm : Grows m] [hf : ∀ x, Grows (f x)] :
    Grows (m >>= f) where
  suffix h := by
    obtain ⟨x, b, h₁, h₂⟩ := bind_eq_ok.mp h
    exact (hm.suffix h₁).trans ((hf x).suffix h₂)

instance (m : Check α) [hm : Grows m] : Grows (discard m) where
  suffix h := by
    obtain ⟨x, h⟩ := discard_eq_ok.mp h
    exact hm.suffix h

instance (c : Prop) [Decidable c] (m n : Check α) [Grows m] [Grows n] :
    Grows (if c then m else n) := by
  split <;> assumption

instance : Grows (get : Check Analysis) where
  suffix h := by
    cases h
    exact List.suffix_rfl

instance (line : Nat) (problem : Problem) : Grows (report line problem) where
  suffix h := by
    cases h
    exact List.suffix_cons _ _

instance reportAll (line : Nat) (problems : List Problem) : Grows (reportAll line problems) := by
  induction problems with
  | nil =>
    unfold Check.reportAll
    infer_instance
  | cons p rest ih =>
    unfold Check.reportAll
    infer_instance

instance (line : Nat) (problem : Option Problem) : Grows (reportAny line problem) := by
  cases problem <;> (unfold reportAny; infer_instance)

instance (node : Node) (ty : Ty) : Grows (file node ty) where
  suffix h := by
    cases h
    exact List.suffix_rfl

instance : Grows enter where
  suffix h := by
    cases h
    exact List.suffix_rfl

instance : Grows leave where
  suffix {a b x} h := by
    unfold leave at h
    rw [bind_of_ok get_ok] at h
    obtain ⟨t, a', ht, h⟩ := bind_eq_ok.mp h
    obtain ⟨-, rfl⟩ := lift_eq_ok.mp ht
    cases h
    exact List.suffix_rfl

instance (name : String) (ty : Ty) (constant function : Bool) :
    Grows (declare name ty constant function) where
  suffix {a b x} h := by
    unfold declare at h
    rw [bind_of_ok get_ok] at h
    cases ht : a.scopes.declare? name ty constant function with
    | none =>
      rw [ht] at h
      cases h
      exact List.suffix_rfl
    | some t =>
      rw [ht] at h
      cases h
      exact List.suffix_rfl

end Grows

/-! ## 2. The steps of the analysis -/

instance (line : Nat) (written : TypeExpr) : Grows (resolve line written) := by
  unfold resolve
  infer_instance

instance (p : Param) : Grows (resolveParam p) := by
  unfold resolveParam
  infer_instance

instance resolveParams_grows (params : List Param) : Grows (resolveParams params) := by
  induction params with
  | nil =>
    unfold resolveParams
    infer_instance
  | cons p rest ih =>
    unfold resolveParams
    infer_instance

instance declareParams_grows (params : List Param) (types : List Ty) :
    Grows (declareParams params types) := by
  induction params generalizing types with
  | nil =>
    unfold declareParams
    infer_instance
  | cons p rest ih =>
    cases types with
    | nil =>
      unfold declareParams
      infer_instance
    | cons ty types =>
      have := ih types
      unfold declareParams
      infer_instance

instance checkName_grows (within : Option Enclosing) (line : Nat) (name : String) :
    Grows (checkName within line name) := by
  unfold checkName
  refine @Grows.bind _ _ _ _ inferInstance fun a => ?_
  cases a.scopes.lookup? name with
  | none => infer_instance
  | some symbol =>
    cases within.bind Enclosing.floor? with
    | none => infer_instance
    | some floor => infer_instance

mutual
theorem checkExpr_grows : (within : Option Enclosing) → (expected : Option Ty) → (e : Expr) →
    Grows (checkExpr within expected e)
  | _, _, .int .. | _, _, .text .. | _, _, .char .. | _, _, .bool .. | _, _, .name .. => by
    unfold checkExpr
    infer_instance
  | within, _, .binary _ _ left right => by
    have := checkExpr_grows within none left
    have := checkExpr_grows within none right
    unfold checkExpr
    infer_instance
  | _, _, .array _ [] => by
    unfold checkExpr
    infer_instance
  | within, expected, .array _ (first :: rest) => by
    have := checkExpr_grows within (expectedElement expected) first
    have := fun line ty => checkItems_grows within line ty rest
    unfold checkExpr
    infer_instance
  | _, _, .hash _ [] => by
    unfold checkExpr
    infer_instance
  | within, expected, .hash _ ((firstKey, firstValue) :: rest) => by
    have := checkExpr_grows within (expectedKey expected) firstKey
    have := checkExpr_grows within (expectedValue expected) firstValue
    have := fun line key value => checkEntries_grows within line key value rest
    unfold checkExpr
    infer_instance
  | _, _, .fn _ _ _ body => by
    have := fun within => checkBlock_grows within body
    unfold checkExpr
    dsimp only
    set_option synthInstance.maxSize 512 in infer_instance
  | within, _, .index _ target key => by
    have := checkExpr_grows within none target
    have := fun expected => checkExpr_grows within expected key
    unfold checkExpr
    refine @Grows.bind _ _ _ _ inferInstance fun ty => ?_
    cases ty <;> infer_instance
  | within, _, .call _ callee args => by
    have := checkExpr_grows within none callee
    have := fun b first => checkBuiltinArgs_grows within b first args
    have := fun params => checkArgs_grows within params args
    unfold checkExpr
    refine @Grows.bind _ _ _ _ inferInstance fun a => ?_
    cases builtinCallee? a.scopes callee with
    | some b =>
      refine @Grows.bind _ _ _ _ inferInstance fun _ => ?_
      refine @Grows.bind _ _ _ _ inferInstance fun types => ?_
      cases b.checkCall types <;> infer_instance
    | none =>
      refine @Grows.bind _ _ _ _ inferInstance fun ty => ?_
      cases ty <;> infer_instance

theorem checkItems_grows : (within : Option Enclosing) → (line : Nat) → (element : Ty) →
    (items : List Expr) → Grows (checkItems within line element items)
  | _, _, _, [] => by
    unfold checkItems
    infer_instance
  | within, line, element, item :: rest => by
    have := checkExpr_grows within (some element) item
    have := checkItems_grows within line element rest
    unfold checkItems
    infer_instance

theorem checkEntries_grows : (within : Option Enclosing) → (line : Nat) → (key value : Ty) →
    (entries : List (Expr × Expr)) → Grows (checkEntries within line key value entries)
  | _, _, _, _, [] => by
    unfold checkEntries
    infer_instance
  | within, line, key, value, (k, v) :: rest => by
    have := checkExpr_grows within (some key) k
    have := checkExpr_grows within (some value) v
    have := checkEntries_grows within line key value rest
    unfold checkEntries
    infer_instance

theorem checkArgs_grows : (within : Option Enclosing) → (params : List Ty) →
    (args : List Expr) → Grows (checkArgs within params args)
  | _, _, [] => by
    unfold checkArgs
    infer_instance
  | within, params, arg :: rest => by
    have := checkExpr_grows within params.head? arg
    have := checkArgs_grows within params.tail rest
    unfold checkArgs
    infer_instance

theorem checkBuiltinArgs_grows : (within : Option Enclosing) → (b : Builtin) →
    (first : Option Ty) → (args : List Expr) → Grows (checkBuiltinArgs within b first args)
  | _, _, _, [] => by
    unfold checkBuiltinArgs
    infer_instance
  | within, b, first, arg :: rest => by
    have := checkExpr_grows within (b.expectedNext first) arg
    have := fun first => checkBuiltinArgs_grows within b first rest
    unfold checkBuiltinArgs
    infer_instance

theorem checkStmt_grows : (within : Option Enclosing) → (s : Stmt) → Grows (checkStmt within s)
  | within, .declare _ _ _ _ value => by
    have := fun expected => checkExpr_grows within expected value
    unfold checkStmt
    infer_instance
  | within, .returns _ none => by
    unfold checkStmt
    cases within <;> infer_instance
  | within, .returns _ (some value) => by
    have := fun expected => checkExpr_grows within expected value
    unfold checkStmt
    cases within <;> infer_instance
  | within, .expr value => by
    have := checkExpr_grows within none value
    unfold checkStmt
    infer_instance
  | within, .branch _ condition yes none => by
    have := checkExpr_grows within (some .bool) condition
    have := checkBlock_grows within yes
    unfold checkStmt
    infer_instance
  | within, .branch _ condition yes (some no) => by
    have := checkExpr_grows within (some .bool) condition
    have := checkBlock_grows within yes
    have := checkBlock_grows within no
    unfold checkStmt
    dsimp only
    set_option synthInstance.maxSize 512 in infer_instance
  | within, .print _ value => by
    have := checkExpr_grows within none value
    unfold checkStmt
    infer_instance
  | within, .block body => by
    have := checkBlock_grows within body
    unfold checkStmt
    infer_instance

theorem checkBlock_grows : (within : Option Enclosing) → (b : Block) → Grows (checkBlock within b)
  | within, .mk body _ => by
    have := checkStmts_grows within body
    unfold checkBlock
    infer_instance

theorem checkStmts_grows : (within : Option Enclosing) → (body : List Stmt) →
    Grows (checkStmts within body)
  | _, [] => by
    unfold checkStmts
    infer_instance
  | within, s :: rest => by
    have := checkStmt_grows within s
    have := checkStmts_grows within rest
    unfold checkStmts
    infer_instance
end

attribute [instance] checkExpr_grows checkItems_grows checkEntries_grows checkArgs_grows
  checkBuiltinArgs_grows checkStmt_grows checkBlock_grows checkStmts_grows

instance (f : FunctionDecl) : Grows (declareFunction f) := by
  unfold declareFunction
  infer_instance

instance declareFunctions_grows (fs : List FunctionDecl) : Grows (declareFunctions fs) := by
  induction fs with
  | nil =>
    unfold declareFunctions
    infer_instance
  | cons f rest ih =>
    unfold declareFunctions
    infer_instance

instance (f : FunctionDecl) (signature : Signature) : Grows (checkFunction f signature) := by
  unfold checkFunction
  infer_instance

instance checkFunctions_grows (fs : List FunctionDecl) (signatures : List Signature) :
    Grows (checkFunctions fs signatures) := by
  induction fs generalizing signatures with
  | nil =>
    unfold checkFunctions
    infer_instance
  | cons f rest ih =>
    cases signatures with
    | nil =>
      unfold checkFunctions
      infer_instance
    | cons signature signatures =>
      have := ih signatures
      unfold checkFunctions
      infer_instance

/-! ## 3. Quiet steps -/

/-- A step that goes from `a` to `b` with the result `x` and reports nothing. -/
structure Quiet (m : Check α) (a : Analysis) (x : α) (b : Analysis) : Prop where
  step : m a = .ok (x, b)
  reports : b.reports = a.reports

namespace Quiet

variable {m : Check α} {f : α → Check β} {a b c : Analysis} {x : α} {y : β}

/-- A sequence that reports nothing is made of parts that report nothing. -/
theorem parts [hm : Grows m] (hf : Grows (f x)) (h₁ : m a = .ok (x, b))
    (h₂ : f x b = .ok (y, c)) (hr : c.reports = a.reports) : Quiet m a x b ∧ Quiet (f x) b y c := by
  have h₃ := hm.suffix h₁
  have h₄ := hf.suffix h₂
  rw [hr] at h₄
  have h₅ : b.reports = a.reports := h₄.eq_of_length_le h₃.length_le
  exact ⟨⟨h₁, h₅⟩, h₂, by rw [hr, h₅]⟩

theorem bind_inv [Grows m] [∀ x, Grows (f x)] (h : Quiet (m >>= f) a y c) :
    ∃ x b, Quiet m a x b ∧ Quiet (f x) b y c := by
  obtain ⟨x, b, h₁, h₂⟩ := bind_eq_ok.mp h.step
  exact ⟨x, b, parts inferInstance h₁ h₂ h.reports⟩

/-- The same where what follows is split by the result of the first part. -/
theorem bind_cases [Grows m] (h : Quiet (m >>= f) a y c) :
    ∃ x b, Grows (f x) → Quiet m a x b ∧ Quiet (f x) b y c := by
  obtain ⟨x, b, h₁, h₂⟩ := bind_eq_ok.mp h.step
  exact ⟨x, b, fun hf => parts hf h₁ h₂ h.reports⟩

theorem bind (h₁ : Quiet m a x b) (h₂ : Quiet (f x) b y c) : Quiet (m >>= f) a y c :=
  ⟨bind_eq_ok.mpr ⟨x, b, h₁.step, h₂.step⟩, h₂.reports.trans h₁.reports⟩

theorem pure_inv {z : α} (h : Quiet (pure x : Check α) a z b) : z = x ∧ b = a := by
  obtain ⟨rfl, rfl⟩ := pure_eq_ok.mp h.step
  exact ⟨rfl, rfl⟩

theorem pure (x : α) (a : Analysis) : Quiet (Pure.pure x : Check α) a x a := ⟨rfl, rfl⟩

/-- Reading the state leaves it as it is. -/
theorem get_bind {f : Analysis → Check β} : Quiet (get >>= f) a y c ↔ Quiet (f a) a y c := by
  have heq : (get >>= f) a = f a a := bind_of_ok get_ok
  exact ⟨fun h => ⟨heq ▸ h.step, h.reports⟩, fun h => ⟨heq ▸ h.step, h.reports⟩⟩

theorem discard_inv {u : PUnit} (h : Quiet (discard m) a u b) : ∃ x, Quiet m a x b := by
  obtain ⟨x, hx⟩ := discard_eq_ok.mp h.step
  exact ⟨x, hx, h.reports⟩

theorem discard (h : Quiet m a x b) : Quiet (Functor.discard m) a ⟨⟩ b :=
  ⟨discard_eq_ok.mpr ⟨x, h.step⟩, h.reports⟩

/-- A report is not quiet. -/
theorem not_report {line : Nat} {problem : Problem} {u : Unit} :
    ¬ Quiet (report line problem) a u b := by
  rintro ⟨hs, hr⟩
  cases hs
  simpa using congrArg List.length hr

/-- A report under a condition is quiet exactly if the condition fails. -/
theorem report_if {p : Prop} [Decidable p] {line : Nat} {problem : Problem} {u : PUnit} :
    Quiet (if p then report line problem else Pure.pure PUnit.unit) a u b ↔ ¬ p ∧ b = a := by
  by_cases hp : p
  · rw [if_pos hp]
    exact ⟨fun h => absurd h not_report, fun h => absurd hp h.1⟩
  · rw [if_neg hp]
    refine ⟨fun h => ⟨hp, h.pure_inv.2⟩, ?_⟩
    rintro ⟨-, rfl⟩
    exact .pure _ _

/-- The same with steps that follow the report. -/
theorem report_if_then {p : Prop} [Decidable p] {line : Nat} {problem : Problem} {k : Check α}
    [Grows k] : Quiet (if p then report line problem >>= fun _ => k else k) a x b ↔
      ¬ p ∧ Quiet k a x b := by
  by_cases hp : p
  · rw [if_pos hp]
    refine ⟨fun h => ?_, fun h => absurd hp h.1⟩
    obtain ⟨_, _, h, -⟩ := h.bind_inv
    exact absurd h not_report
  · rw [if_neg hp]
    exact ⟨fun h => ⟨hp, h⟩, fun h => h.2⟩

/-- The same with two conditions, the second one looked at if the first one fails. -/
theorem report_if_else_then {p q : Prop} [Decidable p] [Decidable q] {line : Nat}
    {problem problem' : Problem} {k : Check α} [Grows k] :
    Quiet (if p then report line problem >>= fun _ => k
      else if q then report line problem' >>= fun _ => k else k) a x b ↔
        ¬ p ∧ ¬ q ∧ Quiet k a x b := by
  by_cases hp : p
  · rw [if_pos hp]
    refine ⟨fun h => ?_, fun h => absurd hp h.1⟩
    obtain ⟨_, _, h, -⟩ := h.bind_inv
    exact absurd h not_report
  · rw [if_neg hp, report_if_then]
    exact ⟨fun h => ⟨hp, h⟩, fun h => h.2⟩

theorem reportAll_inv {line : Nat} {problems : List Problem} {u : Unit}
    (h : Quiet (reportAll line problems) a u b) : problems = [] ∧ b = a := by
  cases problems with
  | nil => exact ⟨rfl, h.pure_inv.2⟩
  | cons p rest =>
    unfold reportAll at h
    obtain ⟨_, _, h, _⟩ := h.bind_inv
    exact absurd h not_report

theorem reportAny_inv {line : Nat} {problem : Option Problem} {u : Unit}
    (h : Quiet (reportAny line problem) a u b) : problem = none ∧ b = a := by
  cases problem with
  | none => exact ⟨rfl, h.pure_inv.2⟩
  | some p => exact absurd h not_report

theorem file_inv {node : Node} {ty ty' : Ty} (h : Quiet (file node ty) a ty' b) :
    ty' = ty ∧ b = { a with types := a.types.file node.id ty } := by
  have hs := h.step
  cases hs
  exact ⟨rfl, rfl⟩

theorem file (node : Node) (ty : Ty) (a : Analysis) :
    Quiet (Check.file node ty) a ty { a with types := a.types.file node.id ty } := ⟨rfl, rfl⟩

/-! ## 4. Scopes and annotations -/

theorem enter_inv {u : Unit} (h : Quiet enter a u b) :
    b = { a with scopes := a.scopes.enter } := by
  have hs := h.step
  cases hs
  rfl

theorem enter (a : Analysis) : Quiet Check.enter a ⟨⟩ { a with scopes := a.scopes.enter } :=
  ⟨rfl, rfl⟩

theorem leave_inv {u : Unit} (h : Quiet leave a u b) :
    ∃ t, a.scopes.leave? = .ok t ∧ b = { a with scopes := t } := by
  have hs := h.step
  unfold Check.leave at hs
  rw [bind_of_ok get_ok] at hs
  obtain ⟨t, a', ht, hs⟩ := bind_eq_ok.mp hs
  cases hs
  cases hl : a.scopes.leave? with
  | error e => rw [hl] at ht; cases ht
  | ok t' =>
    rw [hl] at ht
    cases ht
    exact ⟨_, rfl, rfl⟩

theorem leave {t : ScopeTable} (h : a.scopes.leave? = .ok t) :
    Quiet Check.leave a ⟨⟩ { a with scopes := t } where
  step := by
    unfold Check.leave
    rw [bind_of_ok get_ok, h]
    rfl
  reports := rfl

/-- A declaration that has succeeded. -/
theorem declare_inv {name : String} {ty : Ty} {constant function : Bool}
    (h : Quiet (declare name ty constant function) a true b) :
    ∃ t, a.scopes.declare? name ty constant function = some t ∧ b = { a with scopes := t } := by
  have hs := h.step
  unfold Check.declare at hs
  rw [bind_of_ok get_ok] at hs
  cases ht : a.scopes.declare? name ty constant function with
  | none =>
    rw [ht] at hs
    cases hs
  | some t =>
    rw [ht] at hs
    cases hs
    exact ⟨t, rfl, rfl⟩

/-- A declaration that is reported unless it succeeds. -/
theorem declare_then_inv {name : String} {ty : Ty} {constant function : Bool} {line : Nat}
    {problem : Problem} {k : Check α} [Grows k]
    (h : Quiet (Check.declare name ty constant function >>= fun ok =>
      if !ok then report line problem >>= fun _ => k else k) a x c) :
    ∃ t, a.scopes.declare? name ty constant function = some t ∧
      Quiet k { a with scopes := t } x c := by
  obtain ⟨ok, b, h₁, h₂⟩ := h.bind_inv
  obtain ⟨hok, h₂⟩ := report_if_then.mp h₂
  obtain rfl : ok = true := by simpa using hok
  obtain ⟨t, ht, rfl⟩ := h₁.declare_inv
  exact ⟨t, ht, h₂⟩

theorem declare {name : String} {ty : Ty} {constant function : Bool} {t : ScopeTable}
    (h : a.scopes.declare? name ty constant function = some t) :
    Quiet (Check.declare name ty constant function) a true { a with scopes := t } where
  step := by
    unfold Check.declare
    rw [bind_of_ok get_ok, h]
    rfl
  reports := rfl

end Quiet

end Stackling
