import Stackling.Proofs.Typing.Contexts

/-
  File:     Stackling/Proofs/Typing/Proper.lean
  Subject:  Well typed expressions have proper types.

  * `TypeExpr.problems_eq_nil_iff` -- an annotation has no problem exactly if it names a proper
    type;
  * `ExprTyped.proper`             -- the type of an expression is proper;
  * `ExprTyped.value`              -- and it is not `void`, unless the expression is a call.
-/
namespace Stackling

/-! ## 1. Annotations -/

namespace TypeExpr

@[simp] theorem isVoid_iff (a : TypeExpr) : a.isVoid = true ↔ a.toTy = .void := by
  cases a <;> simp [isVoid, toTy]

theorem isHashKey_iff (a : TypeExpr) : a.isHashKey = true ↔ a.toTy = .int ∨ a.toTy = .string := by
  cases a <;> simp [isHashKey, toTy]

mutual
/-- **An annotation has no problem exactly if it names a proper type.** -/
theorem problems_eq_nil_iff : (a : TypeExpr) → (a.problems = [] ↔ a.toTy.Proper)
  | int => ⟨fun _ => .int, fun _ => rfl⟩
  | string => ⟨fun _ => .string, fun _ => rfl⟩
  | bool => ⟨fun _ => .bool, fun _ => rfl⟩
  | char => ⟨fun _ => .char, fun _ => rfl⟩
  | void => ⟨fun _ => .void, fun _ => rfl⟩
  | array element => by
    have ih := problems_eq_nil_iff element
    simp only [problems, toTy, List.append_eq_nil_iff, ih, ite_eq_right_iff, isVoid_iff,
      List.cons_ne_nil, imp_false]
    exact ⟨fun ⟨hv, he⟩ => .array he hv, fun | .array he hv => ⟨hv, he⟩⟩
  | hash key value => by
    have ihk := problems_eq_nil_iff key
    have ihv := problems_eq_nil_iff value
    simp only [problems, toTy, List.append_eq_nil_iff, ihk, ihv, ite_eq_left_iff,
      ite_eq_right_iff, isVoid_iff, isHashKey_iff, List.cons_ne_nil, imp_false, not_not]
    constructor
    · rintro ⟨⟨⟨hk, hv⟩, -⟩, hw⟩
      exact .hash hk hw hv
    · rintro (_ | _)
      rename_i hk hw hv
      refine ⟨⟨⟨hk, hv⟩, ?_⟩, hw⟩
      rcases hk with hk | hk <;> rw [hk] <;> constructor
  | fn params returns => by
    have ihp := paramProblems_eq_nil_iff params
    have ihr := problems_eq_nil_iff returns
    simp only [problems, toTy, List.append_eq_nil_iff, ihp, ihr]
    constructor
    · rintro ⟨hp, hr⟩
      exact .fn (fun p h => (hp p h).1) (fun p h => (hp p h).2) hr
    · rintro (_ | _)
      rename_i hp hv hr
      exact ⟨fun p h => ⟨hp p h, hv p h⟩, hr⟩

theorem paramProblems_eq_nil_iff : (as : List TypeExpr) →
    (paramProblems as = [] ↔ ∀ p ∈ toTys as, p.Proper ∧ p ≠ .void)
  | [] => by simp [paramProblems, toTys]
  | a :: rest => by
    have iha := problems_eq_nil_iff a
    have ihr := paramProblems_eq_nil_iff rest
    simp only [paramProblems, toTys, List.append_eq_nil_iff, iha, ihr, ite_eq_right_iff,
      isVoid_iff, List.cons_ne_nil, imp_false, List.mem_cons, forall_eq_or_imp]
    exact ⟨fun ⟨⟨hv, hp⟩, hr⟩ => ⟨⟨hp, hv⟩, hr⟩, fun ⟨⟨hp, hv⟩, hr⟩ => ⟨⟨hv, hp⟩, hr⟩⟩
end

end TypeExpr

/-! ## 2. Expected types -/

/-- A context that expects a proper type, if any. -/
def Wanted (wanted : Option Ty) : Prop := ∀ ty ∈ wanted, ty.Proper

theorem Wanted.none : Wanted none := nofun

theorem Wanted.some {ty : Ty} (h : ty.Proper) : Wanted (some ty) := by
  rintro _ ⟨⟩
  exact h

theorem Ty.Proper.element {element : Ty} (h : (Ty.array element).Proper) :
    element.Proper ∧ element ≠ .void := by
  cases h with
  | array he hv => exact ⟨he, hv⟩

theorem Ty.Proper.entry {key value : Ty} (h : (Ty.hash key value).Proper) :
    (key = .int ∨ key = .string) ∧ value.Proper ∧ value ≠ .void := by
  cases h with
  | hash hk hw hv => exact ⟨hk, hw, hv⟩

theorem Ty.Proper.param {params : List Ty} {returns : Ty} (h : (Ty.fn params returns).Proper) :
    ∀ p ∈ params, p.Proper ∧ p ≠ .void := by
  cases h with
  | fn hp hv _ => exact fun p h => ⟨hp p h, hv p h⟩

theorem Ty.Proper.result {params : List Ty} {returns : Ty} (h : (Ty.fn params returns).Proper) :
    returns.Proper := by
  cases h with
  | fn _ _ hr => exact hr

theorem Ty.Proper.of_key {key : Ty} (h : key = .int ∨ key = .string) :
    key.Proper ∧ key ≠ .void := by
  rcases h with rfl | rfl
  · exact ⟨.int, nofun⟩
  · exact ⟨.string, nofun⟩

namespace Wanted

variable {wanted : Option Ty}

theorem element (h : Wanted wanted) : ∀ ty ∈ expectedElement wanted, ty.Proper ∧ ty ≠ .void := by
  intro ty hty
  unfold expectedElement at hty
  split at hty
  · cases hty
    exact (h _ rfl).element
  · cases hty

theorem key (h : Wanted wanted) : ∀ ty ∈ expectedKey wanted, ty = .int ∨ ty = .string := by
  intro ty hty
  unfold expectedKey at hty
  split at hty
  · cases hty
    exact (h _ rfl).entry.1
  · cases hty

theorem value (h : Wanted wanted) : ∀ ty ∈ expectedValue wanted, ty.Proper ∧ ty ≠ .void := by
  intro ty hty
  unfold expectedValue at hty
  split at hty
  · cases hty
    exact (h _ rfl).entry.2
  · cases hty

theorem of_element (h : Wanted wanted) : Wanted (expectedElement wanted) :=
  fun ty hty => (h.element ty hty).1

theorem of_key (h : Wanted wanted) : Wanted (expectedKey wanted) :=
  fun ty hty => (Ty.Proper.of_key (h.key ty hty)).1

theorem of_value (h : Wanted wanted) : Wanted (expectedValue wanted) :=
  fun ty hty => (h.value ty hty).1

theorem orElse {first : Option Ty} (h : Wanted first) {ty : Ty} (hty : ty.Proper) :
    Wanted (first <|> Option.some ty) := by
  cases first with
  | none => exact .some hty
  | some _ => exact h

/-- What `push` expects of its second argument is proper if the first one is. -/
theorem expectedNext (b : Builtin) {first : Option Ty} (h : Wanted first) :
    Wanted (b.expectedNext first) := by
  intro ty hty
  unfold Builtin.expectedNext at hty
  split at hty
  · cases hty
    exact (h _ rfl).element.1
  · cases hty

end Wanted

/-- A type that a context expects, or else another one. -/
theorem getD_spec {P : Ty → Prop} {wanted : Option Ty} {ty : Ty} (hw : ∀ ty ∈ wanted, P ty)
    (hd : P ty) : P (wanted.getD ty) := by
  cases wanted with
  | none => exact hd
  | some ty => exact hw ty rfl

/-! ## 3. Types of expressions -/

theorem paramTypes_proper {params : List Param} {returns : Ty} (hp : ParamsTyped params)
    (hr : returns.Proper) : (Ty.fn (paramTypes params) returns).Proper := by
  refine .fn ?_ ?_ hr
  · intro p h
    obtain ⟨q, hq, rfl⟩ := List.mem_map.mp h
    exact hp.proper q hq
  · intro p h
    obtain ⟨q, hq, rfl⟩ := List.mem_map.mp h
    exact hp.value q hq

theorem paramScope_proper {params : List Param} (hp : ParamsTyped params) :
    ∀ x ∈ paramScope params, x.2.Proper ∧ x.2 ≠ Ty.void := by
  intro x hx
  obtain ⟨p, hp', rfl⟩ := List.mem_map.mp (List.mem_reverse.mp hx)
  exact ⟨hp.proper p hp', hp.value p hp'⟩

theorem BinaryOp.Typed.proper {op : BinaryOp} {l r ty : Ty} (h : op.Typed l r ty) :
    ty.Proper ∧ ty ≠ .void := by
  cases h <;> exact ⟨by constructor, nofun⟩

theorem Builtin.signature_proper (b : Builtin) : b.signature.Proper := by
  have ha : (Ty.array .int).Proper := .array .int nofun
  cases b <;> refine .fn ?_ ?_ (by first | exact .int | exact ha) <;>
    simp [Builtin.params, Ty.Proper.int, ha]

theorem Builtin.Typed.proper {b : Builtin} {args : List Ty} {ty : Ty} (h : b.Typed args ty)
    (ha : ∀ a ∈ args, a.Proper) : ty.Proper ∧ ty ≠ .void := by
  cases h with
  | lenArray | lenText => exact ⟨.int, nofun⟩
  | first | last => exact (ha _ List.mem_cons_self).element
  | rest | push => exact ⟨ha _ List.mem_cons_self, nofun⟩

mutual
/-- **The type of an expression is proper.** -/
theorem ExprTyped.proper {Γ : Context} {wanted : Option Ty} {ty : Ty} {rows : Rows}
    (hΓ : Γ.Sane) (hw : Wanted wanted) : (e : Expr) → ExprTyped Γ wanted e ty rows → ty.Proper
  | .int .., .int => .int
  | .text .., .text => .string
  | .char .., .char => .char
  | .bool .., .bool => .bool
  | .name .., .name found => (hΓ.find found).1
  | .binary .., .binary _ _ ho => ho.proper.1
  | .array _ [], .emptyArray hty => by
    have h := getD_spec hw.element (⟨.int, nofun⟩ : Ty.int.Proper ∧ Ty.int ≠ .void)
    exact hty ▸ .array h.1 h.2
  | .array _ (first :: _), .array hf hv _ => .array (ExprTyped.proper hΓ hw.of_element first hf) hv
  | .hash _ [], .emptyHash hty => by
    have hk := getD_spec hw.key (.inl rfl : Ty.int = .int ∨ Ty.int = .string)
    have h := getD_spec hw.value (⟨.int, nofun⟩ : Ty.int.Proper ∧ Ty.int ≠ .void)
    exact hty ▸ .hash hk h.1 h.2
  | .hash _ ((_, firstValue) :: _), .hash _ hv hkey hvoid _ =>
    .hash hkey (ExprTyped.proper hΓ hw.of_value firstValue hv) hvoid
  | .fn _ _ _ (.mk _ _), .fn hr hp _ _ => paramTypes_proper hp hr
  | .index _ target _, .indexArray ht _ => (ExprTyped.proper hΓ .none target ht).element.1
  | .index _ target _, .indexHash ht _ => (ExprTyped.proper hΓ .none target ht).entry.2.1
  | .call _ _ args, .callBuiltin _ ha hb =>
    (hb.proper (BuiltinArgsTyped.proper hΓ .none args ha)).1
  | .call _ callee _, .call _ hc _ => (ExprTyped.proper hΓ .none callee hc).result

/-- The types of the arguments of a built-in are proper. -/
theorem BuiltinArgsTyped.proper {Γ : Context} {b : Builtin} {first : Option Ty} {types : List Ty}
    {rows : Rows} (hΓ : Γ.Sane) (hw : Wanted first) : (args : List Expr) →
    BuiltinArgsTyped Γ b first args types rows → ∀ a ∈ types, a.Proper
  | [], .nil => nofun
  | arg :: rest, @BuiltinArgsTyped.cons _ _ _ _ _ ty _ _ _ ha hr => by
    have h := ExprTyped.proper hΓ (hw.expectedNext b) arg ha
    have hw' := hw.orElse h
    intro a hmem
    rcases List.mem_cons.mp hmem with rfl | hmem
    · exact h
    · exact BuiltinArgsTyped.proper hΓ hw' rest hr a hmem
end

/-- **Only a call may be of type `void`.** -/
theorem ExprTyped.value {Γ : Context} {wanted : Option Ty} {e : Expr} {ty : Ty} {rows : Rows}
    (hΓ : Γ.Sane) (h : ExprTyped Γ wanted e ty rows)
    (hn : ∀ node callee args, e ≠ .call node callee args) : ty ≠ .void := by
  cases h with
  | int | text | char | bool | array | hash | fn => exact nofun
  | emptyArray hty | emptyHash hty => exact hty ▸ nofun
  | name found => exact (hΓ.find found).2
  | binary _ _ ho => exact ho.proper.2
  | indexArray ht _ => exact (ht.proper hΓ .none).element.2
  | indexHash ht _ => exact (ht.proper hΓ .none).entry.2.2
  | callBuiltin | call => exact absurd rfl (hn _ _ _)

end Stackling
