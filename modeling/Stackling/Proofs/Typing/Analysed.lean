import Stackling.Proofs.Typing.Proper
import Stackling.Proofs.Typing.Quiet

/-
  File:     Stackling/Proofs/Typing/Analysed.lean
  Subject:  Quiet analysis of annotations, parameters, names and operators.

  These are the places where the analysis reports something. Each lemma says what a step that
  reports nothing has found, in the terms of the typing rules.

  * `Stands`   -- the callable an expression stands in agrees with its context;
  * `Analysed` -- what a quiet step has done: the rows it has filed, the context it ends in;
  * `quiet_…`  -- the steps.
-/
namespace Stackling

open Check

/-! ## 1. What a quiet step leaves behind -/

/-- The table with all rows filed, one after the other. -/
def TypeTable.fileAll (t : TypeTable) (rows : Rows) : TypeTable := ⟨rows.reverse ++ t.entries⟩

@[simp] theorem TypeTable.fileAll_nil (t : TypeTable) : t.fileAll [] = t := rfl

theorem TypeTable.fileAll_append (t : TypeTable) (rows rows' : Rows) :
    t.fileAll (rows ++ rows') = (t.fileAll rows).fileAll rows' := by
  simp [TypeTable.fileAll]

theorem TypeTable.file_eq (t : TypeTable) (id : Nat) (ty : Ty) :
    t.file id ty = t.fileAll [(id, ty)] := rfl

/-- The callable that an expression stands in gives the result type and the level of the
    parameters, which lie above all scopes of callables further out. -/
structure Stands (within : Option Enclosing) (Γ : Context) (returns : Option Ty) : Prop where
  returns : within.map Enclosing.returns = returns
  floor : ∀ n ∈ within.bind Enclosing.floor?, n = Γ.outer.length + 1
  outer : within.bind Enclosing.floor? = none → Γ.outer = []

/-- Statements keep the place they stand in. -/
theorem Stands.grown {within : Option Enclosing} {Γ Γ' : Context} {returns : Option Ty}
    (h : Stands within Γ returns) (hg : Γ.Grown Γ') : Stands within Γ' returns :=
  ⟨h.returns, hg.outer ▸ h.floor, hg.outer ▸ h.outer⟩

theorem Stands.branch {within : Option Enclosing} {Γ : Context} {returns : Option Ty}
    (h : Stands within Γ returns) : Stands within Γ.branch returns := ⟨h.returns, h.floor, h.outer⟩

/-- A quiet step has filed the rows and ends in the context. -/
structure Analysed (Γ : Context) (rows : Rows) (a b : Analysis) : Prop where
  scopes : b.scopes.Agrees Γ
  types : b.types = a.types.fileAll rows

namespace Analysed

theorem refl {Γ : Context} {a : Analysis} (h : a.scopes.Agrees Γ) : Analysed Γ [] a a := ⟨h, rfl⟩

theorem trans {Γ Γ' : Context} {rows rows' : Rows} {a b c : Analysis} (h : Analysed Γ rows a b)
    (h' : Analysed Γ' rows' b c) : Analysed Γ' (rows ++ rows') a c :=
  ⟨h'.scopes, by rw [h'.types, h.types, TypeTable.fileAll_append]⟩

theorem file {Γ : Context} {rows : Rows} {a b : Analysis} (h : Analysed Γ rows a b)
    (node : Node) (ty : Ty) :
    Analysed Γ (rows ++ [(node.id, ty)]) a { b with types := b.types.file node.id ty } :=
  h.trans ⟨h.scopes, TypeTable.file_eq _ _ _⟩

end Analysed

/-- **A scope of its own** files the rows of what stands in it, and leads back to the context that
    it was opened in. -/
theorem Analysed.scoped {Γ Γ' : Context} {rows rows' : Rows} {a b c d : Analysis} {u : Unit}
    (h : Analysed Γ rows a b) (h' : Analysed Γ' rows' { b with scopes := b.scopes.enter } c)
    (ho : Γ.Opened Γ') (hl : Quiet Check.leave c u d) : Analysed Γ (rows ++ rows') a d := by
  obtain ⟨t, ht, rfl⟩ := hl.leave_inv
  obtain ⟨t', ht', hA⟩ := ho.leave h'.scopes
  obtain rfl : t = t' := Except.ok.inj (ht.symm.trans ht')
  exact ⟨hA, by rw [TypeTable.fileAll_append, ← h.types, h'.types]⟩

/-- It can always be left. -/
theorem Analysed.exists_scoped {Γ Γ' : Context} {rows rows' : Rows} {a b c : Analysis}
    (h : Analysed Γ rows a b) (h' : Analysed Γ' rows' { b with scopes := b.scopes.enter } c)
    (ho : Γ.Opened Γ') : ∃ d, Quiet Check.leave c ⟨⟩ d ∧ Analysed Γ (rows ++ rows') a d := by
  obtain ⟨t, ht, -⟩ := ho.leave h'.scopes
  exact ⟨_, .leave ht, h.scoped h' ho (.leave ht)⟩

/-! ## 2. Annotations and parameters -/

variable {a b c : Analysis} {Γ : Context}

theorem quiet_resolve {line : Nat} {written : TypeExpr} {ty : Ty} :
    Quiet (resolve line written) a ty b ↔ ty = written.toTy ∧ written.toTy.Proper ∧ b = a := by
  unfold resolve
  constructor
  · intro h
    obtain ⟨_, _, h₁, h₂⟩ := h.bind_inv
    obtain ⟨hp, rfl⟩ := h₁.reportAll_inv
    obtain ⟨rfl, rfl⟩ := h₂.pure_inv
    exact ⟨rfl, written.problems_eq_nil_iff.mp hp, rfl⟩
  · rintro ⟨rfl, hp, rfl⟩
    rw [written.problems_eq_nil_iff.mpr hp]
    exact Quiet.bind (.pure _ _) (.pure _ _)

theorem quiet_resolveParam {p : Param} {ty : Ty} :
    Quiet (resolveParam p) a ty b ↔
      ty = p.written.toTy ∧ p.written.toTy.Proper ∧ p.written.toTy ≠ .void ∧ b = a := by
  unfold resolveParam
  rw [Quiet.report_if_then, quiet_resolve, TypeExpr.isVoid_iff]
  exact ⟨fun ⟨h₁, h₂, h₃, h₄⟩ => ⟨h₂, h₃, h₁, h₄⟩, fun ⟨h₂, h₃, h₁, h₄⟩ => ⟨h₁, h₂, h₃, h₄⟩⟩

theorem quiet_resolveParams {params : List Param} {types : List Ty} :
    Quiet (resolveParams params) a types b ↔ types = paramTypes params ∧
      (∀ p ∈ params, p.written.toTy.Proper ∧ p.written.toTy ≠ .void) ∧ b = a := by
  induction params generalizing a b types with
  | nil =>
    constructor
    · intro h
      obtain ⟨rfl, rfl⟩ := h.pure_inv
      exact ⟨rfl, nofun, rfl⟩
    · rintro ⟨rfl, -, rfl⟩
      exact .pure _ _
  | cons p rest ih =>
    unfold resolveParams
    constructor
    · intro h
      obtain ⟨ty, _, h₁, h⟩ := h.bind_inv
      obtain ⟨types, _, h₂, h₃⟩ := h.bind_inv
      obtain ⟨rfl, hp, hv, rfl⟩ := quiet_resolveParam.mp h₁
      obtain ⟨rfl, hr, rfl⟩ := ih.mp h₂
      obtain ⟨rfl, rfl⟩ := h₃.pure_inv
      exact ⟨rfl, List.forall_mem_cons.mpr ⟨⟨hp, hv⟩, hr⟩, rfl⟩
    · rintro ⟨rfl, hp, rfl⟩
      obtain ⟨⟨hp, hv⟩, hr⟩ := List.forall_mem_cons.mp hp
      exact Quiet.bind (quiet_resolveParam.mpr ⟨rfl, hp, hv, rfl⟩)
        (Quiet.bind (ih.mpr ⟨rfl, hr, rfl⟩) (.pure _ _))

/-- The scope with the parameters declared in it. -/
theorem paramScope_cons (p : Param) (params : List Param) :
    paramScope (p :: params) = paramScope params ++ [(p.name, p.written.toTy)] := by
  simp [paramScope]

/-- Parameters that are declared quietly have different names, which the scope lacked. -/
theorem declareParams_sound {params : List Param} {scope : Locals} {rest outer : List Locals}
    {globals : List (String × Entity)} {u : Unit}
    (ha : a.scopes.Agrees ⟨scope :: rest, outer, globals⟩)
    (h : Quiet (declareParams params (paramTypes params)) a u b) :
    (params.map (·.name)).Nodup ∧ (∀ p ∈ params, scope.lookup p.name = none) ∧
      Analysed ⟨(paramScope params ++ scope) :: rest, outer, globals⟩ [] a b := by
  induction params generalizing a scope with
  | nil =>
    obtain ⟨-, rfl⟩ := h.pure_inv
    exact ⟨List.nodup_nil, List.forall_mem_nil _, ha, rfl⟩
  | cons p params ih =>
    simp only [paramTypes, List.map_cons, declareParams] at h
    obtain ⟨t, ht, h⟩ := h.declare_then_inv
    have ho : scope :: rest = [] → outer = [] := fun h => absurd h (List.cons_ne_nil _ _)
    obtain ⟨Γ', hd⟩ := ha.declares_of_some ho ht
    obtain ⟨t', ht', ha'⟩ := ha.declare ho hd false
    obtain rfl : t = t' := Option.some.inj (ht.symm.trans ht')
    cases hd with
    | «local» fresh =>
      obtain ⟨hn, hf, hA⟩ := ih ha' h
      have hne : ∀ q ∈ params, q.name ≠ p.name ∧ scope.lookup q.name = none := by
        intro q hq
        have := hf q hq
        rw [List.lookup_cons] at this
        by_cases hqp : q.name = p.name
        · simp [hqp] at this
        · have hb : (q.name == p.name) = false := by simpa using hqp
          rw [hb] at this
          exact ⟨hqp, this⟩
      refine ⟨List.nodup_cons.mpr ⟨fun hm => ?_, hn⟩,
        List.forall_mem_cons.mpr ⟨fresh, fun q hq => (hne q hq).2⟩, ?_, hA.types⟩
      · obtain ⟨q, hq, he⟩ := List.mem_map.mp hm
        exact (hne q hq).1 he
      · rw [paramScope_cons, List.append_assoc]
        exact hA.scopes

/-- Parameters with different names that the scope lacks are declared quietly. -/
theorem declareParams_complete {params : List Param} {scope : Locals} {rest outer : List Locals}
    {globals : List (String × Entity)}
    (ha : a.scopes.Agrees ⟨scope :: rest, outer, globals⟩) (hn : (params.map (·.name)).Nodup)
    (hf : ∀ p ∈ params, scope.lookup p.name = none) :
    ∃ b, Quiet (declareParams params (paramTypes params)) a ⟨⟩ b ∧
      Analysed ⟨(paramScope params ++ scope) :: rest, outer, globals⟩ [] a b := by
  induction params generalizing a scope with
  | nil => exact ⟨a, .pure _ _, ha, rfl⟩
  | cons p params ih =>
    obtain ⟨hp, hn⟩ := List.nodup_cons.mp hn
    obtain ⟨fresh, hf⟩ := List.forall_mem_cons.mp hf
    obtain ⟨t, ht, ha'⟩ := ha.declare nofun (.local fresh) false
    have hf' : ∀ q ∈ params, ((p.name, p.written.toTy) :: scope).lookup q.name = none := by
      intro q hq
      have hqp : (q.name == p.name) = false := by
        simp only [beq_eq_false_iff_ne]
        intro he
        exact hp (List.mem_map.mpr ⟨q, hq, he⟩)
      rw [List.lookup_cons, hqp]
      exact hf q hq
    obtain ⟨b, hq, hA⟩ := ih (a := { a with scopes := t }) ha' hn hf'
    refine ⟨b, Quiet.bind (Quiet.declare ht) hq, ?_, hA.types⟩
    rw [paramScope_cons, List.append_assoc]
    exact hA.scopes

/-! ## 3. Names -/

/-- **A name is looked up quietly exactly if it has a symbol that is not hidden.** -/
theorem quiet_checkName_iff {within : Option Enclosing} {line : Nat} {name : String} {ty : Ty} :
    Quiet (checkName within line name) a ty b ↔ b = a ∧ ∃ s, a.scopes.lookup? name = some s ∧
      ty = s.ty ∧ ∀ n ∈ within.bind Enclosing.floor?, s.hiddenBelow n = false := by
  unfold checkName
  rw [Quiet.get_bind]
  cases a.scopes.lookup? name with
  | none =>
    refine ⟨fun h => ?_, nofun⟩
    obtain ⟨_, _, hq, -⟩ := h.bind_inv
    exact absurd hq Quiet.not_report
  | some s =>
    dsimp only
    cases within.bind Enclosing.floor? with
    | none =>
      refine ⟨fun h => ⟨h.pure_inv.2, s, rfl, h.pure_inv.1, nofun⟩, ?_⟩
      rintro ⟨rfl, _, ⟨⟩, rfl, -⟩
      exact .pure _ _
    | some n =>
      show Quiet (if s.hiddenBelow n = true then report line (.captured name) >>= fun _ =>
        pure s.ty else pure s.ty) a ty b ↔ _
      rw [Quiet.report_if_then]
      constructor
      · rintro ⟨hh, h⟩
        exact ⟨h.pure_inv.2, s, rfl, h.pure_inv.1, fun m hm => by cases hm; simpa using hh⟩
      · rintro ⟨rfl, _, ⟨⟩, rfl, hh⟩
        exact ⟨by simp [hh n rfl], .pure _ _⟩

/-- **A name is looked up quietly exactly if it stands for something.** -/
theorem quiet_checkName {within : Option Enclosing} {returns : Option Ty} {line : Nat}
    {name : String} {ty : Ty} (hs : Stands within Γ returns) (ha : a.scopes.Agrees Γ) :
    Quiet (checkName within line name) a ty b ↔
      b = a ∧ ∃ e, Γ.find? name = some e ∧ ty = e.ty := by
  have hname : ∀ {s : Symbol}, a.scopes.lookup? name = some s →
      (Quiet (checkName within line name) a ty b ↔ ty = s.ty ∧ b = a ∧
        ∀ n ∈ within.bind Enclosing.floor?, s.hiddenBelow n = false) := by
    intro s hl
    rw [quiet_checkName_iff, hl]
    constructor
    · rintro ⟨rfl, _, ⟨⟩, rfl, hh⟩
      exact ⟨rfl, rfl, hh⟩
    · rintro ⟨rfl, rfl, hh⟩
      exact ⟨rfl, s, rfl, rfl, hh⟩
  have hnone : a.scopes.lookup? name = none →
      ¬ Quiet (checkName within line name) a ty b := by
    intro hl h
    obtain ⟨-, s, hs, -⟩ := quiet_checkName_iff.mp h
    cases hl.symm.trans hs
  unfold Context.find?
  cases hsc : Γ.scopes.findSome? (List.lookup name) with
  | some ty' =>
    obtain ⟨s, hl, rfl, -, hlev⟩ := ha.lookup_local hsc
    rw [hname hl]
    have hvis : ∀ n ∈ within.bind Enclosing.floor?, s.hiddenBelow n = false := by
      intro n hn
      have := hs.floor n hn
      simp [Symbol.hiddenBelow]
      omega
    constructor
    · rintro ⟨rfl, rfl, -⟩
      exact ⟨rfl, _, rfl, rfl⟩
    · rintro ⟨rfl, _, ⟨⟩, rfl⟩
      exact ⟨rfl, rfl, hvis⟩
  | none =>
    cases ho : Γ.outer.findSome? (List.lookup name) with
    | some ty' =>
      -- a local of a callable further out lies below the floor of the literal
      obtain ⟨s, hl, -, hpos, hlev⟩ := ha.lookup_outer hsc ho
      rw [hname hl]
      constructor
      · rintro ⟨-, -, hh⟩
        cases hfl : within.bind Enclosing.floor? with
        | none =>
          rw [hs.outer hfl] at ho
          cases ho
        | some n =>
          have h₁ := hs.floor n hfl
          have h₂ := hh n hfl
          simp [Symbol.hiddenBelow] at h₂
          omega
      · rintro ⟨-, _, ⟨⟩, -⟩
    | none =>
      rcases ha.lookup_global hsc ho with ⟨hn, hl⟩ | ⟨e, s, he, hl, hg⟩
      · rw [hn]
        exact ⟨fun h => absurd h (hnone hl), fun ⟨_, _, h, _⟩ => nomatch h⟩
      · rw [hname hl, he]
        have hvis : ∀ n ∈ within.bind Enclosing.floor?, s.hiddenBelow n = false := by
          intro n _
          simp [Symbol.hiddenBelow, hg.level]
        constructor
        · rintro ⟨rfl, rfl, -⟩
          exact ⟨rfl, e, rfl, hg.ty⟩
        · rintro ⟨rfl, _, ⟨⟩, rfl⟩
          exact ⟨hg.ty.symm, rfl, hvis⟩

/-- A callee is taken for a built-in if it is the name of the built-in and has its symbol. -/
theorem builtinCallee?_name {t : ScopeTable} {node : Node} {name : String} {b : Builtin} :
    builtinCallee? t (.name node name) = some b ↔ Builtin.ofName? name = some b ∧
      ∃ s, t.lookup? name = some s ∧ s.function = true ∧ s.level = 0 ∧ s.ty = b.signature := by
  unfold builtinCallee?
  cases hb : Builtin.ofName? name with
  | none => simp [hb]
  | some b' =>
    cases hl : t.lookup? name with
    | none => simp [hb, hl]
    | some s =>
      simp only [hb, hl, Option.bind_eq_bind, Option.bind_some, Bool.and_eq_true, beq_iff_eq,
        Option.ite_none_right_eq_some, Option.some.injEq]
      constructor
      · rintro ⟨⟨⟨h₁, h₂⟩, h₃⟩, rfl⟩
        exact ⟨rfl, s, rfl, h₁, h₂, h₃⟩
      · rintro ⟨rfl, s, rfl, h₁, h₂, h₃⟩
        exact ⟨⟨⟨h₁, h₂⟩, h₃⟩, rfl⟩

/-- **A callee is taken for a built-in exactly if its name stands for it.** -/
theorem builtinCallee?_eq_some_iff {t : ScopeTable} (hΓ : Γ.Sane) (ha : t.Agrees Γ) {e : Expr}
    {b : Builtin} : builtinCallee? t e = some b ↔
      ∃ node name, e = .name node name ∧ Γ.find? name = some (.builtin b) := by
  cases e with
  | name node name =>
    rw [builtinCallee?_name]
    have hgoal : (∃ node' name', Expr.name node name = .name node' name' ∧
        Γ.find? name' = some (.builtin b)) ↔ Γ.find? name = some (.builtin b) := by
      constructor
      · rintro ⟨_, _, ⟨⟩, h⟩
        exact h
      · exact fun h => ⟨_, _, rfl, h⟩
    rw [hgoal]
    unfold Context.find?
    cases hsc : Γ.scopes.findSome? (List.lookup name) with
    | some ty =>
      obtain ⟨s, hl, -, hf, -⟩ := ha.lookup_local hsc
      simp [hl, hf]
    | none =>
      cases ho : Γ.outer.findSome? (List.lookup name) with
      | some ty =>
        obtain ⟨s, hl, hf, -⟩ := ha.lookup_outer hsc ho
        simp [hl, hf]
      | none =>
        simp only [hΓ.builtins]
        refine ⟨fun h => h.1, fun h => ⟨h, ?_⟩⟩
        have hlook := (hΓ.builtins name b).mpr h
        rcases ha.lookup_global hsc ho with ⟨hn, -⟩ | ⟨e, s, he, hl, hg⟩
        · rw [hlook] at hn
          cases hn
        · rw [hlook] at he
          cases he
          exact ⟨s, hl, hg.function, hg.level, hg.ty⟩
  | _ => simp [builtinCallee?]

/-! ## 4. Operators and built-ins -/

theorem isHashKey_iff (ty : Ty) : ty.isHashKey = true ↔ ty = .int ∨ ty = .string := by
  cases ty <;> simp [Ty.isHashKey]

/-- **An operator has no problem exactly if the rules give it a type.** -/
theorem BinaryOp.check_eq_iff {op : BinaryOp} {expected : Option Ty} {l r ty : Ty} :
    op.check expected l r = (ty, none) ↔ op.Typed l r ty := by
  have hord : ∀ {t : Ty}, t.isOrdered = true → t.isVoid = false := by
    intro t h
    cases t <;> simp_all [Ty.isOrdered, Ty.isVoid]
  constructor
  · intro h
    cases op <;> simp only [BinaryOp.check] at h <;> (repeat' split at h) <;>
      simp only [Prod.mk.injEq, reduceCtorEq, and_false, and_true] at h <;> subst h
    case add.isTrue hi =>
      obtain ⟨rfl, rfl⟩ := hi
      exact .addInt
    case add.isFalse.isTrue hs =>
      obtain ⟨rfl, rfl⟩ := hs
      exact .addText
    case sub.isTrue hi =>
      obtain ⟨rfl, rfl⟩ := hi
      exact .sub
    case mul.isTrue hi =>
      obtain ⟨rfl, rfl⟩ := hi
      exact .mul
    case div.isTrue hi =>
      obtain ⟨rfl, rfl⟩ := hi
      exact .div
    all_goals
      rename_i hv hc
      simp only [Bool.or_eq_true, Ty.isVoid_iff, not_or, Bool.not_eq_true',
        Bool.not_eq_false, Ty.compatible_iff] at *
    case equal.isFalse.isFalse => exact hc ▸ .equality (.inl rfl) hv.1
    case notEqual.isFalse.isFalse => exact hc ▸ .equality (.inr rfl) hv.1
    all_goals
      rename_i hv'
      subst hv
    case less.isFalse.isFalse.isFalse => exact .order (.inl rfl) hc
    case lessEqual.isFalse.isFalse.isFalse => exact .order (.inr (.inl rfl)) hc
    case greater.isFalse.isFalse.isFalse => exact .order (.inr (.inr (.inl rfl))) hc
    case greaterEqual.isFalse.isFalse.isFalse => exact .order (.inr (.inr (.inr rfl))) hc
  · intro h
    cases h with
    | addInt | sub | mul | div => simp [BinaryOp.check]
    | addText => simp [BinaryOp.check]
    | equality ho hv =>
      have hv' : l.isVoid = false := by simpa [← Ty.isVoid_iff] using hv
      rcases ho with rfl | rfl <;> simp [BinaryOp.check, hv']
    | order ho hv =>
      have hv' := hord hv
      rcases ho with rfl | rfl | rfl | rfl <;> simp [BinaryOp.check, hv', hv]

/-- **A direct call of a built-in has no problem exactly if the rules give it a type.** -/
theorem Builtin.checkCall_eq_ok_iff {b : Builtin} {args : List Ty} {ty : Ty} :
    b.checkCall args = .ok ty ↔ b.Typed args ty := by
  constructor
  · intro h
    unfold Builtin.checkCall at h
    split at h <;> try cases h
    · exact .lenArray
    · exact .lenText
    · exact .first
    · exact .last
    · exact .rest
    · split at h
      · rename_i hc
        cases h
        rw [Ty.compatible_iff] at hc
        subst hc
        exact .push
      · cases h
  · intro h
    cases h <;> simp [Builtin.checkCall]

theorem argProblems_eq_nil_iff {place : Nat} {params args : List Ty}
    (h : args.length = params.length) : argProblems place params args = [] ↔ args = params := by
  induction params generalizing place args with
  | nil => simpa [argProblems] using h
  | cons param params ih =>
    cases args with
    | nil => simp at h
    | cons arg args =>
      have ih := @ih (place + 1) args (by simpa using h)
      simp only [argProblems, List.append_eq_nil_iff, ih, ite_eq_left_iff, List.cons_ne_nil,
        imp_false, not_not, Ty.compatible_iff, List.cons.injEq]
      exact and_congr_left' eq_comm

/-- **Arguments have no problem exactly if they are of the types of the parameters.** -/
theorem callProblems_eq_nil_iff {params args : List Ty} :
    callProblems params args = [] ↔ args = params := by
  unfold callProblems
  by_cases h : args.length = params.length
  · rw [if_pos h, argProblems_eq_nil_iff h]
  · rw [if_neg h]
    exact ⟨nofun, fun he => absurd (congrArg List.length he) h⟩

end Stackling
