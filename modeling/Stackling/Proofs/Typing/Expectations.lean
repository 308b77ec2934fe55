import Stackling.Proofs.Typing.Sound

/-
  File:     Stackling/Proofs/Typing/Expectations.lean
  Subject:  What the type that a place expects does to an expression.

  An expected type goes down to the first item of an array, and to the first key and the first
  value of a hash. Empty literals take it over. Apart from them only what is wrong depends on it:
  the type of an operator with unfit operands, and whether a `void` item has been reported.

  * `Expr.adopts`       -- the expressions that end up at an empty literal in this way;
  * `checkExpr_again`   -- the type that was found may be expected as well;
  * `checkExpr_firm`    -- without an empty literal, any expected type leads to the same;
  * `checkExpr_none`    -- and none is needed for that;
  * `checkExpr_stable`  -- all of it.
-/
namespace Stackling

open Check

variable {α : Type} {within : Option Enclosing} {wanted wanted' : Option Ty} {a b c : Analysis}

/-! ## 1. Single steps -/

/-- A quiet step has one result. -/
theorem Quiet.unique {m : Check α} {x y : α} (h : Quiet m a x b) (h' : Quiet m a y c) :
    y = x ∧ c = b := by
  have heq := h'.step.symm.trans h.step
  cases heq
  exact ⟨rfl, rfl⟩

/-- An operator that has no problem has a type of its own. -/
theorem BinaryOp.check_congr {op : BinaryOp} {l r ty : Ty}
    (h : op.check wanted l r = (ty, none)) (wanted' : Option Ty) :
    op.check wanted' l r = (ty, none) :=
  check_eq_iff.mpr (check_eq_iff.mp h)

/-- A `void` part is reported unless it is what the place expects. -/
theorem not_unexpected_void (ty : Ty) : ¬ (ty.isVoid && some ty != some .void) = true := by
  simp [Ty.isVoid_iff]

/-- Where nothing is expected, every `void` part is reported. -/
theorem not_void_of_none {ty : Ty} (h : ¬ (ty.isVoid && none != some Ty.void) = true)
    (wanted : Option Ty) : ¬ (ty.isVoid && wanted != some Ty.void) = true := by
  have hvoid : ty ≠ .void := by simpa [Ty.isVoid_iff] using h
  simp [Ty.isVoid_iff, hvoid]

/-- An operator that is analysed quietly has operands that fit, whatever the place expects. -/
theorem checkExpr_binary {node : Node} {op : BinaryOp} {left right : Expr} {ty : Ty}
    (h : Quiet (checkExpr within wanted (.binary node op left right)) a ty b)
    (wanted' : Option Ty) :
    Quiet (checkExpr within wanted' (.binary node op left right)) a ty b := by
  obtain ⟨l, r, a₁, a₂, h₁, h₂, hop, rfl⟩ := checkExpr_binary_iff.mp h
  have hop' := BinaryOp.check_congr hop wanted'
  exact checkExpr_binary_iff.mpr ⟨l, r, a₁, a₂, h₁, h₂, hop', rfl⟩

/-! ## 2. The type that was found -/

/-- **The type that was found may be expected as well:** the analysis goes the same way again. -/
theorem checkExpr_again : (e : Expr) → {wanted : Option Ty} → {a b : Analysis} → {ty : Ty} →
    Quiet (checkExpr within wanted e) a ty b → Quiet (checkExpr within (some ty) e) a ty b
  | .int .., _, _, _, _, h | .text .., _, _, _, _, h | .char .., _, _, _, _, h
  | .bool .., _, _, _, _, h | .name .., _, _, _, _, h | .fn .., _, _, _, _, h
  | .index .., _, _, _, _, h | .call .., _, _, _, _, h => by
    unfold checkExpr at h ⊢
    exact h
  | .binary .., _, _, _, _, h => checkExpr_binary h _
  | .array node [], _, _, _, _, h => by
    unfold checkExpr at h ⊢
    obtain ⟨rfl, rfl⟩ := h.file_inv
    exact .file _ _ _
  | .array node (first :: rest), _, _, _, _, h => by
    obtain ⟨element, a₁, a₂, h₁, -, h₂, rfl, rfl⟩ := checkExpr_array_iff.mp h
    have hfirst := checkExpr_again first h₁
    have hvoid := not_unexpected_void element
    exact checkExpr_array_iff.mpr ⟨element, a₁, a₂, hfirst, hvoid, h₂, rfl, rfl⟩
  | .hash node [], _, _, _, _, h => by
    unfold checkExpr at h ⊢
    obtain ⟨rfl, rfl⟩ := h.file_inv
    exact .file _ _ _
  | .hash node ((firstKey, firstValue) :: rest), _, _, _, _, h => by
    obtain ⟨key, value, a₁, a₂, a₃, h₁, h₂, hk, -, h₃, rfl, rfl⟩ := checkExpr_hash_iff.mp h
    have hkey := checkExpr_again firstKey h₁
    have hvalue := checkExpr_again firstValue h₂
    have hvoid := not_unexpected_void value
    exact checkExpr_hash_iff.mpr
      ⟨key, value, a₁, a₂, a₃, hkey, hvalue, hk, hvoid, h₃, rfl, rfl⟩

/-! ## 3. Expressions without an empty literal -/

/-- Whether an expression takes its type from the place: it is an empty literal, or what is
    expected goes down to one in it. -/
def Expr.adopts : Expr → Bool
  | .array _ [] | .hash _ [] => true
  | .array _ (first :: _) => first.adopts
  | .hash _ ((key, value) :: _) => key.adopts || value.adopts
  | _ => false

/-- **Without an empty literal,** no expected type leads to another type, to other rows or to
    other scopes. -/
theorem checkExpr_firm : (e : Expr) → {wanted wanted' : Option Ty} → {a b c : Analysis} →
    {x y : Ty} → e.adopts = false → Quiet (checkExpr within wanted e) a x b →
    Quiet (checkExpr within wanted' e) a y c → y = x ∧ c = b
  | .int .., _, _, _, _, _, _, _, _, h, h' | .text .., _, _, _, _, _, _, _, _, h, h'
  | .char .., _, _, _, _, _, _, _, _, h, h' | .bool .., _, _, _, _, _, _, _, _, h, h'
  | .name .., _, _, _, _, _, _, _, _, h, h' | .fn .., _, _, _, _, _, _, _, _, h, h'
  | .index .., _, _, _, _, _, _, _, _, h, h' | .call .., _, _, _, _, _, _, _, _, h, h' => by
    unfold checkExpr at h h'
    exact h.unique h'
  | .binary .., _, _, _, _, _, _, _, _, h, h' => (checkExpr_binary h _).unique h'
  | .array _ [], _, _, _, _, _, _, _, hf, _, _ => by
    rw [Expr.adopts] at hf
    cases hf
  | .array node (first :: rest), _, _, _, _, _, _, _, hf, h, h' => by
    rw [Expr.adopts] at hf
    obtain ⟨element, a₁, a₂, h₁, -, h₂, rfl, rfl⟩ := checkExpr_array_iff.mp h
    obtain ⟨element', a₁', a₂', h₁', -, h₂', rfl, rfl⟩ := checkExpr_array_iff.mp h'
    obtain ⟨rfl, rfl⟩ := checkExpr_firm first hf h₁ h₁'
    obtain ⟨-, rfl⟩ := h₂.unique h₂'
    exact ⟨rfl, rfl⟩
  | .hash _ [], _, _, _, _, _, _, _, hf, _, _ => by
    rw [Expr.adopts] at hf
    cases hf
  | .hash node ((firstKey, firstValue) :: rest), _, _, _, _, _, _, _, hf, h, h' => by
    rw [Expr.adopts, Bool.or_eq_false_iff] at hf
    obtain ⟨key, value, a₁, a₂, a₃, h₁, h₂, -, -, h₃, rfl, rfl⟩ := checkExpr_hash_iff.mp h
    obtain ⟨key', value', a₁', a₂', a₃', h₁', h₂', -, -, h₃', rfl, rfl⟩ :=
      checkExpr_hash_iff.mp h'
    obtain ⟨rfl, rfl⟩ := checkExpr_firm firstKey hf.1 h₁ h₁'
    obtain ⟨rfl, rfl⟩ := checkExpr_firm firstValue hf.2 h₂ h₂'
    obtain ⟨-, rfl⟩ := h₃.unique h₃'
    exact ⟨rfl, rfl⟩

/-- **Without an empty literal** what is fine where nothing is expected is fine everywhere. -/
theorem checkExpr_none : (e : Expr) → {a b : Analysis} → {ty : Ty} → e.adopts = false →
    Quiet (checkExpr within none e) a ty b → (wanted : Option Ty) →
    Quiet (checkExpr within wanted e) a ty b
  | .int .., _, _, _, _, h, _ | .text .., _, _, _, _, h, _ | .char .., _, _, _, _, h, _
  | .bool .., _, _, _, _, h, _ | .name .., _, _, _, _, h, _ | .fn .., _, _, _, _, h, _
  | .index .., _, _, _, _, h, _ | .call .., _, _, _, _, h, _ => by
    unfold checkExpr at h ⊢
    exact h
  | .binary .., _, _, _, _, h, _ => checkExpr_binary h _
  | .array _ [], _, _, _, hf, _, _ | .hash _ [], _, _, _, hf, _, _ => by
    rw [Expr.adopts] at hf
    cases hf
  | .array node (first :: rest), _, _, _, hf, h, wanted => by
    rw [Expr.adopts] at hf
    obtain ⟨element, a₁, a₂, h₁, hvoid, h₂, rfl, rfl⟩ := checkExpr_array_iff.mp h
    have hfirst := checkExpr_none first hf h₁ (expectedElement wanted)
    have hvoid' := not_void_of_none hvoid (expectedElement wanted)
    exact checkExpr_array_iff.mpr ⟨element, a₁, a₂, hfirst, hvoid', h₂, rfl, rfl⟩
  | .hash node ((firstKey, firstValue) :: rest), _, _, _, hf, h, wanted => by
    rw [Expr.adopts, Bool.or_eq_false_iff] at hf
    obtain ⟨key, value, a₁, a₂, a₃, h₁, h₂, hk, hvoid, h₃, rfl, rfl⟩ := checkExpr_hash_iff.mp h
    have hkey := checkExpr_none firstKey hf.1 h₁ (expectedKey wanted)
    have hvalue := checkExpr_none firstValue hf.2 h₂ (expectedValue wanted)
    have hvoid' := not_void_of_none hvoid (expectedValue wanted)
    exact checkExpr_hash_iff.mpr
      ⟨key, value, a₁, a₂, a₃, hkey, hvalue, hk, hvoid', h₃, rfl, rfl⟩

/-! ## 4. Every expression -/

/-- **Expected types are stable,** from every state: an expression that is analysed quietly is so
    again where the type that was found is expected, with the same type, rows and scopes. Only
    empty literals follow what is expected; another expression has one quiet result at most, and
    has it everywhere if it has it where nothing is expected. -/
theorem checkExpr_stable (within : Option Enclosing) (e : Expr) (a : Analysis) :
    (∀ (wanted : Option Ty) (ty : Ty) (b : Analysis), Quiet (checkExpr within wanted e) a ty b →
        Quiet (checkExpr within (some ty) e) a ty b) ∧
      (e.adopts = false →
        (∀ (wanted wanted' : Option Ty) (ty ty' : Ty) (b b' : Analysis),
          Quiet (checkExpr within wanted e) a ty b → Quiet (checkExpr within wanted' e) a ty' b' →
            ty' = ty ∧ b' = b) ∧
          ∀ (wanted : Option Ty) (ty : Ty) (b : Analysis), Quiet (checkExpr within none e) a ty b →
            Quiet (checkExpr within wanted e) a ty b) :=
  ⟨fun _ _ _ h => checkExpr_again e h, fun hf =>
    ⟨fun _ _ _ _ _ _ h h' => checkExpr_firm e hf h h', fun wanted _ _ h =>
      checkExpr_none e hf h wanted⟩⟩

/-- An array whose first item is an empty array. -/
def emptyGrid : Expr :=
  .array ⟨1, .blank⟩ [.array ⟨0, .blank⟩ []]

/-- An array whose second item is an empty array. -/
def startedGrid : Expr :=
  .array ⟨3, .blank⟩ [.array ⟨1, .blank⟩ [.int ⟨0, .blank⟩ 4], .array ⟨2, .blank⟩ []]

/-- The item of the one is of type `array<int>` where a hash is expected of it, and then where
    that array is. The other has the same type where arrays of texts are expected. -/
theorem grids_stable :
    let grid : Ty := .array (.array .int)
    let after (rows : List (Nat × Ty)) : Analysis := { Analysis.initial with types := ⟨rows⟩ }
    let emptyRows := [(1, grid), (0, .array .int)]
    let startedRows := [(3, grid), (2, .array .int), (1, .array .int), (0, .int)]
    (Quiet (checkExpr none (some (.array (.hash .int .char))) emptyGrid) .initial grid
        (after emptyRows) ∧
      Quiet (checkExpr none (some grid) emptyGrid) .initial grid (after emptyRows)) ∧
    startedGrid.adopts = false ∧
      Quiet (checkExpr none none startedGrid) .initial grid (after startedRows) ∧
      Quiet (checkExpr none (some (.array (.array .string))) startedGrid) .initial grid
        (after startedRows) :=
  have hempty := ⟨rfl, rfl⟩
  have hstarted := ⟨rfl, rfl⟩
  ⟨⟨hempty, (checkExpr_stable none emptyGrid .initial).1 _ _ _ hempty⟩, rfl, hstarted,
    ((checkExpr_stable none startedGrid .initial).2 rfl).2 _ _ _ hstarted⟩

end Stackling
