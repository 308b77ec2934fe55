import Mathlib.Logic.Relation
import Stackling.Proofs.Code.Verifier

/-
  File:     Stackling/Proofs/Code/ControlFlow.lean
  Subject:  Which offsets of a unit can be reached.

  The offsets of a unit are the nodes of its control-flow graph, and a conditional jump has two
  edges. Code that was written for one part of a program is entered at its start alone and left
  at its end alone, or else by a return; so it can be put together, and what is known of the
  parts tells whether control comes through the whole.

  * `CodeUnit.Edge`, `CodeUnit.Reaches` -- the control-flow graph;
  * `CodeUnit.Flows`                  -- a stretch of code, and whether it always returns;
  * `CodeUnit.Flows.append`           -- one stretch after the other;
  * `CodeUnit.Flows.branch`, `.branches` -- a jump over one stretch, and a choice of two.
-/
namespace Stackling

namespace CodeUnit

variable {u : CodeUnit} {pc pc₁ pc' : Nat} {op : Op} {l : Label} {r r' : Bool}

/-! ## 1. The graph -/

/-- Control may go from one offset to another one. -/
def Edge (u : CodeUnit) (pc pc' : Nat) : Prop := ∃ op, u.ops[pc]? = some op ∧ u.Goes pc op pc'

/-- An offset is reachable from another one. -/
def Reaches (u : CodeUnit) : Nat → Nat → Prop := Relation.ReflTransGen u.Edge

theorem edge_iff (hop : u.ops[pc]? = some op) : u.Edge pc pc' ↔ u.Goes pc op pc' := by
  constructor
  · rintro ⟨op', hop', hgo⟩
    cases hop.symm.trans hop'
    exact hgo
  · exact fun hgo => ⟨op, hop, hgo⟩

/-- From an instruction that does not jump control goes to the next one or nowhere. -/
theorem edge_single (hop : u.ops[pc]? = some op) (ht : op.target? = none) :
    u.Edge pc pc' ↔ op.falls = true ∧ pc' = pc + 1 := by
  rw [edge_iff hop]
  constructor
  · intro hgo
    cases hgo with
    | next hf => exact ⟨hf, rfl⟩
    | jump ht' => cases ht.symm.trans ht'
  · rintro ⟨hf, rfl⟩
    exact .next hf

theorem edge_jump (hop : u.ops[pc]? = some (.jump l)) (ho : u.offset? l = some pc₁) :
    u.Edge pc pc' ↔ pc' = pc₁ := by
  rw [edge_iff hop]
  constructor
  · intro hgo
    cases hgo with
    | next hf => cases hf
    | jump ht ho' =>
      cases ht
      exact Option.some.inj (ho'.symm.trans ho)
  · rintro rfl
    exact .jump rfl ho

/-- **A conditional jump may go either way.** -/
theorem edge_jumpIf (hop : u.ops[pc]? = some (.jumpIf l)) (ho : u.offset? l = some pc₁) :
    u.Edge pc pc' ↔ pc' = pc + 1 ∨ pc' = pc₁ := by
  rw [edge_iff hop]
  constructor
  · intro hgo
    cases hgo with
    | next => exact .inl rfl
    | jump ht ho' =>
      cases ht
      exact .inr (Option.some.inj (ho'.symm.trans ho))
  · rintro (rfl | rfl)
    · exact .next rfl
    · exact .jump rfl ho

/-! ## 2. Stretches of code -/

/-- **The code between two offsets,** which is left at its end or by a return, and which control
    comes through unless it `returns` on all ways. -/
structure Flows (u : CodeUnit) (pc pc' : Nat) (returns : Bool) : Prop where
  le : pc ≤ pc'
  inside : ∀ i j, pc ≤ i → i < pc' → u.Edge i j → pc ≤ j ∧ j ≤ pc'
  exact : u.Reaches pc pc' ↔ returns = false

namespace Flows

theorem nil : u.Flows pc pc false where
  le := Nat.le_refl _
  inside _ _ h h' := absurd (Nat.lt_of_le_of_lt h h') (Nat.lt_irrefl _)
  exact := ⟨fun _ => rfl, fun _ => .refl⟩

/-- **What gets out of a stretch of code gets to its end.** -/
theorem through (h : u.Flows pc pc' r) {i j : Nat} (hi : pc ≤ i) (hi' : i ≤ pc') (hj : pc' ≤ j)
    (hij : u.Reaches i j) : u.Reaches i pc' ∧ u.Reaches pc' j := by
  induction hij using Relation.ReflTransGen.head_induction_on with
  | refl =>
    obtain rfl := Nat.le_antisymm hi' hj
    exact ⟨.refl, .refl⟩
  | @head i k hik hkj ih =>
    rcases Nat.lt_or_eq_of_le hi' with hlt | rfl
    · obtain ⟨hk, hk'⟩ := h.inside i k hi hlt hik
      obtain ⟨hleft, hright⟩ := ih hk hk'
      exact ⟨.head hik hleft, hright⟩
    · exact ⟨.refl, .head hik hkj⟩

/-- **One stretch after the other:** control comes through both if it comes through each. -/
theorem append (h : u.Flows pc pc₁ r) (h' : u.Flows pc₁ pc' r') : u.Flows pc pc' (r || r') where
  le := Nat.le_trans h.le h'.le
  inside i j hl hr hij := by
    rcases Nat.lt_or_ge i pc₁ with hi | hi
    · obtain ⟨hj, hj'⟩ := h.inside i j hl hi hij
      exact ⟨hj, Nat.le_trans hj' h'.le⟩
    · obtain ⟨hj, hj'⟩ := h'.inside i j hi hr hij
      exact ⟨Nat.le_trans h.le hj, hj'⟩
  exact := by
    rw [Bool.or_eq_false_iff, ← h.exact, ← h'.exact]
    exact ⟨h.through (Nat.le_refl _) h.le h'.le, fun hboth => hboth.1.trans hboth.2⟩

/-- An instruction that does not jump. -/
theorem single (hop : u.ops[pc]? = some op) (ht : op.target? = none) :
    u.Flows pc (pc + 1) (!op.falls) where
  le := Nat.le_succ _
  inside i j hl hr hij := by
    obtain rfl := Nat.le_antisymm (Nat.le_of_lt_succ hr) hl
    obtain ⟨-, rfl⟩ := (edge_single hop ht).mp hij
    exact ⟨Nat.le_succ _, Nat.le_refl _⟩
  exact := by
    rw [Bool.not_eq_false']
    constructor
    · intro hreach
      rcases Relation.ReflTransGen.cases_head hreach with he | ⟨j, hj, -⟩
      · exact absurd he (Nat.ne_of_lt (Nat.lt_succ_self pc))
      · exact ((edge_single hop ht).mp hj).1
    · exact fun hf => .single ((edge_single hop ht).mpr ⟨hf, rfl⟩)

/-- **A jump over a stretch** comes to its end, whatever the stretch does. -/
theorem branch (hjump : u.ops[pc]? = some (.jumpIf l)) (ho : u.offset? l = some pc')
    (h : u.Flows (pc + 1) pc' r) : u.Flows pc pc' false where
  le := Nat.le_of_succ_le h.le
  inside i j hl hr hij := by
    rcases Nat.eq_or_lt_of_le hl with rfl | hlt
    · rcases (edge_jumpIf hjump ho).mp hij with rfl | rfl
      · exact ⟨Nat.le_succ _, h.le⟩
      · exact ⟨Nat.le_of_succ_le h.le, Nat.le_refl _⟩
    · obtain ⟨hj, hj'⟩ := h.inside i j hlt hr hij
      exact ⟨Nat.le_of_succ_le hj, hj'⟩
  exact := ⟨fun _ => rfl, fun _ => .single ((edge_jumpIf hjump ho).mpr (.inr rfl))⟩

/-- **A choice of two stretches,** with a jump over the second one at the end of the first:
    control comes through if it comes through one of them. -/
theorem branches {l' : Label} (hjump : u.ops[pc]? = some (.jumpIf l))
    (ho : u.offset? l = some (pc₁ + 1)) (h : u.Flows (pc + 1) pc₁ r)
    (hskip : u.ops[pc₁]? = some (.jump l')) (ho' : u.offset? l' = some pc')
    (h' : u.Flows (pc₁ + 1) pc' r') : u.Flows pc pc' (r && r') where
  le := by
    have hle := h.le
    have hle' := h'.le
    omega
  inside i j hl hr hij := by
    have hle := h.le
    have hle' := h'.le
    rcases Nat.eq_or_lt_of_le hl with rfl | hlt
    · rcases (edge_jumpIf hjump ho).mp hij with rfl | rfl <;> omega
    · rcases Nat.lt_trichotomy i pc₁ with hi | rfl | hi
      · obtain ⟨hj, hj'⟩ := h.inside i j hlt hi hij
        omega
      · obtain rfl := (edge_jump hskip ho').mp hij
        omega
      · obtain ⟨hj, hj'⟩ := h'.inside i j hi hr hij
        omega
  exact := by
    have hle := h.le
    have hle' := h'.le
    rw [Bool.and_eq_false_iff, ← h.exact, ← h'.exact]
    constructor
    · intro hreach
      rcases Relation.ReflTransGen.cases_head hreach with rfl | ⟨j, hj, hrest⟩
      · omega
      · rcases (edge_jumpIf hjump ho).mp hj with rfl | rfl
        · exact .inl (h.through (Nat.le_refl _) h.le (Nat.le_of_succ_le h'.le) hrest).1
        · exact .inr hrest
    · rintro (hfirst | hsecond)
      · exact .head ((edge_jumpIf hjump ho).mpr (.inl rfl))
          (hfirst.trans (.single ((edge_jump hskip ho').mpr rfl)))
      · exact .head ((edge_jumpIf hjump ho).mpr (.inr rfl)) hsecond

end Flows

end CodeUnit

end Stackling
