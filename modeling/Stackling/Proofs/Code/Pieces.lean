import Stackling.Proofs.Code.ControlFlow
import Stackling.Proofs.Code.Statements

/-
  File:     Stackling/Proofs/Code/Pieces.lean
  Subject:  The code of a unit is written piece by piece.

  A piece is a stretch of code with labels of its own, whatever is written in it. How control
  comes through it is known as soon as it is written: what follows in the unit adds neither a way
  into it nor a way out. So pieces are put together as the stretches are.

  * `Generator.Prolongs`      -- code is added to the unit in work;
  * `CodeUnit.Continues`      -- a unit with the code so far;
  * `Generator.Flows`         -- a piece is written;
  * `Generator.Flows.branch`, `.branches` -- the pieces of a branch.
-/
namespace Stackling

variable {g₀ g g₁ g₂ g' : Generator} {u : CodeUnit} {l : Nat} {r r' : Bool}

/-! ## 1. Later states of a unit -/

/-- **A later state of the unit in work:** code was added, and a label that had been placed has
    kept its offset. -/
structure Generator.Prolongs (g g' : Generator) : Prop where
  ops : g.current.ops.toList <+: g'.current.ops.toList
  size : g.nextLabel ≤ g'.nextLabel
  kept : ∀ (l : Label) (o : Nat), g.current.labels[l]? = some (some o) →
    g'.current.labels[l]? = some (some o)
  id : g'.current.id = g.current.id
  name : g'.current.name = g.current.name
  arity : g'.current.arity = g.current.arity
  returns : g'.current.returns = g.current.returns

namespace Generator.Prolongs

theorem refl (g : Generator) : g.Prolongs g :=
  ⟨List.prefix_refl _, Nat.le_refl _, fun _ _ h => h, rfl, rfl, rfl, rfl⟩

theorem trans (h : g.Prolongs g₁) (h' : g₁.Prolongs g₂) : g.Prolongs g₂ where
  ops := h.ops.trans h'.ops
  size := Nat.le_trans h.size h'.size
  kept l o hl := h'.kept l o (h.kept l o hl)
  id := h'.id.trans h.id
  name := h'.name.trans h.name
  arity := h'.arity.trans h.arity
  returns := h'.returns.trans h.returns

theorem put (g : Generator) (op : Op) : g.Prolongs (g.put op) :=
  { refl g with ops := by simp [Generator.put] }

theorem label (g : Generator) : g.Prolongs g.label :=
  { refl g with
    size := Nat.le_of_lt (Nat.lt_of_lt_of_eq (Nat.lt_succ_self _) g.nextLabel_label.symm)
    kept := fun l o hl => by
      rw [getElem?_label (Array.getElem?_eq_some_iff.mp hl).1, hl] }

theorem place (h : g.Open l) : g.Prolongs (g.place l) :=
  { refl g with
    size := Nat.le_of_eq (g.nextLabel_place l).symm
    kept := fun l' o hl' => by
      have hne : l ≠ l' := by
        rintro rfl
        cases h.symm.trans hl'
      rw [getElem?_place_ne hne, hl'] }

theorem tested (g : Generator) : g.Prolongs g.tested :=
  ((label g).trans (put _ .not)).trans (put _ (.jumpIf g.nextLabel))

theorem between (h : g.Open l) : g.Prolongs (g.between l) :=
  ((label g).trans (put _ (.jump g.nextLabel))).trans
    (place (g := g.label.put (.jump g.nextLabel)) h.label)

end Generator.Prolongs

/-- The unit `u` goes on where the unit in work ends: it has the code so far, and the labels that
    have been placed. -/
structure CodeUnit.Continues (u : CodeUnit) (g : Generator) : Prop where
  ops : g.current.ops.toList <+: u.ops.toList
  labels : ∀ (l : Label) (o : Nat), g.current.labels[l]? = some (some o) → u.offset? l = some o

namespace CodeUnit.Continues

theorem mono (h : u.Continues g') (hg : g.Prolongs g') : u.Continues g :=
  ⟨hg.ops.trans h.ops, fun l o hl => h.labels l o (hg.kept l o hl)⟩

/-- An instruction stands where it was put. -/
theorem op {op : Op} (h : u.Continues (g.put op)) : u.ops[g.pc]? = some op := by
  obtain ⟨more, hm⟩ := h.ops
  rw [← Array.getElem?_toList, ← hm]
  simp [Generator.put, Generator.pc]

theorem offset (h : u.Continues (g.place l)) (hl : l < g.nextLabel) :
    u.offset? l = some g.pc := h.labels l g.pc (Generator.getElem?_place hl)

/-- The test of a branch. -/
theorem tested (h : u.Continues g.tested) :
    u.ops[g.pc]? = some .not ∧ u.ops[g.pc + 1]? = some (.jumpIf g.nextLabel) := by
  have hjump := h.op
  rw [Generator.pc_put] at hjump
  exact ⟨(h.mono (.put (g.label.put .not) _)).op, hjump⟩

end CodeUnit.Continues

/-! ## 2. Pieces -/

/-- **A piece of code is written** in the unit in work. It has labels of its own, and control
    comes through it unless it `always` returns. -/
structure Generator.Flows (g g' : Generator) (always : Bool) : Prop
    extends g.Prolongs g' where
  labels : ∀ l < g.nextLabel, g'.current.labels[l]? = g.current.labels[l]?
  flows : ∀ u : CodeUnit, u.Continues g' → u.Flows g.pc g'.pc always

namespace Generator.Flows

/-- What is done aside leaves the unit in work as it is. -/
theorem aside (g g' : Generator) : g.Flows { g' with current := g.current } false :=
  { Prolongs.refl g with
    labels := fun _ _ => rfl
    flows := fun _ _ => .nil }

theorem refl (g : Generator) : g.Flows g false := aside g g

theorem trans (h : g.Flows g₁ r) (h' : g₁.Flows g₂ r') : g.Flows g₂ (r || r') :=
  { h.toProlongs.trans h'.toProlongs with
    labels := fun l hl => (h'.labels l (Nat.lt_of_lt_of_le hl h.size)).trans (h.labels l hl)
    flows := fun u hu => (h.flows u (hu.mono h'.toProlongs)).append (h'.flows u hu) }

/-- Code that control comes through changes nothing. -/
theorem next (h : g₀.Flows g r) (h' : g.Flows g' false) : g₀.Flows g' r := by
  have := h.trans h'
  rwa [Bool.or_false] at this

theorem enter (g : Generator) : g.Flows g.enter false :=
  { Prolongs.refl g with
    labels := fun _ _ => rfl
    flows := fun _ _ => .nil }

theorem leave (g : Generator) : g.Flows g.leave false :=
  { Prolongs.refl g with
    labels := fun _ _ => rfl
    flows := fun _ _ => .nil }

theorem bindLocal (g : Generator) (name : String) : g.Flows (g.bindLocal name) false :=
  { Prolongs.refl g with
    labels := fun _ _ => rfl
    flows := fun _ _ => .nil }

/-- An instruction that does not jump. -/
theorem put (g : Generator) {op : Op} (ht : op.target? = none) : g.Flows (g.put op) (!op.falls) :=
  { Prolongs.put g op with
    labels := fun _ _ => rfl
    flows := fun u hu => by
      rw [pc_put]
      exact .single hu.op ht }

theorem keepsOpen (h : g.Flows g' r) (ho : g.Open l) : g'.Open l := (h.labels l ho.lt).trans ho

/-- **A branch with one arm** is gone over if its test fails. -/
theorem branch (h : g.tested.Flows g' r) : g.Flows (g'.place g.nextLabel) false := by
  have hn : g.tested.nextLabel = g.nextLabel + 1 := g.nextLabel_label
  have hopen : g'.Open g.nextLabel := h.keepsOpen g.open_label
  refine { ((Prolongs.tested g).trans h.toProlongs).trans (.place hopen) with
    labels := fun l hl => ?_, flows := fun u hu => ?_ }
  · rw [getElem?_place_ne (Nat.ne_of_gt hl), h.labels l (by omega)]
    exact getElem?_label hl
  · have hu' := hu.mono (.place hopen)
    obtain ⟨hnot, hjump⟩ := (hu'.mono h.toProlongs).tested
    have hyes := h.flows u hu'
    rw [pc_tested] at hyes
    exact (CodeUnit.Flows.single hnot rfl).append (.branch hjump (hu.offset hopen.lt) hyes)

/-- **A branch with two arms** always returns if both of them do. -/
theorem branches (h : g.tested.Flows g₁ r) (h' : (g₁.between g.nextLabel).Flows g₂ r') :
    g.Flows (g₂.place g₁.nextLabel) (r && r') := by
  have hn : g.tested.nextLabel = g.nextLabel + 1 := g.nextLabel_label
  have hn' := g₁.nextLabel_between g.nextLabel
  have hsize : g.tested.nextLabel ≤ g₁.nextLabel := h.size
  have hfirst : g₁.Open g.nextLabel := h.keepsOpen g.open_label
  have hsecond : g₂.Open g₁.nextLabel := h'.keepsOpen (open_between hfirst.lt)
  refine { ((Prolongs.tested g).trans h.toProlongs).trans
      ((Prolongs.between hfirst).trans (h'.toProlongs.trans (.place hsecond))) with
    labels := fun l hl => ?_, flows := fun u hu => ?_ }
  · rw [getElem?_place_ne (by omega), h'.labels l (by omega), getElem?_between_ne (by omega)
      (by omega), h.labels l (by omega)]
    exact getElem?_label hl
  · -- the unit goes on behind each of the states in between, from the last one back
    have hu₂ := hu.mono (.place hsecond)
    have hmid := hu₂.mono h'.toProlongs
    have hskip := hmid.mono (.place (g := g₁.label.put (.jump g₁.nextLabel)) hfirst.label)
    have hu₁ := hskip.mono ((Prolongs.label g₁).trans (.put _ _))
    obtain ⟨hnot, hjump⟩ := (hu₁.mono h.toProlongs).tested
    have hyes := h.flows u hu₁
    have hno := h'.flows u hu₂
    rw [pc_tested] at hyes
    rw [show (g₁.between g.nextLabel).pc = g₁.pc + 1 from pc_put _ _] at hno
    exact (CodeUnit.Flows.single hnot rfl).append
      (.branches hjump (hmid.labels _ _ (getElem?_between hfirst.lt)) hyes hskip.op
        (hu.offset hsecond.lt) hno)

/-- A scope around a stretch of code. -/
theorem inScope (h : g.enter.Flows g' r) : g.Flows g'.leave r := ((enter g).trans h).next (leave g')

end Generator.Flows

end Stackling
