import Mathlib.Logic.Relation
import Stackling.Proofs.Code.Distinct
import Stackling.Proofs.Run.Halting
import Stackling.Proofs.Run.Stepping

/-
  File:     Stackling/Proofs/Run/Following.lean
  Subject:  The machine follows an evaluation.

  Where the evaluation has a result, steps of the machine lead to a state that goes with it;
  where it ends with a fault, the run ends with this fault. Global names and output are the same
  on both sides all the way, and the evaluation is never stuck.

  * `World.Stored`   -- the cells hold what the global names have;
  * `Runs`           -- steps of the machine;
  * `Follows`        -- the machine follows an evaluation;
  * `Follows.bind`   -- one evaluation after the other;
  * `Follows.step`, `.gives`, `.computes` -- the steps of single instructions;
  * `CallsFollowed`  -- so are calls, with so many frames left.
-/
namespace Stackling

/-! ## 1. Global names -/

/-- The cells hold what the global names have, of their types. -/
structure World.Stored (p : Program) (w : World) (globals : Array (Option Value)) : Prop where
  cells : ∀ (cell : Nat) (name : String) (ty : Ty), p.cells[cell]? = some (name, ty) →
    globals[cell]? = some (w.globals.lookup name)
  typed : ∀ (cell : Nat) (name : String) (ty : Ty) (v : Value),
    p.cells[cell]? = some (name, ty) → w.globals.lookup name = some v → v.Of p ty

namespace World.Stored

variable {p : Program} {w : World} {globals : Array (Option Value)}

/-- Before the run no name has a value. -/
theorem initial (sink : Sink) :
    World.Stored p ⟨[], sink⟩ (Array.replicate p.cells.length none) where
  cells cell name ty h := by
    rw [Array.getElem?_replicate, if_pos (List.getElem?_eq_some_iff.mp h).1]
    rfl
  typed _ _ _ _ _ h := by cases h

/-- Output changes no global name. -/
theorem write (h : w.Stored p globals) (sink : Sink) : World.Stored p { w with sink } globals :=
  ⟨h.cells, h.typed⟩

/-- **A name and its cell get a value.** -/
theorem store (h : w.Stored p globals) (hd : p.Distinct) {cell : Nat} {name : String} {ty : Ty}
    {v : Value} (hc : p.cells[cell]? = some (name, ty)) (hv : v.Of p ty) :
    World.Stored p { w with globals := (name, v) :: w.globals }
      (globals.setIfInBounds cell (some v)) where
  cells i name' ty' hi := by
    have hlookup := h.cells i name' ty' hi
    show _ = some (List.lookup name' ((name, v) :: w.globals))
    rw [List.lookup_cons]
    by_cases hn : name' = name
    · subst hn
      obtain rfl := hd.cell_unique hc hi
      rw [Array.getElem?_setIfInBounds_self_of_lt (Array.getElem?_eq_some_iff.mp hlookup).1,
        beq_self_eq_true]
    · have hne : cell ≠ i := by
        rintro rfl
        cases hc.symm.trans hi
        exact hn rfl
      rw [Array.getElem?_setIfInBounds_ne hne, hlookup, beq_false_of_ne hn]
  typed i name' ty' v' hi hv' := by
    have hv' : List.lookup name' ((name, v) :: w.globals) = some v' := hv'
    rw [List.lookup_cons] at hv'
    by_cases hn : name' = name
    · subst hn
      obtain rfl := hd.cell_unique hc hi
      rw [beq_self_eq_true] at hv'
      cases hv'
      cases hc.symm.trans hi
      exact hv
    · rw [beq_false_of_ne hn] at hv'
      exact h.typed i name' ty' v' hi hv'

end World.Stored

/-! ## 2. Following an evaluation -/

section

variable (p : Program) (code : Bytecode) (limit : Nat)

/-- Steps lead from one state to the other. -/
def Runs : State → State → Prop :=
  Relation.ReflTransGen fun s s' => step code limit s = .running s'

/-- **The machine follows an evaluation** from the given operands and frames: to operands and
    frames that go with the result, or to the same fault. -/
def Follows {α : Type} (vs : List Value) (fs : List Frame) (m : Eval α)
    (good : α → List Value → List Frame → Prop) : Prop :=
  ∀ (w : World) (globals : Array (Option Value)), w.Stored p globals →
    match m w with
    | .ok (a, w') => ∃ vs' fs' globals', good a vs' fs' ∧ w'.Stored p globals' ∧
        Runs code limit (.of vs fs globals w.sink) (.of vs' fs' globals' w'.sink)
    | .error (.fault f sink) => ∃ n, Ends code limit n (.of vs fs globals w.sink) ⟨.fault f, sink⟩
    | .error .stuck => False

end

variable {p : Program} {code : Bytecode} {limit : Nat}

/-- A run that comes to a state ends as the run from there does. -/
theorem Runs.ends {s s' : State} {n : Nat} {e : Execution} (h : Runs code limit s s')
    (he : Ends code limit n s' e) : ∃ n, Ends code limit n s e := by
  induction h using Relation.ReflTransGen.head_induction_on with
  | refl => exact ⟨n, he⟩
  | head hs _ ih =>
    obtain ⟨m, hm⟩ := ih
    exact ⟨m + 1, .more hs hm⟩

namespace Follows

variable {α β : Type} {vs vs₁ : List Value} {fs fs₁ : List Frame} {m : Eval α} {k : α → Eval β}
  {good : α → List Value → List Frame → Prop} {good' : β → List Value → List Frame → Prop}

theorem pure {a : α} (h : good a vs fs) : Follows p code limit vs fs (pure a) good :=
  fun _ globals hw => ⟨vs, fs, globals, h, hw, .refl⟩

/-- **One evaluation is followed after the other.** -/
theorem bind (h : Follows p code limit vs fs m good)
    (hk : ∀ a vs' fs', good a vs' fs' → Follows p code limit vs' fs' (k a) good') :
    Follows p code limit vs fs (m >>= k) good' := by
  intro w globals hw
  have hm := h w globals hw
  have hbind : (m >>= k) w = match m w with
      | .ok (a, w') => k a w'
      | .error e => .error e := by
    show StateT.bind m k w = _
    unfold StateT.bind
    cases m w <;> rfl
  rw [hbind]
  cases hr : m w with
  | error e =>
    rw [hr] at hm
    cases e <;> exact hm
  | ok r =>
    obtain ⟨a, w'⟩ := r
    rw [hr] at hm
    obtain ⟨vs', fs', globals', hgood, hw', hruns⟩ := hm
    have hnext := hk a vs' fs' hgood w' globals' hw'
    show match k a w' with
      | .ok (a, w') => _
      | .error (.fault f sink) => _
      | .error .stuck => _
    split
    · rename_i hka
      rw [hka] at hnext
      obtain ⟨vs₂, fs₂, globals₂, hgood', hw₂, hruns'⟩ := hnext
      exact ⟨vs₂, fs₂, globals₂, hgood', hw₂, hruns.trans hruns'⟩
    · rename_i hka
      rw [hka] at hnext
      obtain ⟨n, he⟩ := hnext
      exact hruns.ends he
    · rename_i hka
      rw [hka] at hnext
      exact hnext

/-- What goes with a result can be said in another way. -/
theorem mono {good' : α → List Value → List Frame → Prop}
    (h : Follows p code limit vs fs m good)
    (hgood : ∀ a vs' fs', good a vs' fs' → good' a vs' fs') :
    Follows p code limit vs fs m good' := by
  have hm := h.bind (k := Pure.pure) fun a vs' fs' ha => pure (hgood a vs' fs' ha)
  rwa [bind_pure] at hm

/-- A step comes first that has no part in the evaluation. -/
theorem step (hs : ∀ globals sink, Stackling.step code limit (.of vs fs globals sink) =
      .running (.of vs₁ fs₁ globals sink))
    (h : Follows p code limit vs₁ fs₁ m good) : Follows p code limit vs fs m good := by
  intro w globals hw
  have hm := h w globals hw
  have hone := hs globals w.sink
  split
  · rename_i hr
    rw [hr] at hm
    obtain ⟨vs', fs', globals', hgood, hw', hruns⟩ := hm
    exact ⟨vs', fs', globals', hgood, hw', .head hone hruns⟩
  · rename_i hr
    rw [hr] at hm
    obtain ⟨n, he⟩ := hm
    exact ⟨n + 1, .more hone he⟩
  · rename_i hr
    rw [hr] at hm
    exact hm

/-- An instruction comes first that only turns operands into a value. -/
theorem gives (popped : List Value) {v : Value} {u : CodeUnit} {f : Frame} {op : Op}
    (hat : f.At code u op) (hp : ∀ ty, op ≠ .print ty)
    (h : Follows p code limit (v :: vs) (f.moved :: fs) m good)
    (hg : op.Gives code popped (.ok v)) :
    Follows p code limit (popped ++ vs) (f :: fs) m good :=
  step (fun _ _ => step_gives hat hp hg) h

/-- The run ends with the fault of the evaluation. -/
theorem fault {f : Fault} (hs : ∀ globals sink,
    Stackling.step code limit (.of vs fs globals sink) = .faulted f sink) :
    Follows p code limit vs fs (Eval.fault f) good :=
  fun w globals _ => ⟨1, .fault (hs globals w.sink)⟩

end Follows

/-- A value of a type has been put on the operands, and the frames are the given ones. -/
structure Gained (p : Program) (ty : Ty) (vs : List Value) (fs : List Frame) (v : Value)
    (vs' : List Value) (fs' : List Frame) : Prop where
  has : v.Has p ty
  operands : vs' = ty.put v vs
  frames : fs' = fs

theorem Gained.of {ty : Ty} {v : Value} {vs : List Value} {fs : List Frame} (h : v.Of p ty) :
    Gained p ty vs fs v (v :: vs) fs := ⟨h.has, (Ty.put_of_ne h.ne_void).symm, rfl⟩

/-- What has been gained if the type is not `void`. -/
theorem Gained.value {ty : Ty} {vs vs' : List Value} {fs fs' : List Frame} {v : Value}
    (h : Gained p ty vs fs v vs' fs') (hv : ty ≠ .void) :
    v.Of p ty ∧ vs' = v :: vs ∧ fs' = fs :=
  ⟨h.has.of hv, h.operands.trans (Ty.put_of_ne hv), h.frames⟩

/-- **An instruction makes of its operands what they evaluate to.** -/
theorem Follows.computes {ty : Ty} {vs popped : List Value} {f : Frame} {fs : List Frame}
    {u : CodeUnit} {op : Op} {r : Except Fault Value} (hat : f.At code u op)
    (hp : ∀ ty, op ≠ .print ty) (hg : op.Gives code popped r) (hy : Yields p r ty) :
    Follows p code limit (popped ++ vs) (f :: fs) (Eval.lift r)
      (Gained p ty vs (f.moved :: fs)) := by
  have hone := fun globals sink => @step_gives code limit u f fs vs globals sink _ _ _ hat hp hg
  cases r with
  | ok v => exact step hone (pure (.of hy))
  | error e => exact fault hone

/-- An instruction puts a value on the operands. -/
theorem Follows.puts {ty : Ty} {v : Value} {vs : List Value} {f : Frame} {fs : List Frame}
    {u : CodeUnit} {op : Op} (hat : f.At code u op) (hp : ∀ ty, op ≠ .print ty)
    (hg : op.Gives code [] (.ok v)) (hv : v.Of p ty) :
    Follows p code limit vs (f :: fs) (Pure.pure v) (Gained p ty vs (f.moved :: fs)) :=
  computes hat hp hg hv

/-- Calls are followed with so many frames left: from the first instruction of the unit to the
    operands and the frames of the caller, with the result. -/
def CallsFollowed (p : Program) (types : TypeTable) (code : Bytecode) (limit left : Nat) : Prop :=
  ∀ {id : UnitId} {c : CallableDecl} {u : CodeUnit} {args vs : List Value} {fs : List Frame},
    p.callables[id]? = some c → code.unit? id = some u →
    List.Forall₂ (Value.Of p) args (paramTypes c.params) → 0 < left → fs.length + left = limit →
    Follows p code limit vs (⟨id, 0, args, Array.replicate u.locals .void, vs.length⟩ :: fs)
      (p.call types limit left id args) (Gained p c.returns vs fs)

/-- **A call is followed,** from the instruction that makes it: without a frame left it is a
    fault on both sides. -/
theorem CallsFollowed.call {types : TypeTable} {left : Nat}
    (h : CallsFollowed p types code limit left) {id : UnitId} {c : CallableDecl} {u : CodeUnit}
    {args vs vs₀ : List Value} {fs fs₀ : List Frame} (hc : p.callables[id]? = some c)
    (hu : code.unit? id = some u) (ha : List.Forall₂ (Value.Of p) args (paramTypes c.params))
    (hleft : fs.length + left = limit)
    (hs : ∀ globals sink, step code limit (.of vs₀ fs₀ globals sink) =
      .ofResult sink (if limit ≤ fs.length then .error (.stackOverflow limit)
        else .ok (.of vs (⟨id, 0, args, Array.replicate u.locals .void, vs.length⟩ :: fs) globals
          sink))) :
    Follows p code limit vs₀ fs₀ (p.call types limit left id args) (Gained p c.returns vs fs) := by
  cases left with
  | zero =>
    refine Follows.fault fun globals sink => ?_
    rw [hs, if_pos (by omega)]
    rfl
  | succ left =>
    refine Follows.step (fun globals sink => ?_) (h hc hu ha (Nat.succ_pos _) hleft)
    rw [hs, if_neg (by omega)]
    rfl

end Stackling
