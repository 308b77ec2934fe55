import Stackling.Code.Bytecode

/-
  File:     Stackling/Proofs/Code/Verifier.lean
  Subject:  What a verifier of units checks.

  A unit passes if one depth of the operand stack can be given to each of its offsets, so that
  the instructions agree with it whichever way control comes there, and if its operands name
  arguments, slots, cells and units that exist.

  * `depthAfter`, `CodeUnit.depthAt` -- the depth after straight-line code, and at an offset;
  * `CodeUnit.Goes`                 -- where control may go after an instruction;
  * `Op.Within`, `Op.Suits`         -- an instruction names what exists, and suits a depth;
  * `CodeUnit.Verified`             -- a unit passes, with the depths of its offsets;
  * `CodeUnit.Forward`              -- its jumps go forward.
-/
namespace Stackling

/-! ## 1. Depths -/

/-- The depth of the operand stack after some instructions, one after the other. -/
def depthAfter (ops : List Op) : Nat := ops.foldl (fun depth op => depth - op.pops + op.pushes) 0

@[simp] theorem depthAfter_nil : depthAfter [] = 0 := rfl

@[simp] theorem depthAfter_concat (ops : List Op) (op : Op) :
    depthAfter (ops ++ [op]) = depthAfter ops - op.pops + op.pushes := by
  rw [depthAfter, List.foldl_append]
  rfl

/-- The depth before the instruction at an offset, if no instruction before it jumps. -/
def depthAt (ops : Array Op) (pc : Nat) : Nat := depthAfter (ops.toList.take pc)

@[simp] theorem depthAt_zero (ops : Array Op) : depthAt ops 0 = 0 := rfl

theorem depthAt_size (ops : Array Op) : depthAt ops ops.size = depthAfter ops.toList := by
  rw [depthAt, ← Array.length_toList, List.take_length]

/-- **Each instruction changes the depth by what it pops and pushes.** -/
theorem depthAt_succ {ops : Array Op} {pc : Nat} {op : Op} (h : ops[pc]? = some op) :
    depthAt ops (pc + 1) = depthAt ops pc - op.pops + op.pushes := by
  rw [← Array.getElem?_toList] at h
  rw [depthAt, List.take_add_one, h, Option.toList_some, depthAfter_concat, depthAt]

/-- More instructions do not change the depths before them. -/
theorem depthAt_push {ops : Array Op} {pc : Nat} (op : Op) (h : pc ≤ ops.size) :
    depthAt (ops.push op) pc = depthAt ops pc := by
  rw [depthAt, Array.toList_push, List.take_append_of_le_length (by simpa using h), depthAt]

/-! ## 2. Where control goes -/

namespace Op

/-- Whether the next instruction may be the one behind this one. -/
def falls : Op → Bool
  | jump _ | ret | retVoid | missingReturn => false
  | _ => true

/-- The label that an instruction may jump to. -/
def target? : Op → Option Label
  | jump l | jumpIf l => some l
  | _ => none

/-- Whether an instruction leaves its frame without a value. -/
def closes (op : Op) : Prop := op = retVoid ∨ op = missingReturn

end Op

/-- Control may go from an instruction of the unit `u`, which stands at `pc`, to an offset. -/
inductive CodeUnit.Goes (u : CodeUnit) (pc : Nat) (op : Op) : Nat → Prop
  | next (h : op.falls = true) : Goes u pc op (pc + 1)
  | jump {l : Label} {offset : Nat} (h : op.target? = some l) (ho : u.offset? l = some offset) :
      Goes u pc op offset

/-! ## 3. Bounds -/

/-- How many arguments, slots, cells and units there are. -/
structure Extent where
  args : Nat
  slots : Nat
  cells : Nat
  units : Nat

/-- No count of an extent is above that of another one. -/
structure Extent.Le (e e' : Extent) : Prop where
  args : e.args ≤ e'.args
  slots : e.slots ≤ e'.slots
  cells : e.cells ≤ e'.cells
  units : e.units ≤ e'.units

/-- What an instruction names exists. -/
def Op.Within (e : Extent) : Op → Prop
  | .loadArg index => index < e.args
  | .loadLocal slot | .storeLocal slot => slot < e.slots
  | .loadGlobal cell | .storeGlobal cell => cell < e.cells
  | .pushUnit unit | .call unit _ _ => unit < e.units
  | _ => True

theorem Op.Within.mono {e e' : Extent} {op : Op} (h : op.Within e) (he : e.Le e') :
    op.Within e' := by
  cases op <;> first
    | trivial
    | exact Nat.lt_of_lt_of_le h he.args
    | exact Nat.lt_of_lt_of_le h he.slots
    | exact Nat.lt_of_lt_of_le h he.cells
    | exact Nat.lt_of_lt_of_le h he.units

/-! ## 4. Units that pass -/

/-- **An instruction may stand at a depth:** the stack holds what it takes, a value is returned
    when nothing else is left, and a frame is left without a value when nothing is. -/
structure Op.Suits (op : Op) (e : Extent) (depth : Nat) : Prop where
  pops : op.pops ≤ depth
  ret : op = .ret → depth = 1
  closes : op.closes → depth = 0
  within : op.Within e

theorem Op.Suits.mono {op : Op} {e e' : Extent} {depth : Nat} (h : op.Suits e depth)
    (he : e.Le e') : op.Suits e' depth :=
  { h with within := h.within.mono he }

/-- What a unit may name, in a program with so many cells and units. -/
def CodeUnit.extent (u : CodeUnit) (cells units : Nat) : Extent := ⟨u.arity, u.locals, cells, units⟩

/-- **A unit passes the verifier,** with the given depth at each offset, in a program with so
    many cells and units. -/
structure CodeUnit.Verified (u : CodeUnit) (cells units : Nat) (depth : Nat → Nat) : Prop where
  start : depth 0 = 0
  suits : ∀ (pc : Nat) (op : Op), u.ops[pc]? = some op → op.Suits (u.extent cells units) (depth pc)
  next : ∀ (pc pc' : Nat) (op : Op), u.ops[pc]? = some op → u.Goes pc op pc' →
    pc' < u.ops.size ∧ depth pc' = depth pc - op.pops + op.pushes
  resolved : ∀ (pc : Nat) (op : Op) (l : Label), u.ops[pc]? = some op → op.target? = some l →
    ∃ offset, u.offset? l = some offset
  labels : ∀ (l : Label) (offset : Nat), u.offset? l = some offset → offset < u.ops.size
  last : ∃ op, u.ops.back? = some op ∧ op.closes

theorem CodeUnit.Verified.mono {u : CodeUnit} {cells units cells' units' : Nat}
    {depth : Nat → Nat} (h : u.Verified cells units depth) (hc : cells ≤ cells')
    (hu : units ≤ units') : u.Verified cells' units' depth :=
  { h with
    suits := fun pc op hop =>
      (h.suits pc op hop).mono ⟨Nat.le_refl _, Nat.le_refl _, hc, hu⟩ }

/-- **Jumps go forward.** -/
def CodeUnit.Forward (u : CodeUnit) : Prop :=
  ∀ (pc : Nat) (op : Op) (l : Label), u.ops[pc]? = some op → op.target? = some l →
    ∃ offset, u.offset? l = some offset ∧ pc < offset

/-- So does control. -/
theorem CodeUnit.Forward.goes {u : CodeUnit} (h : u.Forward) {pc pc' : Nat} {op : Op}
    (hop : u.ops[pc]? = some op) (hgo : u.Goes pc op pc') : pc < pc' := by
  cases hgo with
  | next => exact Nat.lt_succ_self _
  | jump ht ho =>
    obtain ⟨offset, ho', hlt⟩ := h _ _ _ hop ht
    cases ho.symm.trans ho'
    exact hlt

end Stackling
