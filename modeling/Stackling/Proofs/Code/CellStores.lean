import Stackling.Proofs.Code.Compiled
import Stackling.Proofs.Code.Stretches
import Stackling.Proofs.Code.Verified

/-
  File:     Stackling/Proofs/Code/CellStores.lean
  Subject:  Each global cell is stored at one place.

  The place stands in the unit of the statements at top level outside of every branch: control
  comes behind it only through it, and this unit is left only at its end.

  * `ProgramPlaced.linked`  -- what an instruction of a program may call and how it may return;
  * `ProgramPlaced.entry_op` -- the instructions of the unit that a run starts with;
  * `CellStores`            -- the places at which cells are stored;
  * `Compiled.cellStores`   -- each cell has one.
-/
namespace Stackling

variable {p : Program} {types : TypeTable} {code : Bytecode}

/-- No callable has the unit that a run starts with. -/
theorem ProgramPlaced.ne_entry (h : ProgramPlaced p types code) {id : UnitId} {c : CallableDecl}
    (hc : p.callables[id]? = some c) : id ≠ code.entry := by
  rw [h.last, ← Program.length_callables]
  exact Nat.ne_of_lt (List.getElem?_eq_some_iff.mp hc).1

theorem ne_terminatorOf {op : Op} (h : ¬ op.closes) (returns : Ty) :
    op ≠ terminatorOf returns := fun he => h (he ▸ terminatorOf_closes returns)

/-- Another instruction than the last one stands before it. -/
theorem CodeUnit.before_last {u : CodeUnit} {i pc : Nat} {op last : Op}
    (hs : u.ops.size = pc + 1) (hl : u.ops[pc]? = some last) (hop : u.ops[i]? = some op)
    (hne : op ≠ last) : i < pc := by
  have hlt := (Array.getElem?_eq_some_iff.mp hop).1
  rcases Nat.lt_or_eq_of_le (Nat.le_of_lt_succ (hs ▸ hlt)) with hi | rfl
  · exact hi
  · exact absurd (Option.some.inj (hop.symm.trans hl)) hne

/-- **An instruction in the unit of a callable** is linked, or it is the last one. -/
theorem ProgramPlaced.linked (h : ProgramPlaced p types code) {id : UnitId} {c : CallableDecl}
    {u : CodeUnit} {i : Nat} {op : Op} (hc : p.callables[id]? = some c)
    (hu : code.unit? id = some u) (hop : u.ops[i]? = some op) :
    op.Linked p c ∨ i + 1 = u.ops.size ∧ op = terminatorOf c.returns := by
  obtain ⟨globals, hplaced⟩ := h.callables id c hc
  obtain ⟨w, pc, hw, hsize, ht, hstretch⟩ := hplaced.stretch
  cases hu.symm.trans hw
  have hlt := (Array.getElem?_eq_some_iff.mp hop).1
  rcases Nat.lt_or_eq_of_le (Nat.le_of_lt_succ (hsize ▸ hlt)) with hi | rfl
  · exact .inl (hstretch.linked i op (Nat.zero_le _) hi hop)
  · exact .inr ⟨hsize.symm, Option.some.inj (hop.symm.trans ht)⟩

/-- A unit of a callable calls only functions. -/
theorem ProgramPlaced.calls (h : ProgramPlaced p types code) {id target : UnitId}
    {c : CallableDecl} {u : CodeUnit} {i arity : Nat} {returns : Bool}
    (hc : p.callables[id]? = some c) (hu : code.unit? id = some u)
    (hop : u.ops[i]? = some (.call target arity returns)) : ∃ f, p.functions[target]? = some f := by
  rcases h.linked hc hu hop with ⟨f, hf, -⟩ | ⟨-, ht⟩
  · exact ⟨f, hf⟩
  · exact absurd ht (ne_terminatorOf (by rintro (h | h) <;> cases h) _)

/-- **The instructions of the unit that a run starts with.** -/
theorem ProgramPlaced.entry_op (h : ProgramPlaced p types code) {u : CodeUnit} {i : Nat} {op : Op}
    (hu : code.unit? code.entry = some u) (hop : u.ops[i]? = some op) :
    i = 0 ∧ op = .call p.globalsUnit 0 false ∨ i = 1 ∧ op = .call p.mainUnit 0 false ∨
      i = 2 ∧ op = .retVoid := by
  obtain ⟨w, hw, -, -, hops⟩ := h.entry
  cases hu.symm.trans hw
  rw [hops] at hop
  match i, hop with
  | 0, hop => exact .inl ⟨rfl, (Option.some.inj hop).symm⟩
  | 1, hop => exact .inr (.inl ⟨rfl, (Option.some.inj hop).symm⟩)
  | 2, hop => exact .inr (.inr ⟨rfl, (Option.some.inj hop).symm⟩)
  | i + 3, hop => cases hop

/-- Control comes behind an offset only from there or from behind it. -/
def CodeUnit.Unskipped (u : CodeUnit) (pc : Nat) : Prop :=
  ∀ (i : Nat) (op : Op) (next : Nat), u.ops[i]? = some op → u.Goes i op next →
    (pc < next ↔ pc ≤ i)

/-- **The places at which cells are stored,** in the unit `u` of the statements at top level. -/
structure CellStores (p : Program) (code : Bytecode) (u : CodeUnit) (place : Nat → Nat) :
    Prop where
  unit : code.unit? p.globalsUnit = some u
  store : ∀ cell < p.cells.length, u.ops[place cell]? = some (.storeGlobal cell)
  only : ∀ id w i cell, code.unit? id = some w → w.ops[i]? = some (.storeGlobal cell) →
    cell < p.cells.length ∧ id = p.globalsUnit ∧ i = place cell
  unskipped : ∀ cell < p.cells.length, u.Unskipped (place cell)
  returns : ∀ i op, u.ops[i]? = some op → op = .ret ∨ op = .retVoid → i + 1 = u.ops.size

/-- A callable whose declarations make cells is that of the statements at top level. -/
theorem Program.eq_globals {id : UnitId} {c : CallableDecl} (hc : p.callables[id]? = some c)
    (ho : c.outside = true) : id = p.globalsUnit ∧ c = p.globalsCallable := by
  rcases callable_cases hc with ⟨f, -, rfl⟩ | h | ⟨-, rfl⟩ | ⟨place, l, -, -, rfl⟩
  · cases ho
  · exact h
  · cases ho
  · cases ho

/-- **Each cell is stored at one place.** -/
theorem Compiled.cellStores (h : Compiled p types code) :
    ∃ u place, CellStores p code u place := by
  obtain ⟨rows, htyped⟩ := h.typed
  have hd := htyped.distinct
  obtain ⟨globals, hplaced⟩ := h.placed.callables _ _ Program.callable_globals
  obtain ⟨u, pc, hu, hsize, ht, hstretch⟩ := hplaced.stretch
  have ht : u.ops[pc]? = some .retVoid := ht
  have hstretch : Stretch p u p.globalsCallable 0 p.cells pc := hstretch
  have hplace : ∀ cell, ∃ i, cell < p.cells.length → i < pc ∧
      u.ops[i]? = some (.storeGlobal cell) := by
    intro cell
    by_cases hlt : cell < p.cells.length
    · obtain ⟨i, cell', -, hi, hop, hc⟩ := hstretch.stored _ (List.getElem_mem hlt)
      have hcell : cell' = cell :=
        hd.cell_unique hc (List.getElem?_eq_getElem hlt)
      exact ⟨i, fun _ => ⟨hi, hcell ▸ hop⟩⟩
    · exact ⟨0, fun h => absurd h hlt⟩
  choose place hplace using hplace
  refine ⟨u, place, hu, fun cell hlt => (hplace cell hlt).2, fun id w i cell hw hop => ?_,
    fun cell hlt i op next hop hgo => ⟨fun hbehind => ?_, fun hle => ?_⟩, fun i op hop hret => ?_⟩
  · rcases h.placed.units_cases hw with ⟨c, hc⟩ | rfl
    · obtain ⟨globals', hplaced'⟩ := h.placed.callables id c hc
      obtain ⟨w', pc', hw', hsize', ht', hstretch'⟩ := hplaced'.stretch
      cases hw.symm.trans hw'
      have hi : i < pc' := CodeUnit.before_last hsize' ht' hop
        (ne_terminatorOf (by rintro (h | h) <;> cases h) _)
      obtain ⟨x, hx, hcx⟩ := hstretch'.stores i cell (Nat.zero_le _) hi hop
      have ho : c.outside = true := by
        by_contra hno
        rw [if_neg hno] at hx
        cases hx
      obtain ⟨rfl, rfl⟩ := Program.eq_globals hc ho
      cases hu.symm.trans hw
      have hlt := (List.getElem?_eq_some_iff.mp hcx).1
      obtain ⟨hj, hopj⟩ := hplace cell hlt
      exact ⟨hlt, rfl, hstretch.once hd.cells i _ cell (Nat.zero_le _)
        (CodeUnit.before_last hsize ht hop nofun) (Nat.zero_le _) hj hop hopj⟩
    · rcases h.placed.entry_op hw hop with ⟨-, h⟩ | ⟨-, h⟩ | ⟨-, h⟩ <;> cases h
  · cases hgo with
    | next => exact Nat.le_of_lt_succ hbehind
    | jump htarget ho =>
      have hi : i < pc := CodeUnit.before_last hsize ht hop (by rintro rfl; cases htarget)
      obtain ⟨-, hfree⟩ := hstretch.jumps i op _ next (Nat.zero_le _) hi hop htarget ho
      by_contra hlt'
      exact hfree _ cell (Nat.not_le.mp hlt') hbehind (hplace cell hlt).2
  · have hforward := generate_forward h.generated u (Array.mem_of_getElem? hu)
    exact Nat.lt_of_le_of_lt hle (hforward.goes hop hgo)
  · by_contra hne
    have hi : i < pc := by
      have hlt := (Array.getElem?_eq_some_iff.mp hop).1
      omega
    have hlinked := hstretch.linked i op (Nat.zero_le _) hi hop
    rcases hret with rfl | rfl <;> cases hlinked.1

end Stackling
