import Stackling.Proofs.Code.Placed
import Stackling.Proofs.Steps

/-
  File:     Stackling/Proofs/Code/Writing.lean
  Subject:  What the steps of the generator do to what was written before.

  Code is only added: instructions stand where they were put, finished units stay, and a label
  that was placed keeps its offset. So what holds of the code written so far holds of the
  finished program.

  * `Generator.put`     -- one more instruction;
  * `Generator.Grows`   -- a later state of the same unit;
  * `Generator.Extends` -- one in which no label is left without a place;
  * `Final`             -- the finished unit and program hold all that is written;
  * `producing_ok`, `preserving_ok`, `unit_ok`, … -- the steps that succeed.
-/
namespace Stackling

open Generate

/-! ## 1. One instruction -/

/-- How many values an expression of the type leaves on the stack. -/
def Ty.width (ty : Ty) : Nat := if ty.isVoid then 0 else 1

theorem Ty.width_value {ty : Ty} (h : ty ≠ .void) : ty.width = 1 := by
  simp [Ty.width, Ty.isVoid_eq_false h]

namespace Generator

/-- The offset of the next instruction. -/
def pc (g : Generator) : Nat := g.current.ops.size

def depth (g : Generator) : Nat := g.current.depth

/-- One more instruction in the unit in work. -/
def put (g : Generator) (op : Op) : Generator :=
  { g with current := { g.current with
      depth := g.current.depth - op.pops + op.pushes
      ops := g.current.ops.push op } }

@[simp] theorem pc_put (g : Generator) (op : Op) : (g.put op).pc = g.pc + 1 := by
  simp [put, pc]

@[simp] theorem depth_put (g : Generator) (op : Op) :
    (g.put op).depth = g.depth - op.pops + op.pushes := rfl

@[simp] theorem types_put (g : Generator) (op : Op) : (g.put op).types = g.types := rfl

@[simp] theorem literals_put (g : Generator) (op : Op) : (g.put op).literals = g.literals := rfl

end Generator

/-- **An instruction is put if the stack holds what it takes.** -/
theorem emit_ok {g : Generator} {op : Op} (h : op.pops ≤ g.depth) :
    emit op g = .ok ((), g.put op) := by
  have he : g.current.emit op = .ok (g.put op).current := by
    unfold UnitBuilder.emit
    rw [if_neg (by simpa [Generator.depth] using h)]
    rfl
  unfold emit
  rw [bind_of_ok get_ok]
  have hl : (liftM (g.current.emit op) : Generate UnitBuilder) g = .ok ((g.put op).current, g) := by
    rw [he]
    rfl
  rw [bind_of_ok hl]
  rfl

theorem Generate.onUnit_ok {α : Type} (f : UnitBuilder → α × UnitBuilder) (g : Generator) :
    onUnit f g = .ok ((f g.current).1, { g with current := (f g.current).2 }) := rfl

/-- **An expression is written if its type was filed and the stack has grown by its width.** -/
theorem producing_ok {g g' : Generator} {node : Node} {ty : Ty} {body : Ty → Generate Unit}
    (ht : g.types.find? node.id = some ty) (hb : body ty g = .ok ((), g'))
    (hd : g'.depth = g.depth + ty.width) : producing node body g = .ok (ty, g') := by
  have h₁ : typeOf node g = .ok (ty, g) := by
    unfold typeOf
    rw [bind_of_ok get_ok, ht]
    rfl
  have h₂ : requireDepth (g.current.depth + ty.width) g' = .ok ((), g') := by
    unfold requireDepth
    rw [bind_of_ok get_ok]
    have : ¬ g'.current.depth ≠ g.current.depth + ty.width := not_not.mpr hd
    rw [if_neg this]
    rfl
  unfold producing
  rw [bind_of_ok h₁]
  show (depth >>= _) g = _
  have h₃ : depth g = .ok (g.current.depth, g) := rfl
  rw [bind_of_ok h₃, bind_of_ok hb]
  exact bind_of_ok h₂

/-- **A statement is written if the stack is as it was before.** -/
theorem preserving_ok {g g' : Generator} {body : Generate Unit} (hb : body g = .ok ((), g'))
    (hd : g'.depth = g.depth) : preserving body g = .ok ((), g') := by
  have h₂ : requireDepth g.current.depth g' = .ok ((), g') := by
    unfold requireDepth
    rw [bind_of_ok get_ok]
    have : ¬ g'.current.depth ≠ g.current.depth := not_not.mpr hd
    rw [if_neg this]
    rfl
  have h₃ : depth g = .ok (g.current.depth, g) := rfl
  unfold preserving
  rw [bind_of_ok h₃, bind_of_ok hb]
  exact h₂

/-! ## 2. Later states -/

/-- Code without a conversion to truth values. -/
def Plain (ops : List Op) : Prop := Op.intToBool ∉ ops

theorem Plain.append {ops ops' : List Op} (h : Plain ops) (h' : Plain ops') :
    Plain (ops ++ ops') := by
  intro hm
  rcases List.mem_append.mp hm with hm | hm
  · exact h hm
  · exact h' hm

/-- A later state of the unit in work: code was added, units were added and finished, and a
    label that had been placed has kept its offset. -/
structure Generator.Grows (g g' : Generator) : Prop where
  ops : ∃ more, g'.current.ops.toList = g.current.ops.toList ++ more ∧ Plain more
  size : g.current.labels.size ≤ g'.current.labels.size
  kept : ∀ (l : Label) (o : Nat), g.current.labels[l]? = some (some o) →
    g'.current.labels[l]? = some (some o)
  units : ∀ id < g.units.size, g'.units[id]? = g.units[id]?
  finished : ∀ id, g.units.size ≤ id → id < g'.units.size →
    ∃ v, g'.units[id]? = some (some v) ∧ Plain v.ops.toList
  counted : g'.units.size + g.literals = g.units.size + g'.literals
  literals : g.literals ≤ g'.literals
  types : g'.types = g.types
  functions : g'.functions = g.functions
  id : g'.current.id = g.current.id
  name : g'.current.name = g.current.name
  arity : g'.current.arity = g.current.arity
  returns : g'.current.returns = g.current.returns
  initializer : g'.current.initializer = g.current.initializer

namespace Generator.Grows

variable {g g₁ g₂ : Generator}

theorem refl (g : Generator) : g.Grows g where
  ops := ⟨[], by simp, by simp [Plain]⟩
  size := Nat.le_refl _
  kept _ _ h := h
  units _ _ := rfl
  finished l h h' := absurd h' (Nat.not_lt.mpr h)
  counted := rfl
  literals := Nat.le_refl _
  types := rfl
  functions := rfl
  id := rfl
  name := rfl
  arity := rfl
  returns := rfl
  initializer := rfl

theorem units_size (h : g.Grows g₁) : g.units.size ≤ g₁.units.size := by
  have h₁ := h.counted
  have h₂ := h.literals
  omega

theorem trans (h : g.Grows g₁) (h' : g₁.Grows g₂) : g.Grows g₂ where
  ops := by
    obtain ⟨more, h₁, hp₁⟩ := h.ops
    obtain ⟨more', h₂, hp₂⟩ := h'.ops
    exact ⟨more ++ more', by rw [h₂, h₁, List.append_assoc], hp₁.append hp₂⟩
  size := Nat.le_trans h.size h'.size
  kept l o hl := h'.kept l o (h.kept l o hl)
  units id hid := by rw [h'.units id (Nat.lt_of_lt_of_le hid h.units_size), h.units id hid]
  finished id hid hid' := by
    by_cases hlt : id < g₁.units.size
    · rw [h'.units id hlt]
      exact h.finished id hid hlt
    · exact h'.finished id (Nat.not_lt.mp hlt) hid'
  counted := by
    have h₁ := h.counted
    have h₂ := h'.counted
    omega
  literals := Nat.le_trans h.literals h'.literals
  types := h'.types.trans h.types
  functions := h'.functions.trans h.functions
  id := h'.id.trans h.id
  name := h'.name.trans h.name
  arity := h'.arity.trans h.arity
  returns := h'.returns.trans h.returns
  initializer := h'.initializer.trans h.initializer

theorem put (g : Generator) {op : Op} (h : op ≠ .intToBool) : g.Grows (g.put op) :=
  { refl g with
    ops := ⟨[op], by simp [Generator.put], by simpa [Plain] using h.symm⟩ }

end Generator.Grows

/-- A later state in which every new label has been placed. -/
structure Generator.Extends (g g' : Generator) : Prop extends g.Grows g' where
  labels : ∀ l < g.current.labels.size, g'.current.labels[l]? = g.current.labels[l]?
  placed : ∀ l, g.current.labels.size ≤ l → l < g'.current.labels.size →
    ∃ o, g'.current.labels[l]? = some (some o)

namespace Generator.Extends

variable {g g₁ g₂ : Generator}

/-- A step that makes no label. -/
theorem of_grows (h : g.Grows g₁) (hl : g₁.current.labels = g.current.labels) : g.Extends g₁ :=
  { h with
    labels := fun _ _ => by rw [hl]
    placed := fun l h h' => absurd (hl ▸ h') (Nat.not_lt.mpr h) }

theorem refl (g : Generator) : g.Extends g := .of_grows (.refl g) rfl

theorem trans (h : g.Extends g₁) (h' : g₁.Extends g₂) : g.Extends g₂ :=
  { h.toGrows.trans h'.toGrows with
    labels := fun l hl => by rw [h'.labels l (Nat.lt_of_lt_of_le hl h.size), h.labels l hl]
    placed := fun l hl hl' => by
      by_cases hlt : l < g₁.current.labels.size
      · rw [h'.labels l hlt]
        exact h.placed l hl hlt
      · exact h'.placed l (Nat.not_lt.mp hlt) hl' }

theorem put (g : Generator) {op : Op} (h : op ≠ .intToBool) : g.Extends (g.put op) :=
  .of_grows (.put g h) rfl

end Generator.Extends

/-! ## 3. The finished program -/

/-- The unit `u` and the program hold all that is written. -/
structure Final (code : Bytecode) (u : CodeUnit) (g : Generator) : Prop where
  ops : ∃ more, u.ops.toList = g.current.ops.toList ++ more
  labels : ∀ (l : Label) (o : Nat), g.current.labels[l]? = some (some o) → u.offset? l = some o
  units : ∀ (id : UnitId) (v : CodeUnit), g.units[id]? = some (some v) → code.unit? id = some v

namespace Final

variable {code : Bytecode} {u : CodeUnit} {g g' : Generator}

/-- **What holds all of a later state holds all of an earlier one.** -/
theorem mono (h : Final code u g') (he : g.Grows g') : Final code u g where
  ops := by
    obtain ⟨more, h₁⟩ := h.ops
    obtain ⟨more', h₂, -⟩ := he.ops
    exact ⟨more' ++ more, by rw [h₁, h₂, List.append_assoc]⟩
  labels l o hl := h.labels l o (he.kept l o hl)
  units id v hv := by
    have hlt : id < g.units.size := (Array.getElem?_eq_some_iff.mp hv).1
    exact h.units id v (by rw [he.units id hlt, hv])

/-- An instruction stands where it was put. -/
theorem op {op : Op} (h : Final code u (g.put op)) : u.ops[g.pc]? = some op := by
  obtain ⟨more, hm⟩ := h.ops
  rw [← Array.getElem?_toList, hm]
  simp [Generator.put, Generator.pc]

end Final

/-! ## 4. Finished units -/

theorem offsets_ok (unit : String) (label : Label) (os : List Nat) :
    UnitBuilder.offsets unit label (os.map some) = .ok os := by
  induction os generalizing label with
  | nil => rfl
  | cons o os ih =>
    rw [List.map_cons, UnitBuilder.offsets, ih]
    rfl

/-- A list without a gap is a list of places. -/
theorem exists_map_some {α : Type} {l : List (Option α)}
    (h : ∀ i < l.length, ∃ x, l[i]? = some (some x)) : ∃ xs : List α, l = xs.map some := by
  induction l with
  | nil => exact ⟨[], rfl⟩
  | cons o l ih =>
    obtain ⟨x, hx⟩ := h 0 (by simp)
    obtain ⟨xs, rfl⟩ := ih fun i hi => h (i + 1) (by simpa using hi)
    obtain rfl : o = some x := by simpa using hx
    exact ⟨x :: xs, rfl⟩

/-- **A unit is finished if the stack is empty and every label has been placed.** -/
theorem finish_ok {b : UnitBuilder} (hd : b.depth = 0)
    (hl : ∀ l < b.labels.size, ∃ o, b.labels[l]? = some (some o)) :
    ∃ labels : Array Nat,
      b.finish = .ok ⟨b.id, b.name, b.arity, b.locals, !b.returns.isVoid,
        b.ops.push (terminatorOf b.returns), labels⟩ ∧
      ∀ (l : Label) (o : Nat), b.labels[l]? = some (some o) → labels[l]? = some o := by
  obtain ⟨os, hos⟩ := exists_map_some (l := b.labels.toList) (by simpa using hl)
  refine ⟨os.toArray, ?_, ?_⟩
  · have hterm : b.terminator = terminatorOf b.returns := rfl
    have hpops : b.terminator.pops = 0 ∧ b.terminator.pushes = 0 := by
      rw [hterm, terminatorOf]
      split <;> exact ⟨rfl, rfl⟩
    have he : b.emit b.terminator =
        .ok { b with depth := 0, ops := b.ops.push (terminatorOf b.returns) } := by
      unfold UnitBuilder.emit
      rw [if_neg (by rw [hpops.1]; exact Nat.not_lt_zero _), hpops.1, hpops.2, hd, hterm]
    unfold UnitBuilder.finish
    rw [he]
    show (UnitBuilder.offsets b.name 0 b.labels.toList >>= _) = _
    rw [hos, offsets_ok]
    rfl
  · intro l o hlo
    rw [← Array.getElem?_toList, hos, List.getElem?_map] at hlo
    rw [List.getElem?_toArray]
    cases hx : os[l]? with
    | none => simp [hx] at hlo
    | some x => simpa [hx] using hlo

/-- The unit `v` was begun as `b` and finished in the state `g`. -/
structure Finished (b : UnitBuilder) (g : Generator) (v : CodeUnit) : Prop where
  finish : g.current.finish = .ok v
  plain : Plain v.ops.toList
  id : v.id = b.id
  name : v.name = b.name
  arity : v.arity = b.arity
  locals : v.locals = g.current.locals
  ops : v.ops = g.current.ops.push (terminatorOf b.returns)
  labels : ∀ (l : Label) (o : Nat), g.current.labels[l]? = some (some o) → v.offset? l = some o

theorem Finished.size {b : UnitBuilder} {g : Generator} {v : CodeUnit} (h : Finished b g v) :
    v.ops.size = g.pc + 1 := by
  rw [h.ops, Array.size_push]
  rfl

theorem terminatorOf_ne (returns : Ty) : terminatorOf returns ≠ .intToBool := by
  unfold terminatorOf
  split <;> nofun

/-- **A unit that was begun without code can be finished,** if nothing is left on the stack. -/
theorem Generator.Extends.finished_ok {g g₁ : Generator} {b : UnitBuilder}
    (h : g.Extends g₁) (hb : g.current = b) (hops : b.ops = #[]) (hlabels : b.labels = #[])
    (hd : g₁.depth = 0) : ∃ v, Finished b g₁ v := by
  subst hb
  obtain ⟨labels, hf, hl⟩ := finish_ok (b := g₁.current) hd fun l hl =>
    h.placed l (by simp [hlabels]) hl
  refine ⟨_, hf, ?_, h.id, h.name, h.arity, rfl, ?_, hl⟩
  · obtain ⟨more, hm, hp⟩ := h.ops
    rw [hops] at hm
    rw [Array.toList_push, hm]
    exact hp.append (by simpa [Plain] using (terminatorOf_ne _).symm)
  · rw [h.returns]

/-- A whole unit is written if its body is, and the unit that results has a reserved number. -/
theorem unit_ok {g g₁ : Generator} {builder : UnitBuilder} {body : Generate Unit} {v : CodeUnit}
    (hb : body { g with current := builder } = .ok ((), g₁)) (hf : g₁.current.finish = .ok v)
    (hid : v.id < g₁.units.size) :
    unit builder body g = .ok ((), { g₁ with
      current := g.current
      units := g₁.units.setIfInBounds v.id (some v) }) := by
  have hm : (modify fun g : Generator => { g with current := builder } : Generate PUnit) g =
      .ok (⟨⟩, { g with current := builder }) := rfl
  have hl : (liftM g₁.current.finish : Generate CodeUnit) g₁ = .ok (v, g₁) := by
    rw [hf]
    rfl
  have hc : (modify fun g' : Generator => { g' with current := g.current } : Generate PUnit) g₁ =
      .ok (⟨⟩, { g₁ with current := g.current }) := rfl
  unfold unit
  rw [bind_of_ok get_ok, bind_of_ok hm, bind_of_ok hb, bind_of_ok get_ok, bind_of_ok hl,
    bind_of_ok hc, bind_of_ok get_ok, if_pos hid]
  rfl

/-- The generator at the start of the unit of a new literal. -/
def Generator.startLiteral (g : Generator) (builder : UnitBuilder) : Generator :=
  { g with units := g.units.push none, literals := g.literals + 1, current := builder }

/-- The generator after the unit of a literal, back in the unit in work. -/
def Generator.endLiteral (g g₁ : Generator) (v : CodeUnit) : Generator :=
  { g₁ with current := g.current, units := g₁.units.setIfInBounds g.units.size (some v) }

/-- **A unit written on the side extends the generator.** -/
theorem Generator.Extends.literal {g g₁ : Generator} {b : UnitBuilder} {v : CodeUnit}
    (h : (g.startLiteral b).Extends g₁) (hp : Plain v.ops.toList) :
    g.Extends (g.endLiteral g₁ v) := by
  have hsize : (g.startLiteral b).units.size = g.units.size + 1 := by simp [startLiteral]
  have hlt : g.units.size < g₁.units.size := by
    have := h.units_size
    omega
  refine .of_grows { Grows.refl g with
    units := fun id hid => ?_
    finished := fun id hid hid' => ?_
    counted := ?_
    literals := Nat.le_trans (Nat.le_succ _) h.literals
    types := h.types
    functions := h.functions } rfl
  · show (g₁.units.setIfInBounds g.units.size (some v))[id]? = _
    rw [Array.getElem?_setIfInBounds_ne (Nat.ne_of_gt hid), h.units id (by omega)]
    exact Array.getElem?_push_lt hid ▸ (Array.getElem?_eq_getElem hid).symm
  · show ∃ v', (g₁.units.setIfInBounds g.units.size (some v))[id]? = _ ∧ _
    by_cases he : id = g.units.size
    · subst he
      exact ⟨v, Array.getElem?_setIfInBounds_self_of_lt hlt, hp⟩
    · rw [Array.getElem?_setIfInBounds_ne (Ne.symm he)]
      refine h.finished id (by omega) ?_
      simpa [endLiteral] using hid'
  · have hc := h.counted
    simp only [startLiteral, Array.size_push] at hc
    simp only [endLiteral, Array.size_setIfInBounds]
    omega

/-- The unit of a literal holds all that was written in it. -/
theorem Final.literal {code : Bytecode} {u v : CodeUnit} {g g₁ : Generator} {b : UnitBuilder}
    (h : Final code u (g.endLiteral g₁ v)) (hs : (g.startLiteral b).Extends g₁)
    (hv : Finished b g₁ v) : code.unit? g.units.size = some v ∧ Final code v g₁ := by
  have hsize : (g.startLiteral b).units.size = g.units.size + 1 := by
    simp [Generator.startLiteral]
  have hlt : g.units.size < g₁.units.size := by
    have := hs.units_size
    omega
  refine ⟨h.units _ v (Array.getElem?_setIfInBounds_self_of_lt hlt), ?_, hv.labels, ?_⟩
  · exact ⟨[terminatorOf b.returns], by rw [hv.ops, Array.toList_push]⟩
  · intro id w hw
    by_cases he : id = g.units.size
    · -- the unit itself is still without code while its body is written
      subst he
      have := hs.units g.units.size (by omega)
      rw [this] at hw
      simp [Generator.startLiteral] at hw
    · refine h.units id w ?_
      show (g₁.units.setIfInBounds g.units.size (some v))[id]? = _
      rw [Array.getElem?_setIfInBounds_ne (Ne.symm he), hw]

end Stackling
