import Stackling.Proofs.Code.Verifier
import Stackling.Proofs.Code.Writing
import Stackling.Proofs.Typing.Contexts

/-
  File:     Stackling/Proofs/Code/Balanced.lean
  Subject:  Units in work pass the verifier as far as they are written.

  The builder knows one depth, that of the code in a straight line. It is the depth on every
  way there: a jump leaves nothing on the stack, and a label is placed where nothing is on it.
  Whatever the table of types says, a step of the generator that succeeds keeps this.

  * `UnitBuilder.Balanced`    -- a unit in work;
  * `Generator.Balanced`      -- the generator, with the units that are finished;
  * `Generator.Leads`         -- a step to a balanced state of the generator;
  * `Generator.Leads.emit`, `.emitReturn`, `.emitJump` -- the steps;
  * `UnitBuilder.Balanced.finish` -- a unit that is finished.
-/
namespace Stackling

open Generate

/-! ## 1. Units in work -/

/-- A slot that there is. -/
def Slot.Within (e : Extent) : Slot → Prop
  | .arg index => index < e.args
  | .loc slot => slot < e.slots

theorem Slot.Within.mono {e e' : Extent} {s : Slot} (h : s.Within e) (he : e.Le e') :
    s.Within e' := by
  cases s with
  | arg => exact Nat.lt_of_lt_of_le h he.args
  | loc => exact Nat.lt_of_lt_of_le h he.slots

namespace UnitBuilder

/-- What a unit in work may name, in a program with so many cells and units. -/
def extent (b : UnitBuilder) (cells units : Nat) : Extent := ⟨b.arity, b.locals, cells, units⟩

/-- **A unit in work passes the verifier** as far as it is written. A jump goes to a label that
    stands behind it or is still to be placed. -/
structure Balanced (b : UnitBuilder) (cells units : Nat) : Prop where
  depth : b.depth = depthAfter b.ops.toList
  suits : ∀ (pc : Nat) (op : Op), b.ops[pc]? = some op →
    op.Suits (b.extent cells units) (depthAt b.ops pc)
  jumps : ∀ (pc : Nat) (op : Op) (l : Label), b.ops[pc]? = some op → op.target? = some l →
    l < b.labels.size ∧ depthAt b.ops (pc + 1) = 0 ∧
      ∀ offset, b.labels[l]? = some (some offset) → pc < offset
  labels : ∀ (l : Label) (offset : Nat), b.labels[l]? = some (some offset) →
    offset ≤ b.ops.size ∧ depthAt b.ops offset = 0
  slots : ∀ scope ∈ b.scopes, ∀ x ∈ scope, x.2.Within (b.extent cells units)

namespace Balanced

variable {b : UnitBuilder} {cells units cells' units' : Nat}

/-- A unit without code. -/
theorem new (hops : b.ops = #[]) (hdepth : b.depth = 0) (hlabels : b.labels = #[])
    (hscopes : b.scopes = []) : b.Balanced cells units where
  depth := by rw [hdepth, hops]; rfl
  suits pc op h := by simp [hops] at h
  jumps pc op l h := by simp [hops] at h
  labels l offset h := by simp [hlabels] at h
  slots scope h := by simp [hscopes] at h

theorem mono (h : b.Balanced cells units) (hc : cells ≤ cells') (hu : units ≤ units') :
    b.Balanced cells' units' :=
  have he : (b.extent cells units).Le (b.extent cells' units') :=
    ⟨Nat.le_refl _, Nat.le_refl _, hc, hu⟩
  { h with
    suits := fun pc op hop => (h.suits pc op hop).mono he
    slots := fun scope hs x hx => (h.slots scope hs x hx).mono he }

/-- **One more instruction,** which suits the depth; if it jumps, then to a label that is still
    to be placed, and nothing is left on the stack. -/
theorem push {op : Op} (h : b.Balanced cells units)
    (hs : op.Suits (b.extent cells units) b.depth)
    (hj : ∀ l, op.target? = some l →
      b.labels[l]? = some none ∧ b.depth - op.pops + op.pushes = 0) :
    ({ b with depth := b.depth - op.pops + op.pushes, ops := b.ops.push op } :
      UnitBuilder).Balanced cells units where
  depth := by
    rw [Array.toList_push, depthAfter_concat, ← h.depth]
  suits pc op' hop := by
    simp only [Array.getElem?_push] at hop
    split at hop
    · rename_i hpc
      cases hop
      rw [hpc, depthAt_push _ (Nat.le_refl _), depthAt_size, ← h.depth]
      exact hs
    · have hlt := (Array.getElem?_eq_some_iff.mp hop).1
      rw [depthAt_push _ (Nat.le_of_lt hlt)]
      exact h.suits pc op' hop
  jumps pc op' l hop ht := by
    simp only [Array.getElem?_push] at hop
    split at hop
    · rename_i hpc
      cases hop
      obtain ⟨hnone, hzero⟩ := hj l ht
      refine ⟨(Array.getElem?_eq_some_iff.mp hnone).1, ?_, fun offset ho => ?_⟩
      · have hlast : (b.ops.push op)[pc]? = some op := by rw [hpc, Array.getElem?_push_size]
        rw [depthAt_succ hlast, hpc, depthAt_push _ (Nat.le_refl _), depthAt_size, ← h.depth, hzero]
      · rw [hnone] at ho
        cases ho
    · have hlt := (Array.getElem?_eq_some_iff.mp hop).1
      rw [depthAt_push _ hlt]
      exact h.jumps pc op' l hop ht
  labels l offset hl := by
    obtain ⟨hle, hzero⟩ := h.labels l offset hl
    rw [depthAt_push _ hle, Array.size_push]
    exact ⟨Nat.le_succ_of_le hle, hzero⟩
  slots := h.slots

theorem makeLabel (h : b.Balanced cells units) : b.makeLabel.2.Balanced cells units :=
  { h with
    jumps := fun pc op l hop ht => by
      obtain ⟨hlt, hzero, hfwd⟩ := h.jumps pc op l hop ht
      refine ⟨by simpa [UnitBuilder.makeLabel] using Nat.lt_succ_of_lt hlt, hzero,
        fun offset ho => hfwd offset ?_⟩
      simpa [UnitBuilder.makeLabel, Array.getElem?_push, Nat.ne_of_lt hlt] using ho
    labels := fun l offset hl => by
      refine h.labels l offset ?_
      simp only [UnitBuilder.makeLabel, Array.getElem?_push] at hl
      split at hl
      · cases hl
      · exact hl }

/-- **A label is placed** where nothing is on the stack. -/
theorem placeLabel (h : b.Balanced cells units) (l : Label) (hd : b.depth = 0) :
    (b.placeLabel l).Balanced cells units :=
  have hget : ∀ (l' : Label) (offset : Nat), (b.placeLabel l).labels[l']? = some (some offset) →
      b.labels[l']? = some (some offset) ∨ offset = b.ops.size := by
    intro l' offset ho
    simp only [UnitBuilder.placeLabel, Array.getElem?_setIfInBounds] at ho
    split at ho
    · split at ho
      · exact .inr (by simpa using ho.symm)
      · cases ho
    · exact .inl ho
  { h with
    jumps := fun pc op l' hop ht => by
      obtain ⟨hlt, hzero, hfwd⟩ := h.jumps pc op l' hop ht
      refine ⟨by simpa [UnitBuilder.placeLabel] using hlt, hzero, fun offset ho => ?_⟩
      rcases hget l' offset ho with ho | rfl
      · exact hfwd offset ho
      · exact (Array.getElem?_eq_some_iff.mp hop).1
    labels := fun l' offset ho => by
      rcases hget l' offset ho with ho | rfl
      · exact h.labels l' offset ho
      · exact ⟨Nat.le_refl _, (depthAt_size b.ops).trans (h.depth.symm.trans hd)⟩ }

theorem enterScope (h : b.Balanced cells units) : b.enterScope.Balanced cells units :=
  { h with slots := List.forall_mem_cons.mpr ⟨nofun, h.slots⟩ }

theorem exitScope (h : b.Balanced cells units) : b.exitScope.Balanced cells units :=
  { h with slots := fun scope hs => h.slots scope (List.mem_of_mem_tail hs) }

theorem bind {name : String} {s : Slot} (h : b.Balanced cells units)
    (hs : s.Within (b.extent cells units)) : (b.bind name s).Balanced cells units := by
  unfold UnitBuilder.bind
  cases hb : b.scopes with
  | nil => exact h
  | cons scope rest =>
    have hslots := h.slots
    rw [hb, List.forall_mem_cons] at hslots
    exact { h with
      slots := List.forall_mem_cons.mpr ⟨List.forall_mem_cons.mpr ⟨hs, hslots.1⟩, hslots.2⟩ }

/-- More slots do no harm. -/
theorem addLocal (h : b.Balanced cells units) :
    ({ b with locals := b.locals + 1 } : UnitBuilder).Balanced cells units :=
  have he : (b.extent cells units).Le
      (({ b with locals := b.locals + 1 } : UnitBuilder).extent cells units) :=
    ⟨Nat.le_refl _, Nat.le_succ _, Nat.le_refl _, Nat.le_refl _⟩
  { h with
    suits := fun pc op hop => (h.suits pc op hop).mono he
    slots := fun scope hs x hx => (h.slots scope hs x hx).mono he }

theorem declareLocal (h : b.Balanced cells units) (name : String) :
    (b.declareLocal name).2.Balanced cells units := by
  have hsame : (b.declareLocal name).2 =
      ({ b with locals := b.locals + 1 } : UnitBuilder).bind name (.loc b.locals) := by
    unfold UnitBuilder.declareLocal UnitBuilder.bind
    cases hb : b.scopes <;> simp [hb]
  rw [hsame]
  exact h.addLocal.bind (Nat.lt_succ_self _)

theorem resolve {name : String} {s : Slot} (h : b.Balanced cells units)
    (hr : b.resolve? name = some s) : s.Within (b.extent cells units) := by
  obtain ⟨scope, hs, hx⟩ := List.exists_of_findSome?_eq_some hr
  exact h.slots scope hs (name, s) (mem_of_lookup hx)

end Balanced

end UnitBuilder

/-! ## 2. The generator -/

/-- A unit has the number that it stands under, and its last instruction tells whether it
    returns a value. -/
structure CodeUnit.FiledUnder (u : CodeUnit) (id : UnitId) : Prop where
  id : u.id = id
  last : u.ops.back? = some (if u.returns then .missingReturn else .retVoid)

namespace Generator

/-- What the unit in work may name. -/
def extent (g : Generator) : Extent := g.current.extent g.globalNames.size g.units.size

/-- **All that the generator holds passes the verifier,** the unit in work as far as it is
    written. -/
structure Balanced (g : Generator) : Prop where
  current : g.current.Balanced g.globalNames.size g.units.size
  units : ∀ (id : UnitId) (u : CodeUnit), g.units[id]? = some (some u) →
    u.Verified g.globalNames.size g.units.size (depthAt u.ops) ∧ u.Forward
  filed : ∀ (id : UnitId) (u : CodeUnit), g.units[id]? = some (some u) → u.FiledUnder id
  globals : ∀ x ∈ g.globals, x.2 < g.globalNames.size
  functions : ∀ f ∈ g.functions, f.unit < g.units.size

/-- From one state of the generator to a balanced one with no fewer cells and units. -/
structure Leads (g g' : Generator) : Prop where
  balanced : g'.Balanced
  cells : g.globalNames.size ≤ g'.globalNames.size
  units : g.units.size ≤ g'.units.size

theorem Balanced.refl {g : Generator} (h : g.Balanced) : g.Leads g :=
  ⟨h, Nat.le_refl _, Nat.le_refl _⟩

theorem Leads.trans {g g₁ g₂ : Generator} (h : g.Leads g₁) (h' : g₁.Leads g₂) : g.Leads g₂ :=
  ⟨h'.balanced, Nat.le_trans h.cells h'.cells, Nat.le_trans h.units h'.units⟩

/-- A step that changes the unit in work alone. -/
theorem Balanced.onCurrent {g : Generator} {b : UnitBuilder} (h : g.Balanced)
    (hb : b.Balanced g.globalNames.size g.units.size) :
    g.Leads { g with current := b } :=
  ⟨{ h with current := hb }, Nat.le_refl _, Nat.le_refl _⟩

/-- **What a name refers to is there.** -/
theorem Balanced.resolve {g : Generator} (h : g.Balanced) {name : String} {r : Resolved}
    (hr : g.resolve? name = some r) : r.load.Within g.extent := by
  unfold Generator.resolve? at hr
  split at hr
  · rename_i s hs
    cases hr
    have := h.current.resolve hs
    cases s <;> exact this
  · split at hr
    · rename_i cell hc
      cases hr
      exact h.globals _ (mem_of_lookup hc)
    · split at hr
      · rename_i f hf
        cases hr
        exact h.functions f (List.mem_of_find?_eq_some hf)
      · obtain ⟨b, -, rfl⟩ := Option.map_eq_some_iff.mp hr
        trivial

end Generator

theorem Resolved.load_straight (r : Resolved) : r.load.falls = true ∧ r.load.target? = none := by
  cases r with
  | slot s => cases s <;> exact ⟨rfl, rfl⟩
  | _ => exact ⟨rfl, rfl⟩

/-! ## 3. Steps -/

variable {g g' : Generator}

theorem emit_eq_ok {op : Op} {u : Unit} :
    emit op g = .ok (u, g') ↔ op.pops ≤ g.depth ∧ g' = g.put op := by
  constructor
  · intro h
    have hle : op.pops ≤ g.depth := by
      by_contra hlt
      have he : g.current.emit op = .error (.stackImbalance g.current.name op.pops g.depth) :=
        if_pos (Nat.not_le.mp hlt)
      obtain ⟨g₁, _, hg, h⟩ := bind_eq_ok.mp h
      cases hg
      obtain ⟨b, _, hb, -⟩ := bind_eq_ok.mp h
      rw [lift_eq_ok, he] at hb
      cases hb.1
    rw [emit_ok hle] at h
    cases h
    exact ⟨hle, rfl⟩
  · rintro ⟨hle, rfl⟩
    exact emit_ok hle

theorem typeOf_eq_ok {node : Node} {ty : Ty} :
    typeOf node g = .ok (ty, g') ↔ g.types.find? node.id = some ty ∧ g = g' := by
  unfold typeOf
  rw [bind_of_ok get_ok]
  cases h : g.types.find? node.id with
  | none => exact ⟨fun h => absurd h throw_ne_ok, nofun⟩
  | some ty' =>
    show (pure ty' : Generate Ty) g = _ ↔ _
    rw [pure_eq_ok]
    simp

theorem requireDepth_eq_ok {expected : Nat} {u : Unit} :
    requireDepth expected g = .ok (u, g') ↔ g.depth = expected ∧ g = g' := by
  unfold requireDepth
  rw [bind_of_ok get_ok]
  by_cases h : g.current.depth = expected
  · rw [if_neg (not_not.mpr h), pure_eq_ok]
    simp [Generator.depth, h]
  · rw [if_pos h]
    exact ⟨fun h' => absurd h' throw_ne_ok, fun h' => absurd h'.1 h⟩

/-- **An expression leaves as many values as its type is wide.** -/
theorem producing_inv {node : Node} {body : Ty → Generate Unit} {ty : Ty}
    (h : producing node body g = .ok (ty, g')) :
    g.types.find? node.id = some ty ∧ body ty g = .ok ((), g') ∧
      g'.depth = g.depth + ty.width := by
  obtain ⟨ty', g₀, ht, h⟩ := bind_eq_ok.mp h
  obtain ⟨htype, rfl⟩ := typeOf_eq_ok.mp ht
  obtain ⟨before, _, hb, h⟩ := bind_eq_ok.mp h
  cases hb
  obtain ⟨_, g₁, hbody, h⟩ := bind_eq_ok.mp h
  obtain ⟨_, g₂, hd, h⟩ := bind_eq_ok.mp h
  obtain ⟨hdepth, rfl⟩ := requireDepth_eq_ok.mp hd
  obtain ⟨rfl, rfl⟩ := pure_eq_ok.mp h
  exact ⟨htype, hbody, hdepth⟩

/-- **A statement leaves the depth as it was.** -/
theorem preserving_inv {body : Generate Unit} {u : Unit} (h : preserving body g = .ok (u, g')) :
    body g = .ok ((), g') ∧ g'.depth = g.depth := by
  obtain ⟨before, _, hb, h⟩ := bind_eq_ok.mp h
  cases hb
  obtain ⟨_, g₁, hbody, h⟩ := bind_eq_ok.mp h
  obtain ⟨hd, rfl⟩ := requireDepth_eq_ok.mp h
  exact ⟨hbody, hd⟩

namespace Generator.Leads

variable {g₀ : Generator}

/-- **An instruction that does not jump and does not leave its frame.** -/
theorem emit {op : Op} {u : Unit} (h : g₀.Leads g) (hrun : emit op g = .ok (u, g'))
    (hf : op.falls = true) (ht : op.target? = none) (hw : op.Within g.extent) : g₀.Leads g' := by
  obtain ⟨hle, rfl⟩ := emit_eq_ok.mp hrun
  have hs : op.Suits g.extent g.depth := by
    refine ⟨hle, ?_, ?_, hw⟩
    · rintro rfl
      cases hf
    · rintro (rfl | rfl) <;> cases hf
  refine h.trans (h.balanced.onCurrent (h.balanced.current.push hs fun l hl => ?_))
  rw [ht] at hl
  cases hl

/-- **A return** of the only value there is, or of none where there is none. -/
theorem emitReturn {op : Op} {u : Unit} (h : g₀.Leads g) (hrun : Generate.emit op g = .ok (u, g'))
    (hop : op = .ret ∧ g.depth = 1 ∨ op = .retVoid ∧ g.depth = 0) : g₀.Leads g' := by
  obtain ⟨hle, rfl⟩ := emit_eq_ok.mp hrun
  rcases hop with ⟨rfl, hd⟩ | ⟨rfl, hd⟩
  · have hs : Op.ret.Suits g.extent g.depth := ⟨hle, fun _ => hd, nofun, trivial⟩
    exact h.trans (h.balanced.onCurrent (h.balanced.current.push hs nofun))
  · have hs : Op.retVoid.Suits g.extent g.depth := ⟨hle, nofun, fun _ => hd, trivial⟩
    exact h.trans (h.balanced.onCurrent (h.balanced.current.push hs nofun))

/-- **A jump** that leaves nothing on the stack, to a label still to be placed. -/
theorem emitJump {op : Op} {l : Label} {u : Unit} (h : g₀.Leads g)
    (hrun : Generate.emit op g = .ok (u, g')) (hop : op = .jump l ∨ op = .jumpIf l)
    (hl : g.current.labels[l]? = some none) (hd : g'.depth = 0) : g₀.Leads g' := by
  obtain ⟨hle, rfl⟩ := emit_eq_ok.mp hrun
  have hs : op.Suits g.extent g.depth := by
    rcases hop with rfl | rfl <;> exact ⟨hle, nofun, nofun, trivial⟩
  have ht : op.target? = some l := by rcases hop with rfl | rfl <;> rfl
  refine h.trans (h.balanced.onCurrent (h.balanced.current.push hs fun l' hl' => ?_))
  obtain rfl : l = l' := Option.some.inj (ht.symm.trans hl')
  exact ⟨hl, hd⟩

end Generator.Leads

/-! ## 4. Whole units -/

theorem offsets_inv {unit : String} {label : Label} {l : List (Option Nat)} {os : List Nat}
    (h : UnitBuilder.offsets unit label l = .ok os) : l = os.map some := by
  induction l generalizing label os with
  | nil =>
    cases h
    rfl
  | cons o l ih =>
    cases o with
    | none => cases h
    | some offset =>
      rw [UnitBuilder.offsets] at h
      cases hr : UnitBuilder.offsets unit (label + 1) l with
      | error e =>
        rw [hr] at h
        cases h
      | ok rest =>
        rw [hr] at h
        cases h
        rw [ih hr, List.map_cons]

theorem terminatorOf_closes (returns : Ty) : (terminatorOf returns).closes := by
  unfold terminatorOf
  split
  · exact .inl rfl
  · exact .inr rfl

/-- What a unit is made of when it is finished. -/
theorem finish_inv {b : UnitBuilder} {u : CodeUnit} (h : b.finish = .ok u) :
    b.depth = 0 ∧ u.id = b.id ∧ u.name = b.name ∧ u.returns = (!b.returns.isVoid) ∧
      u.arity = b.arity ∧ u.locals = b.locals ∧ u.ops = b.ops.push (terminatorOf b.returns) ∧
      u.labels.size = b.labels.size ∧
        ∀ (l : Label) (o : Nat), u.offset? l = some o ↔ b.labels[l]? = some (some o) := by
  have hpops : b.terminator.pops = 0 ∧ b.terminator.pushes = 0 := by
    unfold UnitBuilder.terminator
    split <;> exact ⟨rfl, rfl⟩
  have he : b.emit b.terminator = .ok { b with ops := b.ops.push b.terminator } := by
    unfold UnitBuilder.emit
    rw [if_neg (by rw [hpops.1]; exact Nat.not_lt_zero _), hpops.1, hpops.2]
    rfl
  unfold UnitBuilder.finish at h
  rw [he] at h
  by_cases hd : b.depth = 0
  · cases ho : UnitBuilder.offsets b.name 0 b.labels.toList with
    | error e =>
      simp only [bind, Except.bind, hd, ho] at h
      cases h
    | ok os =>
      simp only [bind, Except.bind, hd, ho] at h
      cases h
      have hos := offsets_inv ho
      refine ⟨hd, rfl, rfl, rfl, rfl, rfl, rfl, ?_, fun l o => ?_⟩
      · rw [← @Array.length_toList _ b.labels, hos, List.length_map]
        rfl
      · rw [← Array.getElem?_toList, hos, List.getElem?_map]
        show os.toArray[l]? = some o ↔ _
        rw [List.getElem?_toArray]
        simp
  · simp only [bind, Except.bind, if_pos hd] at h
    cases h

/-- A unit that is finished has the number of its builder. -/
theorem UnitBuilder.finish_filed {b : UnitBuilder} {u : CodeUnit} (h : b.finish = .ok u) :
    u.FiledUnder b.id := by
  obtain ⟨-, hid, -, hreturns, -, -, hops, -⟩ := finish_inv h
  refine ⟨hid, ?_⟩
  rw [hops, Array.back?_push, hreturns, terminatorOf]
  cases b.returns.isVoid <;> rfl

/-- **A unit that is finished passes the verifier,** and its jumps go forward. -/
theorem UnitBuilder.Balanced.finish {b : UnitBuilder} {u : CodeUnit} {cells units : Nat}
    (h : b.Balanced cells units) (hf : b.finish = .ok u) :
    u.Verified cells units (depthAt u.ops) ∧ u.Forward := by
  obtain ⟨hd, -, -, -, harity, hlocals, hops, hcount, hlabels⟩ := finish_inv hf
  have hcloses := terminatorOf_closes b.returns
  have hsuits : (terminatorOf b.returns).Suits (b.extent cells units) b.depth := by
    rcases hcloses with ht | ht <;> rw [ht] <;>
      exact ⟨Nat.zero_le _, nofun, fun _ => hd, trivial⟩
  have hb := h.push hsuits fun l hl => by
    rcases hcloses with ht | ht <;> rw [ht] at hl <;> cases hl
  have hextent : u.extent cells units = b.extent cells units := by
    rw [CodeUnit.extent, UnitBuilder.extent, harity, hlocals]
  have hsize : u.ops.size = b.ops.size + 1 := by rw [hops, Array.size_push]
  have hlt : ∀ (l : Label) (o : Nat), u.offset? l = some o → o < u.ops.size := by
    intro l o ho
    rw [hsize]
    exact Nat.lt_succ_of_le (h.labels l o ((hlabels l o).mp ho)).1
  have hback : u.ops.back? = some (terminatorOf b.returns) := by rw [hops, Array.back?_push]
  refine ⟨⟨rfl, fun pc op hop => ?_, fun pc pc' op hop hgo => ?_, fun pc op l hop ht => ?_, hlt,
    _, hback, hcloses⟩, fun pc op l hop ht => ?_⟩
  · rw [hextent]
    rw [hops] at hop ⊢
    exact hb.suits pc op hop
  · cases hgo with
    | next hfalls =>
      refine ⟨?_, depthAt_succ hop⟩
      by_contra hge
      have hlast : pc = b.ops.size := by
        have := (Array.getElem?_eq_some_iff.mp hop).1
        omega
      rw [hops, hlast, Array.getElem?_push_size] at hop
      cases hop
      rcases hcloses with ht | ht <;> rw [ht] at hfalls <;> cases hfalls
    | jump ht ho =>
      refine ⟨hlt _ _ ho, ?_⟩
      rw [← depthAt_succ hop]
      rw [hops] at hop ⊢
      rw [(hb.jumps pc op _ hop ht).2.1]
      exact (hb.labels _ _ ((hlabels _ _).mp ho)).2
  · rw [hops] at hop
    have hl : l < u.labels.size := hcount ▸ (hb.jumps pc op l hop ht).1
    exact ⟨_, Array.getElem?_eq_getElem hl⟩
  · rw [hops] at hop
    obtain ⟨hlt, -, hforward⟩ := hb.jumps pc op l hop ht
    have hl : u.offset? l = some _ := Array.getElem?_eq_getElem (hcount ▸ hlt)
    exact ⟨_, hl, hforward _ ((hlabels l _).mp hl)⟩

end Stackling
