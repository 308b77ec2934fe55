import Stackling.Proofs.Run.Halting
import Stackling.Proofs.Run.PlacedCode

/-
  File:     Stackling/Proofs/Run/StateTyping.lean
  Subject:  States in which everything has the shape of its static type.

  Each frame stands at an offset that is typed with its operands, and its arguments, locals and
  the global cells have the types of their names. A step keeps this, or ends the run with a fault
  of the program's own.

  * `LocalsTyped`, `GlobalsTyped`  -- the values of names;
  * `FrameTyped`, `FramesTyped`    -- a frame, and all frames with the operands of each;
  * `StateTyped`                   -- a state;
  * `State.Framed`                 -- a state behind a step that has left alone what does not belong
                                      to the frame on top;
  * `StateTyped.step`              -- what a step leads to.
-/
namespace Stackling

variable (p : Program) (types : TypeTable) (code : Bytecode)

/-! ## 1. Typed states -/

/-- Locals that have not been stored are `void`, the others have the types of their slots; those
    in `M` have been stored. -/
structure LocalsTyped (locals : Array Value) (slots : List Ty) (M : Nat → Prop) : Prop where
  size : locals.size = slots.length
  shape : ∀ (slot : Nat) (v : Value) (ty : Ty), locals[slot]? = some v →
    slots[slot]? = some ty → v = .void ∨ v.Of p ty
  stored : ∀ (slot : Nat) (ty : Ty), M slot → slots[slot]? = some ty →
    ∃ v, locals[slot]? = some v ∧ v.Of p ty

/-- Global cells that have been stored hold values of the types of their names. -/
structure GlobalsTyped (globals : Array (Option Value)) : Prop where
  size : globals.size = p.cells.length
  shape : ∀ (cell : Nat) (v : Value) (name : String) (ty : Ty), globals[cell]? = some (some v) →
    p.cells[cell]? = some (name, ty) → v.Of p ty

/-- The unit of a callable, or the one that a run starts with. -/
inductive Program.Owns : UnitId → CallableDecl → Prop
  | callable {id c} (h : p.callables[id]? = some c) : Owns id c
  | entry : Owns code.entry entryCallable

/-- **A frame of the callable `c` stands before an instruction** that is typed with the
    operands. -/
structure FrameTyped (f : Frame) (c : CallableDecl) (S : List Operand) : Prop where
  owner : p.Owns code f.unit c
  args : List.Forall₂ (Value.Of p) f.args (paramTypes c.params)
  code : ∃ u M, code.unit? f.unit = some u ∧ CodeTyped p types u c f.next M S ∧
    LocalsTyped p f.locals c.slots M

/-- Frames, the latest first, and the values that stand for their operands. They go on when a
    call that returns a value of the type has ended. -/
inductive FramesTyped : Ty → List Value → List Frame → Prop
  | nil : FramesTyped .void [] []
  | cons {ty f c after S vs rest below} (hr : Operand.Returned types ty after)
      (hf : FrameTyped p types code f c (after ++ S))
      (hs : List.Forall₂ (Operand.Holds p types) vs S) (hbase : f.base = rest.length)
      (hb : FramesTyped c.returns rest below) : FramesTyped ty (vs ++ rest) (f :: below)

/-- **A state in which everything has the shape of its static type.** -/
structure StateTyped (s : State) : Prop where
  frames : FramesTyped p types code .void s.stack.items s.frames.items
  globals : GlobalsTyped p s.globals

/-- An outcome is a state of the given sort, the end of the run, or a fault of the program's
    own. -/
def Outcome.Leads (o : Outcome) (P : State → Prop) : Prop :=
  match o with
  | .running s => P s
  | .halted _ => True
  | .faulted f _ => f.isOwn = true

/-- An outcome is a typed state, the end of the run, or a fault of the program's own. -/
def Outcome.Typed (o : Outcome) : Prop := o.Leads (StateTyped p types code)

/-- **A step has kept to its frame:** of the frames `f :: below` it has changed `f` only, and of the
    operands none of those at the bottom, which were there before `f` was entered. The frame goes
    on, calls a unit, or is left with a result or without one. -/
inductive State.Framed (f : Frame) (below : List Frame) (bottom : List Value) : State → Prop
  | goes {f' vs globals sink} (hunit : f'.unit = f.unit) (hbase : f'.base = f.base) :
    Framed f below bottom (.of (vs ++ bottom) (f' :: below) globals sink)
  | enters {g : Frame} {vs globals sink} (hbase : g.base = (vs ++ bottom).length) :
    Framed f below bottom (.of (vs ++ bottom) (g :: f.moved :: below) globals sink)
  | returns {u v globals sink} (hat : f.At code u .ret) :
    Framed f below bottom (.of (v :: bottom) below globals sink)
  | ends {u globals sink} (hat : f.At code u .retVoid) :
    Framed f below bottom (.of bottom below globals sink)

variable {p types code}

theorem Outcome.Leads.mono {o : Outcome} {P Q : State → Prop} (h : o.Leads P)
    (hPQ : ∀ s, P s → Q s) : o.Leads Q := by
  cases o with
  | running s => exact hPQ s h
  | halted _ => trivial
  | faulted _ _ => exact h

/-! ## 2. Names -/

namespace LocalsTyped

variable {locals : Array Value} {slots : List Ty} {M : Nat → Prop}

theorem new (slots : List Ty) :
    LocalsTyped p (Array.replicate slots.length .void) slots fun _ => False where
  size := Array.size_replicate ..
  shape slot v ty hv _ := by
    rw [Array.getElem?_replicate] at hv
    split at hv <;> cases hv
    exact .inl rfl
  stored _ _ h := h.elim

/-- One more slot is stored. -/
theorem store {slot : Nat} {v : Value} {ty : Ty} (h : LocalsTyped p locals slots M)
    (hs : slots[slot]? = some ty) (hv : v.Of p ty) :
    LocalsTyped p (locals.setIfInBounds slot v) slots fun i => M i ∨ i = slot where
  size := (Array.size_setIfInBounds ..).trans h.size
  shape i w ty' hw hty' := by
    rw [Array.getElem?_setIfInBounds] at hw
    split at hw
    · rename_i hi
      subst hi
      split at hw
      · cases hw
        cases hs.symm.trans hty'
        exact .inr hv
      · cases hw
    · exact h.shape i w ty' hw hty'
  stored i ty' hi hty' := by
    have hlt : slot < locals.size := h.size ▸ (List.getElem?_eq_some_iff.mp hs).1
    by_cases he : slot = i
    · subst he
      cases hs.symm.trans hty'
      exact ⟨v, Array.getElem?_setIfInBounds_self_of_lt hlt, hv⟩
    · rw [Array.getElem?_setIfInBounds_ne he]
      exact h.stored i ty' (hi.resolve_right (Ne.symm he)) hty'

end LocalsTyped

/-- One more cell is stored. -/
theorem GlobalsTyped.store {globals : Array (Option Value)} {cell : Nat} {v : Value}
    {name : String} {ty : Ty} (h : GlobalsTyped p globals)
    (hc : p.cells[cell]? = some (name, ty)) (hv : v.Of p ty) :
    GlobalsTyped p (globals.setIfInBounds cell (some v)) where
  size := (Array.size_setIfInBounds ..).trans h.size
  shape i w name' ty' hw hc' := by
    rw [Array.getElem?_setIfInBounds] at hw
    split at hw
    · rename_i hi
      subst hi
      split at hw
      · cases hw
        cases hc.symm.trans hc'
        exact hv
      · cases hw
    · exact h.shape i w name' ty' hw hc'

/-- A cell of the program has been stored or not. -/
theorem GlobalsTyped.cell {globals : Array (Option Value)} {cell : Nat} {name : String} {ty : Ty}
    (h : GlobalsTyped p globals) (hc : p.cells[cell]? = some (name, ty)) :
    globals[cell]? = some none ∨ ∃ v, globals[cell]? = some (some v) ∧ v.Of p ty := by
  have hlt : cell < globals.size := h.size ▸ (List.getElem?_eq_some_iff.mp hc).1
  have hget := Array.getElem?_eq_getElem hlt
  cases hv : globals[cell] with
  | none => exact .inl (hget.trans (congrArg some hv))
  | some v =>
    have hsome := hget.trans (congrArg some hv)
    exact .inr ⟨v, hsome, h.shape cell v name ty hsome hc⟩

/-! ## 3. Frames -/

section

variable {f : Frame} {c : CallableDecl} {S : List Operand} {vs : List Value} {ty : Ty}
  {below : List Frame} {after : List Operand}

/-- **The caller goes on with a result.** -/
theorem FramesTyped.back {v : Value} (h : FramesTyped p types code ty vs below)
    (hv : v.Has p ty) : FramesTyped p types code .void (ty.put v vs) below := by
  cases h with
  | nil => exact .nil
  | cons hr hf hs hbase hb =>
    rcases hr with ⟨rfl, rfl⟩ | ⟨hne, e, rfl, ht⟩
    · exact .cons (.inl ⟨rfl, rfl⟩) hf hs hbase hb
    · rw [Ty.put_of_ne hne]
      exact .cons (.inl ⟨rfl, rfl⟩) hf (.cons (.value ht (hv.of hne)) hs) hbase hb

/-- **A callable is entered** with arguments of its types. -/
theorem FramesTyped.enter {id : UnitId} {w : CodeUnit} {args : List Value}
    (h : FramesTyped p types code c.returns vs below) (ho : p.Owns code id c)
    (hw : code.unit? id = some w) (he : Enterable p types w c)
    (ha : List.Forall₂ (Value.Of p) args (paramTypes c.params)) :
    FramesTyped p types code .void vs
      (⟨id, 0, args, Array.replicate w.locals .void, vs.length⟩ :: below) := by
  have hl : LocalsTyped p (Array.replicate w.locals .void) c.slots fun _ => False := by
    rw [he.locals]
    exact .new c.slots
  exact @FramesTyped.cons _ _ _ .void _ c [] [] [] vs below (.inl ⟨rfl, rfl⟩)
    ⟨ho, ha, w, _, hw, he.code, hl⟩ .nil rfl h

end

/-! ## 4. Steps -/

/-- Values for operands are values for the upper ones above values for the lower ones. -/
theorem exists_of_forall₂_append {α β : Type} {R : α → β → Prop} {l : List α} {l₁ l₂ : List β}
    (h : List.Forall₂ R l (l₁ ++ l₂)) :
    ∃ k₁ k₂, l = k₁ ++ k₂ ∧ List.Forall₂ R k₁ l₁ ∧ List.Forall₂ R k₂ l₂ :=
  ⟨l.take l₁.length, l.drop l₁.length, (List.take_append_drop _ _).symm,
    List.forall₂_take_append _ _ _ h, List.forall₂_drop_append _ _ _ h⟩

/-- A value for each operand is there. -/
theorem exists_of_forall₂_getElem? {α β : Type} {R : α → β → Prop} {l : List α} {l' : List β}
    {i : Nat} {b : β} (h : List.Forall₂ R l l') (hb : l'[i]? = some b) :
    ∃ a, l[i]? = some a ∧ R a b := by
  induction h generalizing i with
  | nil => cases hb
  | cons hr _ ih =>
    cases i with
    | zero =>
      cases hb
      exact ⟨_, rfl, hr⟩
    | succ i => exact ih hb

/-- What a frame has besides the offset it stands at and its own operands: the code it runs and
    the values of its names, above the values and the frames that its caller has left. -/
structure Frame.Executes (p : Program) (types : TypeTable) (code : Bytecode) (f : Frame)
    (u : CodeUnit) (c : CallableDecl) (M : Nat → Prop) (rest : List Value) (below : List Frame)
    (globals : Array (Option Value)) : Prop where
  owner : p.Owns code f.unit c
  args : List.Forall₂ (Value.Of p) f.args (paramTypes c.params)
  unit : code.unit? f.unit = some u
  locals : LocalsTyped p f.locals c.slots M
  base : f.base = rest.length
  below : FramesTyped p types code c.returns rest below
  globals : GlobalsTyped p globals

namespace Frame.Executes

variable {f : Frame} {u : CodeUnit} {c : CallableDecl} {M : Nat → Prop} {S : List Operand}
  {vs rest : List Value} {below : List Frame} {globals : Array (Option Value)} {sink : Sink}

/-- **The frame goes on** at an instruction that is typed with the operands it has now. -/
theorem goes (h : f.Executes p types code u c M rest below globals) {f' : Frame} {M' : Nat → Prop}
    {globals' : Array (Option Value)} (hunit : f'.unit = f.unit) (ha : f'.args = f.args)
    (hbase : f'.base = f.base) (hl : LocalsTyped p f'.locals c.slots M')
    (hcode : CodeTyped p types u c f'.next M' S) (hs : List.Forall₂ (Operand.Holds p types) vs S)
    (hg : GlobalsTyped p globals') :
    StateTyped p types code (.of (vs ++ rest) (f' :: below) globals' sink) ∧
      State.Framed code f below rest (.of (vs ++ rest) (f' :: below) globals' sink) := by
  have hf : FrameTyped p types code f' c ([] ++ S) :=
    ⟨hunit ▸ h.owner, ha ▸ h.args, u, M', hunit ▸ h.unit, hcode, hl⟩
  exact ⟨⟨.cons (.inl ⟨rfl, rfl⟩) hf hs (hbase.trans h.base) h.below, hg⟩, .goes hunit hbase⟩

/-- It goes on at its next instruction. -/
theorem moves (h : f.Executes p types code u c M rest below globals)
    (hcode : CodeTyped p types u c (f.next + 1) M S)
    (hs : List.Forall₂ (Operand.Holds p types) vs S) :
    StateTyped p types code (.of (vs ++ rest) (f.moved :: below) globals sink) ∧
      State.Framed code f below rest (.of (vs ++ rest) (f.moved :: below) globals sink) :=
  h.goes rfl rfl rfl h.locals hcode hs h.globals

/-- **The frame calls a unit,** whose result is still to come. -/
theorem calls (h : f.Executes p types code u c M rest below globals) {after : List Operand}
    {args : List Value} {id : UnitId} {callee : CallableDecl} {w : CodeUnit}
    (hr : Operand.Returned types callee.returns after)
    (hcode : CodeTyped p types u c (f.next + 1) M (after ++ S))
    (hs : List.Forall₂ (Operand.Holds p types) vs S) (hc : p.callables[id]? = some callee)
    (hw : code.unit? id = some w) (he : Enterable p types w callee)
    (ha : List.Forall₂ (Value.Of p) args (paramTypes callee.params)) :
    let next : State := .of (vs ++ rest)
      (⟨id, 0, args, Array.replicate w.locals .void, (vs ++ rest).length⟩ :: f.moved :: below)
      globals sink
    StateTyped p types code next ∧ State.Framed code f below rest next := by
  have hf : FrameTyped p types code f.moved c (after ++ S) :=
    ⟨h.owner, h.args, u, M, h.unit, hcode, h.locals⟩
  have hframes := FramesTyped.cons hr hf hs (show f.moved.base = rest.length from h.base) h.below
  exact ⟨⟨hframes.enter (.callable hc) hw he ha, h.globals⟩, .enters rfl⟩

end Frame.Executes

/-- **A step of a frame** whose operands stand on top of those at the bottom: what it leads to is
    typed, and the step has kept to its frame; or the run ends with a fault of the program's
    own. -/
theorem FrameTyped.step (hp : ProgramPlaced p types code) {limit : Nat} {f : Frame}
    {below : List Frame} {c : CallableDecl} {after S : List Operand} {vs rest : List Value}
    {globals : Array (Option Value)} {sink : Sink} (hr : Operand.Returned types .void after)
    (hf : FrameTyped p types code f c (after ++ S)) (hs : List.Forall₂ (Operand.Holds p types) vs S)
    (hbase : f.base = rest.length) (hb : FramesTyped p types code c.returns rest below)
    (hg : GlobalsTyped p globals) :
    (step code limit (.of (vs ++ rest) (f :: below) globals sink)).Leads fun s =>
      StateTyped p types code s ∧ State.Framed code f below rest s := by
  obtain rfl : after = [] := (hr.resolve_right fun h => h.1 rfl).2
  obtain ⟨howner, hargs, u, M, hu, hcode, hl⟩ := hf
  have hf : f.Executes p types code u c M rest below globals :=
    ⟨howner, hargs, hu, hl, hbase, hb, hg⟩
  generalize hpc : f.next = pc at hcode
  cases hcode with
  | computes hop hc ht next =>
    subst hpc
    obtain ⟨popped, vs, rfl, hneeds, hs⟩ := exists_of_forall₂_append hs
    obtain ⟨r, hgives, hres⟩ := hc.gives hp ht hneeds
    rw [List.append_assoc, step_gives ⟨hu, hop⟩ hc.ne.1 hgives]
    cases r with
    | ok v => exact hf.moves next (.cons hres hs)
    | error f => exact hres
  | loadArg hop hq ht next =>
    subst hpc
    obtain ⟨v, hv, hof⟩ := exists_of_forall₂_getElem? hargs
      ((List.getElem?_map ..).trans (congrArg _ hq))
    rw [step_loadArg ⟨hu, hop⟩ hv]
    exact hf.moves next (.cons (.value ht hof) hs)
  | loadLocal hop hm hslot ht next =>
    subst hpc
    obtain ⟨v, hv, hof⟩ := hl.stored _ _ hm hslot
    rw [step_loadLocal ⟨hu, hop⟩ hv]
    exact hf.moves next (.cons (.value ht hof) hs)
  | loadGlobal hop hc ht next =>
    subst hpc
    rcases hg.cell hc with hnone | ⟨v, hv, hof⟩
    · rw [step_loadGlobal_none ⟨hu, hop⟩ hnone]
      rfl
    · rw [step_loadGlobal ⟨hu, hop⟩ hv]
      exact hf.moves next (.cons (.value ht hof) hs)
  | storeLocal hop hslot next =>
    subst hpc
    obtain - | ⟨⟨_, hof⟩, hs⟩ := hs
    rw [List.cons_append, step_storeLocal ⟨hu, hop⟩]
    exact hf.goes rfl rfl rfl (hl.store hslot hof) next hs hg
  | storeGlobal hop hc next =>
    subst hpc
    obtain - | ⟨⟨_, hof⟩, hs⟩ := hs
    rw [List.cons_append, step_storeGlobal ⟨hu, hop⟩]
    exact hf.goes rfl rfl rfl hl next hs (hg.store hc hof)
  | pop hop next =>
    subst hpc
    obtain - | ⟨⟨_, hof⟩, hs⟩ := hs
    rw [List.cons_append, step_pop ⟨hu, hop⟩]
    exact hf.moves next hs
  | print hop next =>
    subst hpc
    obtain - | ⟨⟨_, hof⟩, hs⟩ := hs
    rw [List.cons_append, step_print ⟨hu, hop⟩]
    split
    · exact hf.moves next hs
    · rfl
  | jumpIf hop ho next target =>
    subst hpc
    obtain - | ⟨hcond, hs⟩ := hs
    cases hcond with
    | @negated b =>
      rw [List.cons_append, step_jumpIf ⟨hu, hop⟩ ho]
      cases b with
      | false => exact hf.moves next hs
      | true => exact hf.goes rfl rfl rfl hl target hs hg
  | jump hop ho target =>
    subst hpc
    rw [step_jump ⟨hu, hop⟩ ho]
    exact hf.goes rfl rfl rfl hl target hs hg
  | call hop hc hlen hret next =>
    subst hpc
    obtain ⟨popped, vs, rfl, hneeds, hbelow⟩ := exists_of_forall₂_append hs
    obtain ⟨vals, rfl, hvals⟩ := holds_argOperands hneeds hlen
    obtain ⟨w, hw, he⟩ := hp.coded hc
    rw [hlen, ← hvals.length_eq] at hop
    rw [List.append_assoc, step_call ⟨hu, hop⟩ hw (he.takes hvals)]
    split
    · rfl
    · exact hf.calls hret next hbelow hc hw he hvals
  | callValue hop hlen hret next =>
    subst hpc
    obtain ⟨popped, vs, rfl, hneeds, hbelow⟩ := exists_of_forall₂_append hs
    obtain ⟨vals, rfl, hvals⟩ := holds_argOperands hneeds hlen
    obtain - | ⟨⟨_, hof⟩, hbelow⟩ := hbelow
    rw [hlen, ← hvals.length_eq] at hop
    obtain ⟨id, callee, rfl, hcallee, rfl, rfl⟩ | ⟨b, rfl, rfl, rfl⟩ := hof.fn_inv
    · obtain ⟨w, hw, he⟩ := hp.coded hcallee.callable
      rw [List.append_assoc, List.cons_append, step_callIndirect ⟨hu, hop⟩ hw (he.takes hvals)]
      split
      · rfl
      · exact hf.calls hret next hbelow hcallee.callable hw he hvals
    · have hyields := (b.typed_signature.yields hvals).2
      have hne : b.returns ≠ .void := by cases b <;> exact nofun
      obtain ⟨e, rfl, ht⟩ := (hret.resolve_left fun h => hne h.1).2
      rw [List.append_assoc, List.cons_append, step_callIndirect_builtin ⟨hu, hop⟩]
      cases hb' : b.apply vals with
      | ok v =>
        rw [hb'] at hyields
        exact hf.moves next (.cons (.value ht hyields) hbelow)
      | error f =>
        rw [hb'] at hyields
        exact hyields
  | ret hop hret =>
    subst hpc
    obtain - | ⟨⟨_, hof⟩, - | _⟩ := hs
    have hback := hb.back hof.has
    rw [Ty.put_of_ne hret] at hback
    rw [List.cons_append, @step_ret _ _ _ _ _ rest _ _ _ [] ⟨hu, hop⟩ hbase]
    exact ⟨⟨hback, hg⟩, .returns ⟨hu, hop⟩⟩
  | retVoid hop hret =>
    subst hpc
    cases hs
    rw [@step_retVoid _ _ _ _ _ rest _ _ [] ⟨hu, hop⟩ hbase]
    exact ⟨⟨hret ▸ hb, hg⟩, .ends ⟨hu, hop⟩⟩

/-- **A step of a typed state** leads to a typed state, or ends the run with a fault of the
    program's own. -/
theorem FramesTyped.step (hp : ProgramPlaced p types code) {limit : Nat} {vs : List Value}
    {fs : List Frame} {globals : Array (Option Value)} {sink : Sink}
    (h : FramesTyped p types code .void vs fs) (hg : GlobalsTyped p globals) :
    Outcome.Typed p types code (step code limit (.of vs fs globals sink)) := by
  cases h with
  | nil => trivial
  | cons hr hf hs hbase hb => exact (hf.step hp hr hs hbase hb hg).mono fun _ h => h.1

section

variable {limit : Nat} {sink : Sink} {s : State}

theorem StateTyped.step (hp : ProgramPlaced p types code) (h : StateTyped p types code s) :
    Outcome.Typed p types code (Stackling.step code limit s) := by
  rw [s.eq_of]
  exact h.frames.step hp h.globals

/-- **A step of a typed state keeps to the frame on top.** -/
theorem StateTyped.framed {s' : State} (hp : ProgramPlaced p types code)
    (h : StateTyped p types code s) (hs : Stackling.step code limit s = .running s') {f : Frame}
    {below : List Frame} (hf : s.frames.items = f :: below) :
    ∃ vs bottom, s.stack.items = vs ++ bottom ∧ f.base = bottom.length ∧
      State.Framed code f below bottom s' := by
  obtain ⟨hframes, hglobals⟩ := h
  rw [s.eq_of] at hs
  rw [hf] at hframes hs
  generalize s.stack.items = items at hframes hs
  cases hframes with
  | @cons _ _ _ _ _ vs rest _ hr hframe hops hbase hb =>
    have hlead := @FrameTyped.step _ _ _ hp limit _ _ _ _ _ _ _ _ s.sink hr hframe hops hbase hb
      hglobals
    rw [hs] at hlead
    exact ⟨vs, rest, rfl, hbase, hlead.2⟩

/-- **The first state is typed.** -/
theorem StateTyped.start (hp : ProgramPlaced p types code)
    (h : (State.initial code sink).enter code limit code.entry [] = .ok s) :
    StateTyped p types code s := by
  obtain ⟨-, w, hw, -, rfl⟩ := State.enter_inv h
  obtain ⟨u, hu, he⟩ := hp.entry_coded
  cases hw.symm.trans hu
  have hsize : code.globals.size = p.cells.length := by
    rw [← Array.length_toList, hp.globals, List.length_map]
  refine ⟨FramesTyped.enter (c := entryCallable) .nil .entry hw he .nil, ⟨?_, ?_⟩⟩
  · exact Array.size_replicate.trans hsize
  · intro cell v name ty hv _
    simp only [State.initial, Array.getElem?_replicate] at hv
    split at hv <;> cases hv

/-- **Every state of a run is typed.** -/
theorem Reachable.typed (hp : ProgramPlaced p types code) (h : Reachable code limit sink s) :
    StateTyped p types code s := by
  induction h with
  | start h => exact .start hp h
  | next _ hs ih =>
    have htyped := @StateTyped.step _ _ _ limit _ hp ih
    rwa [hs] at htyped

/-- **A typed state ends without a fault but the program's own.** -/
theorem StateTyped.ends (hp : ProgramPlaced p types code) (h : StateTyped p types code s) {n : Nat}
    {e : Execution} (he : Ends code limit n s e) :
    e.ending = .done ∨ ∃ f, e.ending = .fault f ∧ f.isOwn = true := by
  induction he with
  | done => exact .inl rfl
  | fault hf =>
    have htyped := @StateTyped.step _ _ _ limit _ hp h
    rw [hf] at htyped
    exact .inr ⟨_, rfl, htyped⟩
  | more hr _ ih =>
    have htyped := @StateTyped.step _ _ _ limit _ hp h
    rw [hr] at htyped
    exact ih htyped

/-- No operand is `void`. -/
theorem FramesTyped.operands {ty : Ty} {vs : List Value} {fs : List Frame}
    (h : FramesTyped p types code ty vs fs) : ∀ v ∈ vs, v ≠ .void := by
  induction h with
  | nil => exact nofun
  | cons _ _ hs _ _ ih =>
    have hall := hs.imp fun _ _ ho => And.intro ho.ne_void ho
    exact List.forall_mem_append.mpr ⟨((List.forall₂_and_left _ _).mp hall).1, ih⟩

/-- **What an operand refers to** is a function or a literal. -/
theorem FramesTyped.callee {ty : Ty} {vs : List Value} {fs : List Frame}
    (h : FramesTyped p types code ty vs fs) {id : UnitId} {name : String}
    (hv : .callable (.unit id name) ∈ vs) : ∃ c, p.Callee id c := by
  induction h with
  | nil => cases hv
  | cons _ _ hs _ _ ih =>
    rcases List.mem_append.mp hv with hv | hv
    · obtain ⟨i, hi⟩ := List.getElem?_of_mem hv
      obtain ⟨o, -, ho⟩ := exists_of_forall₂_getElem? hs.flip hi
      cases ho with
      | value _ hof => exact hof.callee
    · exact ih hv

/-- **A local that is loaded has been stored.** -/
theorem StateTyped.loads {f : Frame} {rest : List Frame} {u : CodeUnit} {slot : Nat}
    (h : StateTyped p types code s) (hs : s.frames.items = f :: rest)
    (hat : f.At code u (.loadLocal slot)) : ∃ v, f.locals[slot]? = some v ∧ v ≠ .void := by
  have hframes := h.frames
  rw [hs] at hframes
  generalize s.stack.items = vs at hframes
  cases hframes with
  | cons _ hf _ _ _ =>
    obtain ⟨-, -, w, M, hw, hcode, hl⟩ := hf
    cases hw.symm.trans hat.unit
    obtain ⟨hm, ty, hty⟩ := hcode.loads hat.op
    obtain ⟨v, hv, hof⟩ := hl.stored slot ty hm hty
    exact ⟨v, hv, hof.value_ne_void⟩

end

end Stackling
