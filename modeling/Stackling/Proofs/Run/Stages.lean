import Stackling.Proofs.Code.CellStores
import Stackling.Proofs.Run.Following
import Stackling.Proofs.Run.StateTyping

/-
  File:     Stackling/Proofs/Run/Stages.lean
  Subject:  The stages of a run.

  A run calls the statements at top level, then `main`, and neither of them again: no value
  refers to their units. The cells that have been stored are those whose place the frame of the
  statements at top level has passed.

  * `Changes`        -- what a step does to the frames and to the cells;
  * `Base`           -- the lowest frames of a run, stage by stage;
  * `AtStage`        -- a state at a stage, with the cells that have been stored by then;
  * `AtStage.step`   -- a step leads to the same stage or to the next one;
  * `Reachable.atStage` -- so every state is at a stage.
-/
namespace Stackling

/-! ## 1. What a step changes -/

/-- **What a step does to the frames and to the cells,** when the frame `f` stands before an
    instruction of the unit `u`. -/
inductive Changes (p : Program) (s : State) (f : Frame) (rest : List Frame) (u : CodeUnit)
    (op : Op) (s' : State) : Prop
  | goes {f'} (hf : s'.frames.items = f' :: rest) (hu : f'.unit = f.unit)
      (hgo : u.Goes f.next op f'.next) (hs : ∀ cell, op ≠ .storeGlobal cell)
      (hc : ∀ id arity returns, op ≠ .call id arity returns) (hg : s'.globals = s.globals)
  | stores {cell v} (hop : op = .storeGlobal cell) (hf : s'.frames.items = f.moved :: rest)
      (hg : s'.globals = s.globals.setIfInBounds cell (some v))
  | enters {g} (hf : s'.frames.items = g :: f.moved :: rest) (hn : g.next = 0)
      (hid : (∃ arity returns, op = .call g.unit arity returns) ∨
        (∃ arity returns, op = .callIndirect arity returns) ∧ ∃ c, p.Callee g.unit c)
      (hg : s'.globals = s.globals)
  | leaves (hop : op = .ret ∨ op = .retVoid) (hf : s'.frames.items = rest)
      (hg : s'.globals = s.globals)

theorem Op.ne_of_keeps {op : Op} (h : op.keeps = true) : (∀ cell, op ≠ .storeGlobal cell) ∧
    ∀ id arity returns, op ≠ .call id arity returns := by
  constructor <;> rintro _ <;> intros <;> rintro rfl <;> cases h

theorem Op.ne_of_target {op : Op} {l : Label} (h : op.target? = some l) :
    (∀ cell, op ≠ .storeGlobal cell) ∧ ∀ id arity returns, op ≠ .call id arity returns := by
  constructor <;> rintro _ <;> intros <;> rintro rfl <;> cases h

variable {p : Program} {types : TypeTable} {code : Bytecode} {limit : Nat} {s s' : State}

/-- **A step changes nothing else.** -/
theorem StateTyped.changes (ht : StateTyped p types code s)
    (h : Stackling.step code limit s = .running s') : ∃ f rest u op,
      s.frames.items = f :: rest ∧ f.At code u op ∧ Changes p s f rest u op s' := by
  obtain ⟨f, rest, u, op, hframes, hat, hm⟩ := step_moves h
  refine ⟨f, rest, u, op, hframes, hat, ?_⟩
  have hadvance := State.advance_items hframes
  cases hm with
  | operands stack hk =>
    obtain ⟨hs, hc⟩ := Op.ne_of_keeps hk
    exact .goes hadvance rfl (.next (Op.falls_of_keeps hk)) hs hc rfl
  | storeLocal stack =>
    exact .goes (Pile.items_mapTop _ hadvance) rfl (.next rfl) (by simp) (by simp) rfl
  | storeGlobal stack => exact .stores rfl hadvance rfl
  | jumps stack htarget ho =>
    obtain ⟨hs, hc⟩ := Op.ne_of_target htarget
    exact .goes (Pile.items_mapTop _ hadvance) rfl (.jump htarget ho) hs hc rfl
  | @enters _ id args s₁ _ hcalls he =>
    obtain ⟨-, hs₁⟩ := hcalls.spec
    obtain ⟨-, v, -, -, rfl⟩ := State.enter_inv he
    have hframes₁ : s₁.frames = s.advance.frames := hs₁ ▸ rfl
    have hglobals₁ : s₁.globals = s.globals := hs₁ ▸ rfl
    refine .enters (g := ⟨id, 0, args, Array.replicate v.locals .void, s₁.stack.size⟩) ?_ rfl ?_
      hglobals₁
    · rw [Pile.items_push, hframes₁, hadvance]
    · cases hcalls with
      | direct => exact .inl ⟨_, _, rfl⟩
      | indirect hstack =>
        have hmem : _ ∈ s.stack.items := hstack ▸ List.mem_append_right _ List.mem_cons_self
        exact .inr ⟨⟨_, _, rfl⟩, ht.frames.callee hmem⟩
  | leaves stack result hop =>
    refine .leaves hop (@State.leave_frames { s.advance with stack } _ _ result hadvance) ?_
    unfold State.leave
    cases result <;> split <;> rfl
  | prints stack sink => exact .goes hadvance rfl (.next rfl) (by simp) (by simp) rfl

/-! ## 2. Stages -/

/-- A frame of a function or of a literal. -/
structure Frame.Apart (p : Program) (code : Bytecode) (f : Frame) : Prop where
  entry : f.unit ≠ code.entry
  globals : f.unit ≠ p.globalsUnit
  main : f.unit ≠ p.mainUnit

/-- **The lowest frames of a run,** and the offset in the unit `u` of the statements at top level
    that control has come to: before that unit is called (0), in it (1), behind it (2), in `main`
    (3), behind it (4), and at the end (5). -/
inductive Base (p : Program) (code : Bytecode) (u : CodeUnit) : Nat → List Frame → Nat → Prop
  | start {e} (he : e.unit = code.entry) (hn : e.next = 0) : Base p code u 0 [e] 0
  | globals {g e n} (hg : g.unit = p.globalsUnit) (he : e.unit = code.entry) (hn : e.next = 1)
      (hnext : n = g.next) : Base p code u 1 [g, e] n
  | between {e} (he : e.unit = code.entry) (hn : e.next = 1) : Base p code u 2 [e] u.ops.size
  | main {m e} (hm : m.unit = p.mainUnit) (he : e.unit = code.entry) (hn : e.next = 2) :
      Base p code u 3 [m, e] u.ops.size
  | last {e} (he : e.unit = code.entry) (hn : e.next = 2) : Base p code u 4 [e] u.ops.size
  | ended : Base p code u 5 [] u.ops.size

/-- The cells that have been stored are those whose place control has come behind. -/
def Filled (p : Program) (place : Nat → Nat) (globals : Array (Option Value)) (n : Nat) : Prop :=
  ∀ cell < p.cells.length, (∃ v, globals[cell]? = some (some v)) ↔ place cell < n

/-- **A state at a stage:** during the statements at top level and during `main`, frames of
    functions and literals stand above the lowest ones. -/
inductive AtStage (p : Program) (code : Bytecode) (u : CodeUnit) (place : Nat → Nat) (k : Nat)
    (s : State) : Prop
  | mk {above bottom n} (hf : s.frames.items = above ++ bottom) (hb : Base p code u k bottom n)
      (hg : Filled p place s.globals n) (ha : ∀ f ∈ above, f.Apart p code)
      (hk : above ≠ [] → k = 1 ∨ k = 3)

/-- What a cell holds is kept. -/
def Kept (globals globals' : Array (Option Value)) : Prop :=
  ∀ (cell : Nat) (v : Value), globals[cell]? = some (some v) → globals'[cell]? = some (some v)

theorem Kept.of_eq {globals globals' : Array (Option Value)} (h : globals' = globals) :
    Kept globals globals' := fun _ _ hv => h ▸ hv

variable {u : CodeUnit} {place : Nat → Nat} {k n : Nat}

/-- Only the lowest frames are there. -/
theorem AtStage.lowest {bottom : List Frame} (hf : s.frames.items = bottom)
    (hb : Base p code u k bottom n) (hg : Filled p place s.globals n) :
    AtStage p code u place k s :=
  @mk _ _ _ _ _ _ [] bottom n hf hb hg nofun (fun h => absurd rfl h)

/-! ## 3. What is called -/

namespace ProgramPlaced

/-- The unit that a run starts with is that of no callable. -/
theorem entry_ne (h : ProgramPlaced p types code) :
    code.entry ≠ p.globalsUnit ∧ code.entry ≠ p.mainUnit :=
  ⟨(h.ne_entry Program.callable_globals).symm, (h.ne_entry Program.callable_main).symm⟩

/-- What values refer to is apart. -/
theorem apart (h : ProgramPlaced p types code) {f : Frame} {c : CallableDecl}
    (hc : p.Callee f.unit c) : f.Apart p code :=
  ⟨h.ne_entry hc.callable, hc.ne.1, hc.ne.2⟩

/-- **No other unit calls anything but functions and literals.** -/
theorem enters_apart (h : ProgramPlaced p types code) {f g : Frame} {w : CodeUnit} {op : Op}
    (hat : f.At code w op) (hne : f.unit ≠ code.entry)
    (hid : (∃ arity returns, op = .call g.unit arity returns) ∨
      (∃ arity returns, op = .callIndirect arity returns) ∧ ∃ c, p.Callee g.unit c) :
    g.Apart p code := by
  rcases hid with ⟨arity, returns, rfl⟩ | ⟨-, c, hc⟩
  · obtain ⟨c, hc⟩ := (h.units_cases hat.unit).resolve_right hne
    obtain ⟨fn, hfn⟩ := h.calls hc hat.unit hat.op
    exact h.apart (.function hfn)
  · exact h.apart hc

end ProgramPlaced

/-- **The steps of the unit that a run starts with:** it calls the statements at top level, then
    `main`, and is left. -/
inductive Begins (p : Program) (f : Frame) (rest frames : List Frame) : Prop
  | globals {g} (hn : f.next = 0) (hf : frames = g :: f.moved :: rest)
      (hg : g.unit = p.globalsUnit) (h0 : g.next = 0)
  | main {m} (hn : f.next = 1) (hf : frames = m :: f.moved :: rest) (hm : m.unit = p.mainUnit)
  | leaves (hn : f.next = 2) (hf : frames = rest)

theorem Changes.begins {f : Frame} {rest : List Frame} {w : CodeUnit} {op : Op}
    (h : Changes p s f rest w op s') (hp : ProgramPlaced p types code) (hat : f.At code w op)
    (he : f.unit = code.entry) : s'.globals = s.globals ∧ Begins p f rest s'.frames.items := by
  have hop := hp.entry_op (he ▸ hat.unit) hat.op
  cases h with
  | @goes f' _ _ hgo _ hc =>
    obtain ⟨-, rfl⟩ | ⟨-, rfl⟩ | ⟨-, rfl⟩ := hop
    · exact absurd rfl (hc _ _ _)
    · exact absurd rfl (hc _ _ _)
    · generalize f'.next = next at hgo
      rcases hgo with h | h <;> cases h
  | stores hstore => obtain ⟨-, rfl⟩ | ⟨-, rfl⟩ | ⟨-, rfl⟩ := hop <;> cases hstore
  | @enters g hf h0 hid hg =>
    refine ⟨hg, ?_⟩
    rcases hid with ⟨arity, returns, rfl⟩ | ⟨⟨arity, returns, rfl⟩, -⟩
    · obtain ⟨hn, hcall⟩ | ⟨hn, hcall⟩ | ⟨-, hcall⟩ := hop
      · exact .globals hn hf (Op.call.inj hcall).1 h0
      · exact .main hn hf (Op.call.inj hcall).1
      · cases hcall
    · obtain ⟨-, hcall⟩ | ⟨-, hcall⟩ | ⟨-, hcall⟩ := hop <;> cases hcall
  | leaves hret hf hg =>
    obtain ⟨-, rfl⟩ | ⟨-, rfl⟩ | ⟨hn, rfl⟩ := hop
    · rcases hret with h | h <;> cases h
    · rcases hret with h | h <;> cases h
    · exact ⟨hg, .leaves hn hf⟩

/-! ## 4. From stage to stage -/

namespace Filled

variable {globals : Array (Option Value)} {n n' : Nat}

/-- Where control comes behind no place nothing is stored. -/
theorem mono (h : Filled p place globals n)
    (hn : ∀ cell < p.cells.length, place cell < n' ↔ place cell < n) :
    Filled p place globals n' :=
  fun cell hlt => (h cell hlt).trans (hn cell hlt).symm

/-- **A store fills its cell** and no other. -/
theorem store (h : Filled p place globals n) (hs : CellStores p code u place)
    (hsize : globals.size = p.cells.length) {cell : Nat} {v : Value} (hlt : cell < p.cells.length)
    (hn : n = place cell) : Filled p place (globals.setIfInBounds cell (some v)) (n + 1) := by
  intro i hi
  by_cases he : cell = i
  · subst he
    rw [Array.getElem?_setIfInBounds_self_of_lt (hsize ▸ hlt)]
    exact ⟨fun _ => hn ▸ Nat.lt_succ_self _, fun _ => ⟨v, rfl⟩⟩
  · have hne : place i ≠ n := by
      intro hp
      have hop := hs.store cell hlt
      rw [← hn, ← hp, hs.store i hi] at hop
      cases hop
      exact he rfl
    rw [Array.getElem?_setIfInBounds_ne he, h i hi]
    omega

/-- The cell that is stored has held nothing. -/
theorem kept (h : Filled p place globals n) {cell : Nat} {v : Value}
    (hlt : cell < p.cells.length) (hn : n = place cell) :
    Kept globals (globals.setIfInBounds cell (some v)) := by
  intro i w hw
  rw [Array.getElem?_setIfInBounds_ne, hw]
  rintro rfl
  exact Nat.lt_irrefl _ (hn ▸ (h cell hlt).mp ⟨w, hw⟩)

end Filled

/-- Another instruction than a store lies behind as many places as it leads behind. -/
theorem CellStores.passes (hs : CellStores p code u place) {i next : Nat} {op : Op}
    (hop : u.ops[i]? = some op) (hgo : u.Goes i op next) (hne : ∀ cell, op ≠ .storeGlobal cell) :
    ∀ cell < p.cells.length, place cell < next ↔ place cell < i := by
  intro cell hlt
  have hplace : place cell ≠ i := by
    rintro rfl
    exact hne cell (Option.some.inj (hop.symm.trans (hs.store cell hlt)))
  rw [hs.unskipped cell hlt i op next hop hgo]
  exact ⟨fun hle => Nat.lt_of_le_of_ne hle hplace, Nat.le_of_lt⟩

/-- **A step of the statements at top level:** control goes on in their unit, enters a function or
    a literal, or leaves at the end. -/
theorem AtStage.step_globals (hp : ProgramPlaced p types code) (hs : CellStores p code u place)
    (hsize : s.globals.size = p.cells.length) {f e : Frame} {op : Op}
    (hg : f.unit = p.globalsUnit) (he : e.unit = code.entry) (hn : e.next = 1)
    (hfilled : Filled p place s.globals f.next) (hat : f.At code u op)
    (hchanges : Changes p s f [e] u op s') :
    (∃ k' ≥ 1, AtStage p code u place k' s') ∧ Kept s.globals s'.globals := by
  have hne : f.unit ≠ code.entry := hg ▸ hp.entry_ne.1.symm
  cases hchanges with
  | goes hf hunit hgo hstore _ hsame =>
    have hpass := hs.passes hat.op hgo hstore
    exact ⟨⟨1, Nat.le_refl 1, .lowest hf (.globals (hunit.trans hg) he hn rfl)
      (hsame ▸ hfilled.mono hpass)⟩, .of_eq hsame⟩
  | @stores cell v hop hf hset =>
    subst hop
    obtain ⟨hlt, -, hplace⟩ := hs.only _ _ _ _ hat.unit hat.op
    exact ⟨⟨1, Nat.le_refl 1, .lowest hf (.globals hg he hn rfl)
      (hset ▸ hfilled.store hs hsize hlt hplace)⟩, hset ▸ hfilled.kept hlt hplace⟩
  | @enters g hf _ hid hsame =>
    have hfalls : op.falls = true := by
      obtain ⟨_, _, rfl⟩ | ⟨⟨_, _, rfl⟩, -⟩ := hid <;> rfl
    have hstore : ∀ cell, op ≠ .storeGlobal cell := by
      obtain ⟨_, _, rfl⟩ | ⟨⟨_, _, rfl⟩, -⟩ := hid <;> exact nofun
    have hpass := hs.passes hat.op (.next hfalls) hstore
    have hapart := List.forall_mem_singleton.mpr (hp.enters_apart hat hne hid)
    exact ⟨⟨1, Nat.le_refl 1, @AtStage.mk _ _ _ _ _ _ [g] _ _ hf (.globals hg he hn rfl)
      (hsame ▸ hfilled.mono hpass) hapart fun _ => .inl rfl⟩, .of_eq hsame⟩
  | leaves hret hf hsame =>
    have hend : u.ops.size = f.next + 1 := (hs.returns _ _ hat.op hret).symm
    have hpass : ∀ cell < p.cells.length, place cell < u.ops.size ↔ place cell < f.next := by
      intro cell hlt
      have hplace : place cell ≠ f.next := by
        intro heq
        have hop := hs.store cell hlt
        rw [heq, hat.op] at hop
        cases hop
        rcases hret with h | h <;> cases h
      omega
    exact ⟨⟨2, by omega, .lowest hf (.between he hn) (hsame ▸ hfilled.mono hpass)⟩,
      .of_eq hsame⟩

/-- **A step leads to the same stage or to a later one,** and what a cell holds is kept. -/
theorem AtStage.step (h : AtStage p code u place k s) (hp : ProgramPlaced p types code)
    (hs : CellStores p code u place) (ht : StateTyped p types code s)
    (hstep : Stackling.step code limit s = .running s') :
    (∃ k' ≥ k, AtStage p code u place k' s') ∧ Kept s.globals s'.globals := by
  obtain ⟨f, rest, w, op, hframes, hat, hchanges⟩ := ht.changes hstep
  obtain @⟨above, bottom, n, hf, hbase, hfilled, habove, hk⟩ := h
  have nostore : f.unit ≠ p.globalsUnit → ∀ cell, op ≠ .storeGlobal cell := by
    rintro hne cell rfl
    exact hne (hs.only _ _ _ _ hat.unit hat.op).2.1
  rw [hframes] at hf
  cases above with
  | cons f' above =>
    rw [List.cons_append, List.cons.injEq] at hf
    obtain ⟨rfl, rfl⟩ := hf
    obtain ⟨hapart, habove⟩ := List.forall_mem_cons.mp habove
    have stays : ∀ {above' : List Frame}, s'.frames.items = above' ++ bottom →
        (∀ f ∈ above', f.Apart p code) → s'.globals = s.globals →
        (∃ k' ≥ k, AtStage p code u place k' s') ∧ Kept s.globals s'.globals :=
      fun hf' ha' hsame => ⟨⟨k, Nat.le_refl k, .mk hf' hbase (hsame ▸ hfilled) ha'
        fun _ => hk (List.cons_ne_nil _ _)⟩, .of_eq hsame⟩
    cases hchanges with
    | @goes f' hf' hu _ _ _ hsame =>
      have hapart' : f'.Apart p code :=
        ⟨hu ▸ hapart.entry, hu ▸ hapart.globals, hu ▸ hapart.main⟩
      exact stays hf' (List.forall_mem_cons.mpr ⟨hapart', habove⟩) hsame
    | stores hop => exact absurd hop (nostore hapart.globals _)
    | @enters g hf' _ hid hsame =>
      have hmoved : f.moved.Apart p code := ⟨hapart.entry, hapart.globals, hapart.main⟩
      exact stays hf' (List.forall_mem_cons.mpr ⟨hp.enters_apart hat hapart.entry hid,
        List.forall_mem_cons.mpr ⟨hmoved, habove⟩⟩) hsame
    | leaves _ hf' hsame => exact stays hf' habove hsame
  | nil =>
    rw [List.nil_append] at hf
    subst hf
    have begins := fun he => hchanges.begins hp hat he
    cases hbase with
    | start he hn =>
      obtain ⟨hsame, hbegins⟩ := begins he
      cases hbegins with
      | globals _ hf hg h0 =>
        exact ⟨⟨1, Nat.zero_le 1, .lowest hf (.globals hg he (congrArg Nat.succ hn) h0.symm)
          (hsame ▸ hfilled)⟩, .of_eq hsame⟩
      | main hn' | leaves hn' => cases hn.symm.trans hn'
    | globals hg he hn hnext =>
      subst hnext
      cases hs.unit.symm.trans (hg ▸ hat.unit)
      exact AtStage.step_globals hp hs ht.globals.size hg he hn hfilled hat hchanges
    | between he hn =>
      obtain ⟨hsame, hbegins⟩ := begins he
      cases hbegins with
      | main _ hf hm =>
        exact ⟨⟨3, by omega, .lowest hf (.main hm he (congrArg Nat.succ hn)) (hsame ▸ hfilled)⟩,
          .of_eq hsame⟩
      | globals hn' | leaves hn' => cases hn.symm.trans hn'
    | @main m e hm he hn =>
      have hneG : f.unit ≠ p.globalsUnit := hm ▸ Nat.succ_ne_self p.functions.length
      have hneE : f.unit ≠ code.entry := hm ▸ hp.entry_ne.2.symm
      cases hchanges with
      | goes hf hu _ _ _ hsame =>
        exact ⟨⟨3, Nat.le_refl 3, .lowest hf (.main (hu.trans hm) he hn) (hsame ▸ hfilled)⟩,
          .of_eq hsame⟩
      | stores hop => exact absurd hop (nostore hneG _)
      | @enters g hf _ hid hsame =>
        have hapart := List.forall_mem_singleton.mpr (hp.enters_apart hat hneE hid)
        exact ⟨⟨3, Nat.le_refl 3, @AtStage.mk _ _ _ _ _ _ [g] _ _ hf (.main hm he hn)
          (hsame ▸ hfilled) hapart fun _ => .inr rfl⟩, .of_eq hsame⟩
      | leaves _ hf hsame =>
        exact ⟨⟨4, by omega, .lowest hf (.last he hn) (hsame ▸ hfilled)⟩, .of_eq hsame⟩
    | last he hn =>
      obtain ⟨hsame, hbegins⟩ := begins he
      cases hbegins with
      | leaves _ hf =>
        exact ⟨⟨5, by omega, .lowest hf .ended (hsame ▸ hfilled)⟩, .of_eq hsame⟩
      | globals hn' | main hn' => cases hn.symm.trans hn'

/-! ## 5. Runs -/

section

variable {sink : Sink}

/-- **A run starts at the first stage.** -/
theorem AtStage.start
    (h : (State.initial code sink).enter code limit code.entry [] = .ok s) :
    AtStage p code u place 0 s := by
  obtain ⟨-, w, -, -, rfl⟩ := State.enter_inv h
  refine .lowest rfl (.start rfl rfl) fun cell hlt => ⟨?_, nofun⟩
  rintro ⟨v, hv⟩
  simp only [State.initial, Array.getElem?_replicate] at hv
  split at hv <;> cases hv

/-- **Every state of a run is at a stage.** -/
theorem Reachable.atStage (h : Reachable code limit sink s) (hp : ProgramPlaced p types code)
    (hs : CellStores p code u place) : ∃ k, AtStage p code u place k s := by
  induction h with
  | start h => exact ⟨0, .start h⟩
  | next hr hstep ih =>
    obtain ⟨k, hk⟩ := ih
    obtain ⟨⟨k', -, hk'⟩, -⟩ := hk.step hp hs (hr.typed hp) hstep
    exact ⟨k', hk'⟩

theorem Reachable.runs {t : State} (h : Reachable code limit sink s) (hr : Runs code limit s t) :
    Reachable code limit sink t := by
  induction hr with
  | refl => exact h
  | tail _ hstep ih => exact .next ih hstep

/-- **A run goes through the stages in their order,** and what a cell holds is kept. -/
theorem AtStage.runs {t : State} (h : AtStage p code u place k s) (hp : ProgramPlaced p types code)
    (hs : CellStores p code u place) (hreach : Reachable code limit sink s)
    (hr : Runs code limit s t) :
    (∃ k' ≥ k, AtStage p code u place k' t) ∧ Kept s.globals t.globals := by
  induction hr with
  | refl => exact ⟨⟨k, Nat.le_refl k, h⟩, .of_eq rfl⟩
  | tail hr hstep ih =>
    obtain ⟨⟨k₁, hle₁, hk₁⟩, hkept₁⟩ := ih
    obtain ⟨⟨k₂, hle₂, hk₂⟩, hkept₂⟩ := hk₁.step hp hs ((hreach.runs hr).typed hp) hstep
    exact ⟨⟨k₂, Nat.le_trans hle₁ hle₂, hk₂⟩, fun cell v hv => hkept₂ cell v (hkept₁ cell v hv)⟩

end

/-! ## 6. What is on top -/

/-- A step enters a unit: a frame of it is put on top of the others. -/
def Enters (id : UnitId) (s s' : State) : Prop :=
  ∃ f rest, s'.frames.items = f :: rest ∧ f.unit = id ∧ rest.length = s.frames.items.length

/-- A call of the unit has not returned. -/
def State.InCall (s : State) (id : UnitId) : Prop := ∃ f ∈ s.frames.items, f.unit = id

/-- The statements at top level and `main` are run at a stage of their own. -/
inductive Program.RunsAt (p : Program) : UnitId → Nat → Prop
  | globals : RunsAt p p.globalsUnit 1
  | main : RunsAt p p.mainUnit 3

namespace Program.RunsAt

variable {id : UnitId} {j j' : Nat}

theorem ne_entry (h : p.RunsAt id j) (hp : ProgramPlaced p types code) : id ≠ code.entry := by
  cases h with
  | globals => exact hp.entry_ne.1.symm
  | main => exact hp.entry_ne.2.symm

theorem ne_apart (h : p.RunsAt id j) {f : Frame} (hf : f.Apart p code) : f.unit ≠ id := by
  cases h with
  | globals => exact hf.globals
  | main => exact hf.main

theorem unique (h : p.RunsAt id j) (h' : p.RunsAt id j') : j' = j := by
  have hne : p.mainUnit ≠ p.globalsUnit := Nat.succ_ne_self _
  generalize hid : id = id' at h'
  cases h with
  | globals =>
    cases h' with
    | globals => rfl
    | main => exact absurd hid.symm hne
  | main =>
    cases h' with
    | globals => exact absurd hid hne
    | main => rfl

end Program.RunsAt

namespace AtStage

variable {k' : Nat}

/-- With one of the lowest frames on top there are no others. -/
theorem bottom (h : AtStage p code u place k s) {f : Frame} {rest : List Frame}
    (hf : s.frames.items = f :: rest) (hnot : ¬ f.Apart p code) :
    ∃ n, Base p code u k (f :: rest) n := by
  obtain @⟨above, bottom, n, hframes, hbase, -, habove, -⟩ := h
  cases above with
  | nil =>
    rw [hf, List.nil_append] at hframes
    exact ⟨n, hframes ▸ hbase⟩
  | cons g above =>
    rw [hf, List.cons_append, List.cons.injEq] at hframes
    exact absurd (habove f (hframes.1 ▸ List.mem_cons_self)) hnot

/-- During the statements at top level and during `main` there are two frames or more. -/
theorem two_le (h : AtStage p code u place k s) (hk : k = 1 ∨ k = 3) :
    2 ≤ s.frames.items.length := by
  obtain ⟨hf, hb, -, -, -⟩ := h
  rw [hf, List.length_append]
  refine Nat.le_add_left_of_le ?_
  rcases hk with rfl | rfl
  · cases hb with
    | globals => exact Nat.le_refl 2
  · cases hb with
    | main => exact Nat.le_refl 2

/-- **A call of one of the two units has not returned** at its stage only. -/
theorem inCall_iff (h : AtStage p code u place k s) (hp : ProgramPlaced p types code)
    {id : UnitId} {j : Nat} (hid : p.RunsAt id j) : s.InCall id ↔ k = j := by
  obtain ⟨hf, hb, -, habove, -⟩ := h
  unfold State.InCall
  rw [hf]
  constructor
  · rintro ⟨f, hmem, hunit⟩
    have hentry : f.unit ≠ code.entry := hunit ▸ (hid.ne_entry hp)
    rcases List.mem_append.mp hmem with hmem | hmem
    · exact absurd hunit (hid.ne_apart (habove f hmem))
    · cases hb with
      | start he | between he | last he =>
        obtain rfl := List.mem_singleton.mp hmem
        exact absurd he hentry
      | globals hg he =>
        obtain rfl | hmem := List.mem_cons.mp hmem
        · exact hid.unique (hg.symm.trans hunit ▸ .globals)
        · obtain rfl := List.mem_singleton.mp hmem
          exact absurd he hentry
      | main hm he =>
        obtain rfl | hmem := List.mem_cons.mp hmem
        · exact hid.unique (hm.symm.trans hunit ▸ .main)
        · obtain rfl := List.mem_singleton.mp hmem
          exact absurd he hentry
      | ended => cases hmem
  · rintro rfl
    cases hid with
    | globals =>
      cases hb with
      | globals hg => exact ⟨_, List.mem_append_right _ List.mem_cons_self, hg⟩
    | main =>
      cases hb with
      | main hm => exact ⟨_, List.mem_append_right _ List.mem_cons_self, hm⟩

/-- **Behind the statements at top level all cells have been stored.** -/
theorem stored (h : AtStage p code u place k s) (hs : CellStores p code u place) (hk : 2 ≤ k)
    {cell : Nat} (hlt : cell < p.cells.length) : ∃ v, s.globals[cell]? = some (some v) := by
  obtain ⟨-, hb, hg, -, -⟩ := h
  refine (hg cell hlt).mpr ?_
  have hplace := (Array.getElem?_eq_some_iff.mp (hs.store cell hlt)).1
  cases hb with
  | start | globals => omega
  | between | main | last | ended => exact hplace

/-- Nothing is loaded before the statements at top level are called. -/
theorem not_loads (h : AtStage p code u place 0 s) (hp : ProgramPlaced p types code) {f : Frame}
    {rest : List Frame} {w : CodeUnit} {cell : Nat} (hframes : s.frames.items = f :: rest) :
    ¬ f.At code w (.loadGlobal cell) := by
  intro hat
  obtain @⟨above, _, _, hf, hb, -, -, hk⟩ := h
  obtain rfl : above = [] := by
    by_contra hne
    rcases hk hne with h | h <;> cases h
  cases hb with
  | start he =>
    rw [hframes, List.nil_append, List.cons.injEq] at hf
    obtain ⟨rfl, rfl⟩ := hf
    rcases hp.entry_op (he ▸ hat.unit) hat.op with ⟨-, h⟩ | ⟨-, h⟩ | ⟨-, h⟩ <;> cases h

/-- **A unit is entered from stage to stage,** if its frame is one of the lowest. -/
theorem enters {id : UnitId} (h : AtStage p code u place k s) (h' : AtStage p code u place k' s')
    (hle : k ≤ k') (hstep : Stackling.step code limit s = .running s') (he : Enters id s s') :
    (∃ f : Frame, f.Apart p code ∧ f.unit = id) ∨ k < k' ∧ p.RunsAt id k' := by
  obtain ⟨f, rest, hf, rfl, hlen⟩ := he
  have hsome : s.frames.items.length ≠ 0 := by
    obtain ⟨g, below, -, -, hframes, -, -⟩ := step_moves hstep
    rw [hframes]
    exact nofun
  have hdepth : k = 1 ∨ k = 3 → 2 ≤ rest.length := fun hk => hlen ▸ h.two_le hk
  by_cases hapart : f.Apart p code
  · exact .inl ⟨f, hapart, rfl⟩
  · obtain ⟨n, hbase⟩ := h'.bottom hf hapart
    cases hbase with
    | start | between | last => exact absurd hlen.symm hsome
    | globals hg =>
      have hk : k ≠ 1 := fun hk => Nat.not_succ_le_self 1 (hdepth (.inl hk))
      exact .inr ⟨by omega, hg ▸ .globals⟩
    | main hm =>
      have hk : k ≠ 3 := fun hk => Nat.not_succ_le_self 1 (hdepth (.inr hk))
      exact .inr ⟨by omega, hm ▸ .main⟩

end AtStage

end Stackling
