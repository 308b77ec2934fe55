import Stackling.Proofs.Run.Faults
import Stackling.Proofs.Run.Stages

/-
  File:     Stackling/Proofs/Run/Initialised.lean
  Subject:  Global cells are stored once and never change.

  Each cell is stored by one instruction, in the unit of the statements at top level. A run
  enters this unit once, and when it has been left every cell has its value for good. So only a
  function that the initializers of global names call can find a cell empty.

  * `StoresOnce`     -- where the cells are stored;
  * `FillsOnce`      -- how they are filled in a run;
  * `AtStage.unset`  -- an empty cell is found by the statements at top level only;
  * `globals_initialised_once` -- so it is for every accepted program.
-/
namespace Stackling

/-! ## 1. Statements -/

/-- **Each cell is stored by one instruction of the program.** It stands in the unit of the
    statements at top level, and control comes behind it only through it. A run starts with this
    unit, and goes on with `main`. -/
structure StoresOnce (p : Program) (code : Bytecode) : Prop where
  entry : ∃ u, code.unit? code.entry = some u ∧
    u.ops = #[.call p.globalsUnit 0 false, .call p.mainUnit 0 false, .retVoid]
  main : ∃ u, code.unit? p.mainUnit = some u ∧ u.name = "main"
  globals : ∃ u, code.unit? p.globalsUnit = some u ∧ u.name = "<globals>" ∧
    ∀ cell < code.globals.size, ∃ place, u.ops[place]? = some (.storeGlobal cell) ∧
      u.Unskipped place ∧ ∀ id w i, code.unit? id = some w →
        w.ops[i]? = some (.storeGlobal cell) → id = p.globalsUnit ∧ i = place

/-- **A run fills each cell once.** -/
structure FillsOnce (p : Program) (code : Bytecode) (limit : Nat) (sink : Sink) : Prop where
  /-- the unit that a run starts with is not entered again -/
  begins : ∀ s s' : State, Reachable code limit sink s → step code limit s = .running s' →
    ¬ Enters code.entry s s'
  /-- neither are the statements at top level nor `main` entered twice -/
  entered : ∀ id, id = p.globalsUnit ∨ id = p.mainUnit → ∀ s s' t t' : State,
    Reachable code limit sink s → step code limit s = .running s' → Enters id s s' →
    Runs code limit s' t → step code limit t = .running t' → ¬ Enters id t t'
  /-- what a cell holds is kept to the end -/
  kept : ∀ s t : State, Reachable code limit sink s → Runs code limit s t →
    ∀ (cell : Nat) (v : Value), s.globals[cell]? = some (some v) →
      t.globals[cell]? = some (some v)
  /-- all cells hold a value when the statements at top level have returned -/
  complete : ∀ s s' : State, Reachable code limit sink s → step code limit s = .running s' →
    s.InCall p.globalsUnit → ¬ s'.InCall p.globalsUnit → ∀ cell < code.globals.size,
      ∃ v, ∀ t : State, Runs code limit s' t → t.globals[cell]? = some (some v)
  /-- an empty cell is found before that, and not in `main` -/
  unset : ∀ (s : State) (name : String) (sink' : Sink), Reachable code limit sink s →
    step code limit s = .faulted (.uninitializedGlobal name) sink' →
    s.InCall p.globalsUnit ∧ ¬ s.InCall p.mainUnit

/-! ## 2. Proofs -/

variable {p : Program} {types : TypeTable} {code : Bytecode} {limit : Nat} {sink : Sink}

theorem ProgramPlaced.size_globals (h : ProgramPlaced p types code) :
    code.globals.size = p.cells.length := by
  rw [← Array.length_toList, h.globals, List.length_map]

/-- The unit of a callable has its name. -/
theorem ProgramPlaced.name (h : ProgramPlaced p types code) {id : UnitId} {c : CallableDecl}
    (hc : p.callables[id]? = some c) : ∃ u, code.unit? id = some u ∧ u.name = c.name := by
  obtain ⟨globals, hplaced⟩ := h.callables id c hc
  cases hplaced with
  | mk hu hn => exact ⟨_, hu, hn⟩

theorem Compiled.storesOnce (h : Compiled p types code) : StoresOnce p code := by
  obtain ⟨u, place, hs⟩ := h.cellStores
  obtain ⟨e, he, -, -, hops⟩ := h.placed.entry
  obtain ⟨w, hw, hname⟩ := h.placed.name Program.callable_globals
  cases hs.unit.symm.trans hw
  refine ⟨⟨e, he, hops⟩, h.placed.name Program.callable_main, u, hw, hname, fun cell hlt => ?_⟩
  rw [h.placed.size_globals] at hlt
  exact ⟨place cell, hs.store cell hlt, hs.unskipped cell hlt,
    fun id w i hw hop => (hs.only id w i cell hw hop).2⟩

/-- **An empty cell is found only during the statements at top level.** -/
theorem AtStage.unset {u : CodeUnit} {place : Nat → Nat} {k : Nat} {s : State} {name : String}
    {sink' : Sink} (hk : AtStage p code u place k s) (h : Compiled p types code)
    (hs : CellStores p code u place)
    (hstep : Stackling.step code limit s = .faulted (.uninitializedGlobal name) sink') : k = 1 := by
  obtain hordinary | ⟨f, rest, w, op, hframes, hat, hfaults⟩ := step_faults hstep
  · cases hordinary
  · cases hfaults with
    | ordinary hordinary => cases hordinary
    | @unset cell _ hnot =>
      obtain ⟨depth, hverified⟩ := generate_verified h.generated w (Array.mem_of_getElem? hat.unit)
      have hlt : cell < code.globals.size := (hverified.suits _ _ hat.op).within
      rw [h.placed.size_globals] at hlt
      -- behind the statements at top level the cell has been stored
      have hle : k < 2 := by
        by_contra hle
        obtain ⟨v, hv⟩ := hk.stored hs (Nat.not_lt.mp hle) hlt
        exact hnot v hv
      have hpos : k ≠ 0 := by
        rintro rfl
        exact hk.not_loads h.placed hframes hat
      omega

theorem Compiled.fillsOnce (h : Compiled p types code) (limit : Nat) (sink : Sink) :
    FillsOnce p code limit sink := by
  obtain ⟨u, place, hs⟩ := h.cellStores
  have hstage : ∀ {s}, Reachable code limit sink s → ∃ k, AtStage p code u place k s :=
    fun hr => hr.atStage h.placed hs
  have hsteps : ∀ {s s' k}, AtStage p code u place k s → Reachable code limit sink s →
      step code limit s = .running s' →
      (∃ k' ≥ k, AtStage p code u place k' s') ∧ Kept s.globals s'.globals :=
    fun hk hr hstep => hk.step h.placed hs (hr.typed h.placed) hstep
  constructor
  · intro s s' hr hstep he
    obtain ⟨k, hk⟩ := hstage hr
    obtain ⟨⟨k', hle, hk'⟩, -⟩ := hsteps hk hr hstep
    rcases hk.enters hk' hle hstep he with ⟨f, hapart, hunit⟩ | ⟨-, hid⟩
    · exact hapart.entry hunit
    · exact hid.ne_entry h.placed rfl
  · intro id hid s s' t t' hr hstep he hruns hstep' he'
    -- both times the unit is entered from an earlier stage to its own
    obtain ⟨j, hj⟩ : ∃ j, p.RunsAt id j := by
      rcases hid with rfl | rfl
      · exact ⟨1, .globals⟩
      · exact ⟨3, .main⟩
    have own : ∀ {f : Frame}, f.Apart p code → f.unit ≠ id := fun hf => hj.ne_apart hf
    obtain ⟨k, hk⟩ := hstage hr
    obtain ⟨⟨k₁, hle₁, hk₁⟩, -⟩ := hsteps hk hr hstep
    obtain ⟨⟨k₂, hle₂, hk₂⟩, -⟩ := hk₁.runs h.placed hs (hr.next hstep) hruns
    obtain ⟨⟨k₃, hle₃, hk₃⟩, -⟩ := hsteps hk₂ ((hr.next hstep).runs hruns) hstep'
    rcases hk.enters hk₁ hle₁ hstep he with ⟨f, hapart, hunit⟩ | ⟨-, hid₁⟩
    · exact own hapart hunit
    · rcases hk₂.enters hk₃ hle₃ hstep' he' with ⟨f, hapart, hunit⟩ | ⟨hlt, hid₃⟩
      · exact own hapart hunit
      · have := hid₁.unique hid₃
        omega
  · intro s t hr hruns
    obtain ⟨k, hk⟩ := hstage hr
    exact (hk.runs h.placed hs hr hruns).2
  · intro s s' hr hstep hin hout cell hlt
    rw [h.placed.size_globals] at hlt
    obtain ⟨k, hk⟩ := hstage hr
    obtain rfl := (hk.inCall_iff h.placed .globals).mp hin
    obtain ⟨⟨k', hle, hk'⟩, -⟩ := hsteps hk hr hstep
    have hne : k' ≠ 1 := fun hk => hout ((hk'.inCall_iff h.placed .globals).mpr hk)
    obtain ⟨v, hv⟩ := hk'.stored hs (by omega) hlt
    exact ⟨v, fun t hruns => (hk'.runs h.placed hs (hr.next hstep) hruns).2 cell v hv⟩
  · intro s name sink' hr hstep
    obtain ⟨k, hk⟩ := hstage hr
    obtain rfl := hk.unset h hs hstep
    exact ⟨(hk.inCall_iff h.placed .globals).mpr rfl,
      fun hin => absurd ((hk.inCall_iff h.placed .main).mp hin) (by decide)⟩

/-- **Global cells are initialised once and never change.** An accepted program has code in which
    each cell is stored by one instruction, outside every branch of the statements at top level.
    In each run these statements and `main` are entered once, a cell that holds a value keeps it,
    all cells hold one when the statements at top level have returned, and an empty cell is found
    only before that, and never in `main`. -/
theorem globals_initialised_once {source : String} {options : Options}
    (hp : parseSource source options = .ok p) (ht : analyze p = .ok types) :
    ∃ code, generate p types = .ok code ∧ StoresOnce p code ∧
      ∀ limit sink, FillsOnce p code limit sink := by
  obtain ⟨code, h⟩ := Compiled.of_accepted (parseSource_nodup hp) ht
  exact ⟨code, h.generated, h.storesOnce, h.fillsOnce⟩

/-- A global name whose initializer calls a function that uses the next one. -/
def hastySource : String :=
  "fn f(): int \x7b return b \x7d let a: int = f() let b: int = 2 fn main() \x7b print(a) \x7d"

/-- Its run ends with an empty cell, before `main` is called. -/
theorem hasty_initialised : ∃ p types code, parseSource hastySource ⟨"hasty", 5, false⟩ = .ok p ∧
    analyze p = .ok types ∧ generate p types = .ok code ∧ StoresOnce p code ∧
    FillsOnce p code 5 .unbounded ∧
    (execute code 5 .unbounded).ending = .fault (.uninitializedGlobal "b") := by
  have hok : (compile hastySource ⟨"hasty", 5, false⟩).isOk = true := by decide +kernel
  have hfault : (compile hastySource ⟨"hasty", 5, false⟩).toOption.all fun code =>
      (execute code 5 .unbounded).ending = .fault (.uninitializedGlobal "b") := by decide +kernel
  obtain ⟨code, hcode⟩ := exists_eq_ok hok
  rw [hcode] at hfault
  obtain ⟨p, types, hp, ht, hg⟩ := compile_inv hcode
  obtain ⟨code', hg', hstores, hfills⟩ := globals_initialised_once hp ht
  cases hg.symm.trans hg'
  exact ⟨p, types, code, hp, ht, hg, hstores, hfills 5 .unbounded, of_decide_eq_true hfault⟩

end Stackling
