import Stackling.Proofs.Code.Lowered
import Stackling.Proofs.Typing.Programs

/-
  File:     Stackling/Proofs/Code/Units.lean
  Subject:  Writing the units of a program, one after the other.

  Units are reserved before they are written, so that a body can refer to a function that is
  written later. Between two units the generator holds finished units and reserved ones, and
  the global names so far.

  * `Program.places`       -- the global names before the statements at top level;
  * `reserveFunctions_ok`  -- every function gets a unit under its name;
  * `Standing`             -- the generator between two units;
  * `UnitEnded`            -- a reserved unit that has been begun and finished;
  * `Standing.unit`        -- one more unit is written.
-/
namespace Stackling

open Generate

/-! ## 1. Global names -/

/-- Functions with their units, the first of them with the number `unit`. -/
def functionPlaces (unit : UnitId) : List FunctionDecl → GlobalNames
  | [] => []
  | f :: rest =>
    (f.name, .function unit, .function (paramTypes f.params) f.returns.toTy) ::
      functionPlaces (unit + 1) rest

def builtinPlaces : GlobalNames :=
  (Builtin.all.map fun b => (b.name, Resolved.builtin b, Entity.builtin b)).reverse

/-- The global names before the statements at top level, each with its place. -/
def Program.places (p : Program) : GlobalNames :=
  (functionPlaces 0 p.functions).reverse ++ builtinPlaces

theorem functionPlaces_entries (unit : UnitId) (fs : List FunctionDecl) :
    (functionPlaces unit fs).map (fun x => (x.1, x.2.2)) = fs.map FunctionDecl.entry := by
  induction fs generalizing unit with
  | nil => rfl
  | cons f rest ih =>
    rw [functionPlaces, List.map_cons, List.map_cons, ih]
    rfl

/-- The places are those of the names that the typing rules begin with. -/
theorem Program.places_entries (p : Program) :
    p.places.map (fun x => (x.1, x.2.2)) = p.entries := by
  rw [places, List.map_append, List.map_reverse, functionPlaces_entries, entries]
  congr 1

theorem mem_functionPlaces {unit : UnitId} {fs : List FunctionDecl}
    {x : String × Resolved × Entity} (h : x ∈ functionPlaces unit fs) :
    ∃ i f, fs[i]? = some f ∧
      x = (f.name, .function (unit + i), .function (paramTypes f.params) f.returns.toTy) := by
  induction fs generalizing unit with
  | nil => cases h
  | cons f rest ih =>
    rcases List.mem_cons.mp h with rfl | h
    · exact ⟨0, f, rfl, rfl⟩
    · obtain ⟨i, f', hf', rfl⟩ := ih h
      exact ⟨i + 1, f', hf', by rw [Nat.add_assoc, Nat.add_comm 1 i]⟩

theorem Program.names_places (p : Program) : ∀ x ∈ p.places, p.Names x.1 x.2.1 x.2.2 := by
  intro x hx
  rcases List.mem_append.mp hx with hx | hx
  · obtain ⟨i, f, hf, rfl⟩ := mem_functionPlaces (List.mem_reverse.mp hx)
    exact .function (by rwa [Nat.zero_add]) rfl
  · obtain ⟨b, -, rfl⟩ := List.mem_map.mp (List.mem_reverse.mp hx)
    exact .builtin (Builtin.ofName?_name b)

theorem find_functionPlaces (unit : UnitId) (fs : List FunctionDecl) (name : String) :
    ((functionEntries unit fs).find? fun e => e.name == name).map
        (fun e => Resolved.function e.unit) =
      ((functionPlaces unit fs).lookup name).map (·.1) := by
  induction fs generalizing unit with
  | nil => rfl
  | cons f rest ih =>
    rw [functionEntries, functionPlaces, List.find?_cons, List.lookup_cons]
    by_cases hn : f.name = name
    · subst hn
      simp
    · have h₁ : (f.name == name) = false := by simpa using hn
      have h₂ : (name == f.name) = false := by simpa using Ne.symm hn
      rw [h₁, h₂]
      exact ih (unit + 1)

/-- In a list without a repeated name the order does not matter to a search. -/
theorem lookup_reverse {α : Type} {l : List (String × α)} (h : (l.map (·.1)).Nodup)
    (name : String) : l.reverse.lookup name = l.lookup name := by
  induction l with
  | nil => rfl
  | cons x l ih =>
    obtain ⟨key, a⟩ := x
    obtain ⟨hx, hl⟩ := List.nodup_cons.mp h
    rw [List.reverse_cons, List.lookup_append, ih hl, List.lookup_cons, List.lookup_cons,
      List.lookup_nil]
    by_cases hn : name = key
    · subst hn
      rw [lookup_eq_none_iff.mpr hx, beq_self_eq_true]
      rfl
    · have hb : (name == key) = false := by simpa using hn
      rw [hb, Option.or_none]

theorem lookup_map_key {α β : Type} (key : β → String) (f : β → α) (l : List β) (name : String) :
    (l.map fun b => (key b, f b)).lookup name = (l.find? fun b => key b == name).map f := by
  induction l with
  | nil => rfl
  | cons b l ih =>
    rw [List.map_cons, List.lookup_cons, List.find?_cons]
    by_cases hn : key b = name
    · subst hn
      simp
    · have h₁ : (key b == name) = false := by simpa using hn
      have h₂ : (name == key b) = false := by simpa using Ne.symm hn
      rw [h₁, h₂]
      exact ih

/-- **Before the statements at top level a name refers to a function or a built-in.** -/
theorem Program.lookup_places {p : Program} (h : (p.entries.map (·.1)).Nodup) (name : String) :
    (p.places.lookup name).map (·.1) =
      (((functionEntries 0 p.functions).find? fun e => e.name == name).map
        fun e => Resolved.function e.unit).or ((Builtin.ofName? name).map .builtin) := by
  have hn : ((functionPlaces 0 p.functions).map (·.1)).Nodup := by
    have hsame : (functionPlaces 0 p.functions).map (·.1) = p.functions.map (·.name) := by
      have := congrArg (List.map (·.1)) (functionPlaces_entries 0 p.functions)
      rw [List.map_map, List.map_map] at this
      exact this
    rw [hsame]
    exact (nodup_withFunctions.mp h).1
  have hb : builtinPlaces.lookup name =
      (Builtin.ofName? name).map fun b => (Resolved.builtin b, Entity.builtin b) := by
    rw [builtinPlaces, lookup_reverse (by decide), lookup_map_key Builtin.name]
    rfl
  rw [places, List.lookup_append, lookup_reverse hn, hb, Option.map_or, find_functionPlaces,
    Option.map_map]
  rfl

/-! ## 2. Reserved units -/

/-- **Every function gets the next unit under its name.** -/
theorem reserveFunctions_ok {fs : List FunctionDecl} {g : Generator}
    (hn : (fs.map (·.name)).Nodup) (hf : ∀ f ∈ fs, g.function? f.name = none) :
    reserveFunctions fs g = .ok ((), { g with
      units := ⟨g.units.toList ++ List.replicate fs.length none⟩
      functions := g.functions ++ functionEntries g.units.size fs }) := by
  induction fs generalizing g with
  | nil =>
    rw [reserveFunctions]
    simp [functionEntries]
  | cons f fs ih =>
    obtain ⟨hnot, hn⟩ := List.nodup_cons.mp hn
    obtain ⟨hnone, hrest⟩ := List.forall_mem_cons.mp hf
    obtain ⟨g₁, hg₁⟩ : ∃ g₁ : Generator, g₁ = { g with
        units := g.units.push none
        functions :=
          g.functions ++ [⟨f.name, g.units.size, paramTypes f.params, f.returns.toTy⟩] } := ⟨_, rfl⟩
    have hdeclare : (g.reserve.2).declareFunction
        ⟨f.name, g.units.size, f.params.map (·.written.toTy), f.returns.toTy⟩ = g₁ := by
      unfold Generator.declareFunction
      rw [show (g.reserve.2).function? f.name = none from hnone, hg₁]
      rfl
    have hfresh : ∀ f' ∈ fs, g₁.function? f'.name = none := by
      intro f' hf'
      have hne : (f.name == f'.name) = false := by
        rw [beq_eq_false_iff_ne]
        exact fun he => hnot (List.mem_map.mpr ⟨f', hf', he.symm⟩)
      have hold : g.functions.find? (fun e => e.name == f'.name) = none := hrest f' hf'
      rw [hg₁]
      unfold Generator.function?
      rw [List.find?_append, hold, List.find?_cons, hne]
      rfl
    have hstep : (reserve >>= fun id => (modify fun g =>
        g.declareFunction ⟨f.name, id, f.params.map (·.written.toTy), f.returns.toTy⟩) >>= fun _ =>
          reserveFunctions fs) g = reserveFunctions fs g₁ := by
      rw [← hdeclare]
      rfl
    rw [reserveFunctions, hstep, ih hn hfresh, hg₁]
    simp [functionEntries, List.replicate_succ]

/-! ## 3. Between two units -/

/-- The generator between two units: `globals` are the global names so far, and `pending` tells
    which units are still to be written. -/
structure Standing (p : Program) (types : TypeTable) (g : Generator) (globals : GlobalNames)
    (pending : UnitId → Prop) : Prop where
  table : g.types = types
  functions : g.functions = functionEntries 0 p.functions
  outside : ∀ name, g.outside? name = (globals.lookup name).map (·.1)
  names : ∀ x ∈ globals, p.Names x.1 x.2.1 x.2.2
  counted : g.units.size = p.literalUnit g.literals
  reserved : ∀ id, pending id → g.units[id]? = some none
  finished : ∀ id < g.units.size, ¬ pending id →
    ∃ v, g.units[id]? = some (some v) ∧ Plain v.ops.toList

/-- The program holds all units that are finished. -/
def Holds (code : Bytecode) (g : Generator) : Prop :=
  ∀ (id : UnitId) (v : CodeUnit), g.units[id]? = some (some v) → code.unit? id = some v

/-- A unit that has just been begun for a callable, its parameters bound. -/
structure Begun (b : UnitBuilder) (id : UnitId) (c : CallableDecl) : Prop where
  id : b.id = id
  name : b.name = c.name
  arity : b.arity = c.params.length
  returns : b.returns = c.returns
  ops : b.ops = #[]
  labels : b.labels = #[]
  locals : b.locals = 0
  depth : b.depth = 0
  initializer : b.initializer = c.outside
  scopes : b.scopes = (c.layout []).slots

variable {p : Program} {types : TypeTable} {c : CallableDecl} {g g₁ : Generator}
  {b : UnitBuilder} {globals : GlobalNames} {pending : UnitId → Prop} {id : Nat}

theorem Standing.fits (h : Standing p types g globals pending) (hb : Begun b id c) :
    Fits p c { g with current := b } (c.layout globals) where
  scopes := hb.scopes
  outside := h.outside
  names := h.names
  functions := h.functions
  fresh scope hs x hx slot hslot := by
    unfold CallableDecl.layout at hs
    split at hs
    · cases hs
    · rw [List.mem_singleton.mp hs] at hx
      obtain ⟨y, -, rfl⟩ := List.mem_map.mp (List.mem_reverse.mp hx)
      cases hslot
  initializer := hb.initializer
  outermost hn := by
    unfold CallableDecl.layout at hn
    split at hn
    · assumption
    · cases hn
  returns := hb.returns
  counted := h.counted

theorem CallableDecl.isEmpty_layout (c : CallableDecl) (globals : GlobalNames) :
    (c.layout globals).scopes.isEmpty = c.outside := by
  unfold layout
  cases c.outside <;> rfl

/-- The generator after a unit, back in the unit in work. -/
def Generator.endUnit (g g₁ : Generator) (v : CodeUnit) : Generator :=
  { g₁ with current := g.current, units := g₁.units.setIfInBounds v.id (some v) }

/-- A unit `v` with the number `id` is written from one state between units to the next. -/
structure UnitWritten (p : Program) (types : TypeTable) (c : CallableDecl) (id : Nat)
    (b : UnitBuilder) (globals : GlobalNames) (pending : UnitId → Prop) (Γ' : Context)
    (g g₁ : Generator) (v : CodeUnit) : Prop where
  body : ∃ L', Γ' = L'.context [] ∧
    StmtsWritten p types c (c.layout globals) c.body L' { g with current := b } g₁ ∧
    Standing p types (g.endUnit g₁ v) L'.globals fun i : Nat => pending i ∧ i ≠ id
  finish : g₁.current.finish = .ok v
  number : v.id = id
  lt : id < g₁.units.size
  holds : ∀ code, Holds code (g.endUnit g₁ v) → Holds code g ∧
    CallablePlaced p types code id c globals

/-- The unit that has ended stands in its place, -/
theorem Generator.endUnit_self {g g₁ : Generator} {v : CodeUnit} (h : v.id < g₁.units.size) :
    (g.endUnit g₁ v).units[v.id]? = some (some v) := Array.getElem?_setIfInBounds_self_of_lt h

/-- and no other one has changed. -/
theorem Generator.endUnit_other {g g₁ : Generator} {v : CodeUnit} {i : Nat} (h : i ≠ v.id) :
    (g.endUnit g₁ v).units[i]? = g₁.units[i]? := Array.getElem?_setIfInBounds_ne (Ne.symm h)

/-- A reserved unit has been begun and finished, with the code of its callable in between. -/
structure UnitEnded (p : Program) (types : TypeTable) (c : CallableDecl) (id : Nat)
    (b : UnitBuilder) (globals : GlobalNames) (L' : Layout) (g g₁ : Generator) (v : CodeUnit) :
    Prop where
  begun : Begun b id c
  reserved : g.units[id]? = some none
  written : StmtsWritten p types c (c.layout globals) c.body L' { g with current := b } g₁
  finished : Finished b g₁ v

namespace UnitEnded

variable {L' : Layout} {v : CodeUnit}

theorem number (h : UnitEnded p types c id b globals L' g g₁ v) : v.id = id :=
  h.finished.id.trans h.begun.id

theorem old (h : UnitEnded p types c id b globals L' g g₁ v) :
    ∀ i < g.units.size, g₁.units[i]? = g.units[i]? := h.written.wrote.whole.units

theorem lt (h : UnitEnded p types c id b globals L' g g₁ v) : id < g₁.units.size :=
  Nat.lt_of_lt_of_le (Array.getElem?_eq_some_iff.mp h.reserved).1 h.written.wrote.whole.units_size

theorem self (h : UnitEnded p types c id b globals L' g g₁ v) :
    (g.endUnit g₁ v).units[id]? = some (some v) := by
  obtain rfl := h.number
  exact Generator.endUnit_self h.lt

theorem other (h : UnitEnded p types c id b globals L' g g₁ v) {i : Nat} (hi : i ≠ id) :
    (g.endUnit g₁ v).units[i]? = g₁.units[i]? := by
  obtain rfl := h.number
  exact Generator.endUnit_other hi

/-- **Behind the unit** one less is still to be written. -/
theorem standing (h : UnitEnded p types c id b globals L' g g₁ v)
    (hs : Standing p types g globals pending) :
    Standing p types (g.endUnit g₁ v) L'.globals fun i : Nat => pending i ∧ i ≠ id := by
  have hwrote := h.written.wrote
  refine ⟨hwrote.whole.types.trans hs.table, hwrote.whole.functions.trans hs.functions,
    hwrote.fits.outside, hwrote.fits.names, ?_, fun i hi => ?_, fun i hi hp => ?_⟩
  · exact (Array.size_setIfInBounds ..).trans hwrote.fits.counted
  · have hi' := hs.reserved i hi.1
    rw [h.other hi.2, h.old i (Array.getElem?_eq_some_iff.mp hi').1, hi']
  · by_cases hiid : i = id
    · subst hiid
      exact ⟨v, h.self, h.finished.plain⟩
    · rw [h.other hiid]
      have hnp : ¬ pending i := fun hpi => hp ⟨hpi, hiid⟩
      by_cases hlti : i < g.units.size
      · rw [h.old i hlti]
        exact hs.finished i hlti hnp
      · refine hwrote.whole.finished i (Nat.not_lt.mp hlti) ?_
        simpa [Generator.endUnit] using hi

/-- A program that holds the units behind the unit holds those before it. -/
theorem holds {code : Bytecode} (h : UnitEnded p types c id b globals L' g g₁ v)
    (hc : Holds code (g.endUnit g₁ v)) : Holds code g := by
  intro i w hiw
  have hne : i ≠ id := by
    rintro rfl
    cases h.reserved.symm.trans hiw
  refine hc i w ?_
  rw [h.other hne, h.old i (Array.getElem?_eq_some_iff.mp hiw).1, hiw]

/-- The unit is final as soon as a program holds it. -/
theorem final {code : Bytecode} (h : UnitEnded p types c id b globals L' g g₁ v)
    (hc : Holds code (g.endUnit g₁ v)) : Final code v g₁ := by
  refine ⟨⟨[terminatorOf b.returns], by rw [h.finished.ops, Array.toList_push]⟩,
    h.finished.labels, fun i w hiw => ?_⟩
  have hne : i ≠ id := by
    rintro rfl
    rw [h.old i (Array.getElem?_eq_some_iff.mp h.reserved).1, h.reserved] at hiw
    cases hiw
  exact hc i w ((h.other hne).trans hiw)

/-- **The callable has its unit** in every program that holds it. -/
theorem placed {code : Bytecode} (h : UnitEnded p types c id b globals L' g g₁ v)
    (hs : Standing p types g globals pending) (hv : ∀ x ∈ c.params, x.written.toTy ≠ .void)
    (he : c.returns = .void ∨ anyAlwaysReturns c.body = true)
    (hc : Holds code (g.endUnit g₁ v)) : CallablePlaced p types code id c globals := by
  have hfinal := h.final hc
  have hself := h.self
  obtain ⟨hb, -, hbody, hfin⟩ := h
  have hlocals : v.locals = c.slots.length := by
    rw [hfin.locals, hbody.wrote.locals, c.isEmpty_layout]
    show b.locals + _ = _
    rw [hb.locals, Nat.zero_add]
    rfl
  have hterm : v.ops[g₁.pc]? = some (terminatorOf c.returns) := by
    rw [hfin.ops, hb.returns]
    exact Array.getElem?_push_size
  have hpc : ({ g with current := b } : Generator).pc = 0 := by
    show b.ops.size = 0
    rw [hb.ops]
    rfl
  exact .mk (hc id v hself) (hfin.name.trans hb.name) (hfin.arity.trans hb.arity) hlocals
    hs.names hv (hpc ▸ hbody.placed code v hfinal) hterm he hfin.size

end UnitEnded

/-- **One more unit is written** for a callable whose body is well typed. -/
theorem Standing.unit {Γ' : Context} {rows : Rows} (returns : Option Ty)
    (h : Standing p types g globals pending) (hb : Begun b id c) (hid : pending id)
    (hs : ((c.layout globals).context []).Sane)
    (hret : ∀ ty, returns = some ty → c.outside = false ∧ c.returns = ty) (hw : Wanted returns)
    (ht : StmtsTyped ((c.layout globals).context []) returns c.body Γ' rows)
    (hliterals : Segment p.literals g.literals (stmtLiterals c.body))
    (hrows : ∀ row ∈ rows, types.find? row.1 = some row.2)
    (hcells : c.outside = true → Segment p.cells g.globalNames.size (stmtCells c.body))
    (hv : ∀ x ∈ c.params, x.written.toTy ≠ .void)
    (he : c.returns = .void ∨ anyAlwaysReturns c.body = true) :
    ∃ g₁ v, UnitWritten p types c id b globals pending Γ' g g₁ v := by
  have hslots : Segment c.slots b.locals (stmtSlots (c.layout globals).scopes.isEmpty c.body) := by
    rw [c.isEmpty_layout, hb.locals]
    exact .self _
  have houtside : (c.layout globals).scopes = [] → c.outside = true := by
    intro hn
    rw [← c.isEmpty_layout globals, hn]
    rfl
  obtain ⟨L', g₁, hΓ, hbody⟩ := StmtsTyped.written hs hret hw c.body ht
    ⟨h.fits hb, hliterals, h.table, hrows⟩ hslots fun hn => hcells (houtside hn)
  obtain ⟨v, hfin⟩ := hbody.wrote.whole.finished_ok rfl hb.ops hb.labels
    (hbody.wrote.depth.trans hb.depth)
  have hended : UnitEnded p types c id b globals L' g g₁ v :=
    ⟨hb, h.reserved id hid, hbody, hfin⟩
  exact ⟨g₁, v, ⟨L', hΓ, hbody, hended.standing h⟩, hfin.finish, hended.number, hended.lt,
    fun code hc => ⟨hended.holds hc, hended.placed h hv he hc⟩⟩

end Stackling
