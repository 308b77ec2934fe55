import Stackling.Proofs.Code.Alike
import Stackling.Proofs.Code.Compiled

/-
  File:     Stackling/Proofs/Code/Agreement.lean
  Subject:  Both passes take every name of an accepted program for the same declaration.

  The functions and the built-ins are bound before anything else in both passes. After that the
  passes go over the statements at top level, the functions and `main`, each of which they take
  alike.

  * `Program.known_start`  -- the bindings that both passes begin with;
  * `lowerCallable_alike`, `checkFunctions_alike` -- the units of functions and of `main`;
  * `accepted_alike`       -- whole programs.
-/
namespace Stackling

open Check Generate

variable {p : Program} {types : TypeTable} {B : Bindings} {a a' : Analysis} {g g' : Generator}

/-! ## 1. The bindings at the start -/

/-- Functions that are declared quietly have symbols in the global scope. -/
theorem declareFunctions_shows {fs : List FunctionDecl} {signatures : List Signature}
    {symbols : List Symbol} (place : Nat) (h : a.scopes.Shows [symbols])
    (hq : Quiet (declareFunctions fs) a signatures a') :
    a'.scopes.Shows [((functionBindings place fs).map Binding.symbol).reverse ++ symbols] := by
  induction fs generalizing a signatures symbols place with
  | nil =>
    obtain ⟨-, rfl⟩ := hq.pure_inv
    exact h
  | cons f fs ih =>
    unfold declareFunctions at hq
    obtain ⟨_, a₁, hf, hq⟩ := hq.bind_inv
    obtain ⟨_, a₂, hfs, hq⟩ := hq.bind_inv
    obtain ⟨-, rfl⟩ := hq.pure_inv
    unfold declareFunction at hf
    obtain ⟨_, _, hr, hf⟩ := hf.bind_inv
    obtain ⟨_, _, hp, hf⟩ := hf.bind_inv
    obtain ⟨t, ht, hf⟩ := hf.declare_then_inv
    obtain ⟨-, rfl⟩ := hf.pure_inv
    obtain ⟨rfl, -, rfl⟩ := quiet_resolve.mp hr
    obtain ⟨rfl, -, rfl⟩ := quiet_resolveParams.mp hp
    rw [functionBindings, List.map_cons, List.reverse_cons, List.append_assoc]
    exact ih (place + 1) (h.of_declare rfl ht) hfs

/-- The places of functions are those that their bindings name. -/
theorem functionPlaces_bindings (place : Nat) (fs : List FunctionDecl) :
    (functionPlaces place fs).map (fun x => (x.1, x.2.1)) =
      (functionBindings place fs).map fun b => (b.symbol.name, b.source.resolved) := by
  induction fs generalizing place with
  | nil => rfl
  | cons f fs ih =>
    rw [functionPlaces, functionBindings, List.map_cons, List.map_cons, ih]
    rfl

theorem Program.places_bindings (p : Program) :
    p.places.map (fun x => (x.1, x.2.1)) =
      p.bindings.globals.map fun b => (b.symbol.name, b.source.resolved) := by
  unfold places bindings
  rw [List.map_append, List.map_append, List.map_reverse, List.map_reverse,
    functionPlaces_bindings]
  rfl

/-- A function that has not the name of a built-in is bound globally. -/
theorem functionBindings_global {fs : List FunctionDecl} (place : Nat)
    (h : ∀ f ∈ fs, Builtin.ofName? f.name = none) :
    ∀ b ∈ functionBindings place fs, b.Global := by
  induction fs generalizing place with
  | nil => exact nofun
  | cons f fs ih =>
    obtain ⟨hf, hfs⟩ := List.forall_mem_cons.mp h
    exact List.forall_mem_cons.mpr ⟨.function hf, ih (place + 1) hfs⟩

/-- **Both passes begin with the bindings of the functions and the built-ins.** -/
theorem Program.known_start {signatures : List Signature} {types : TypeTable}
    {pending : UnitId → Prop} (hq : Quiet (declareFunctions p.functions) .initial signatures a)
    (hg : Standing p types g p.places pending) : Known p.bindings a g where
  shows := by
    have hshows := declareFunctions_shows 0 ScopeTable.shows_initial hq
    unfold ScopeTable.builtinSymbols at hshows
    simpa [Bindings.symbols, Program.bindings, Function.comp_def] using hshows
  outside name := by
    rw [hg.outside name, ← lookup_map, p.places_bindings, lookup_map_key]
    rfl
  levelled := trivial
  globals := by
    obtain ⟨-, -, -, hfresh, -⟩ := declareFunctions_sound agrees_initial hq
    have hnone : ∀ f ∈ p.functions, Builtin.ofName? f.name = none := by
      intro f hf
      cases hb : Builtin.ofName? f.name with
      | none => rfl
      | some b => cases (hfresh f hf).symm.trans ((Context.sane_builtins.builtins f.name b).mpr hb)
    refine List.forall_mem_append.mpr ⟨fun b hb => ?_, fun b hb => ?_⟩
    · exact functionBindings_global 0 hnone b (List.mem_reverse.mp hb)
    · obtain ⟨builtin, -, rfl⟩ := List.mem_map.mp (List.mem_reverse.mp hb)
      exact .builtin builtin

/-! ## 2. Functions -/

theorem lowerBlock_eq (block : Block) :
    lowerBlock convert block = lowerStmts convert block.body := by
  obtain ⟨body, span⟩ := block
  rw [lowerBlock, Block.body]

/-- **A callable outside of all others is taken alike.** -/
theorem lowerCallable_alike {returns : Ty} {params : List Param} {body : Block} {id : UnitId}
    {name : String} {a₁ a₂ : Analysis} {u u₁ u₂ u₃ : Unit} (h : Known B a g)
    (ho : B.scopes ++ B.outer = [])
    (ha : Quiet (do enter; declareParams params (paramTypes params)) a u a₁)
    (hb : Quiet (checkBlock (some ⟨returns, none⟩) body) a₁ u₁ a₂) (hl : Quiet leave a₂ u₂ a')
    (hg : lowerCallable convert (.new id name params.length returns) params body g =
      .ok (u₃, g')) :
    CallableAlike ⟨returns, none⟩ B (.new id name params.length returns) params body.body ⟨a, g⟩
      ⟨a', g'⟩ ∧ Known B a' g' := by
  rw [checkBlock_eq] at hb
  obtain ⟨g₂, v, hwritten, hfin, -, rfl⟩ := unit_inv hg
  obtain ⟨_, g₁, hbind, hwritten⟩ := bind_eq_ok.mp hwritten
  rw [lowerBlock_eq] at hwritten
  exact h.callable nofun (fun _ => ho) rfl rfl ha hbind
    (fun hm => checkStmts_alike body.body hm hb hwritten) hl hfin

/-- **The functions are taken alike,** one after the other. -/
theorem checkFunctions_alike {fs : List FunctionDecl} {place : Nat} {u u' : Unit}
    (h : Known B a g) (ho : B.scopes ++ B.outer = [])
    (hq : Quiet (checkFunctions fs (fs.map FunctionDecl.signature)) a u a')
    (hg : lowerFunctions convert place fs g = .ok (u', g')) :
    FunctionsAlike B place fs ⟨a, g⟩ ⟨a', g'⟩ ∧ Known B a' g' := by
  induction fs generalizing a g place with
  | nil =>
    obtain ⟨-, rfl⟩ := hq.pure_inv
    obtain ⟨-, rfl⟩ := pure_eq_ok.mp hg
    exact ⟨.nil, h⟩
  | cons f fs ih =>
    rw [List.map_cons] at hq
    unfold checkFunctions at hq
    obtain ⟨_, a₁, hf, hfs⟩ := hq.bind_inv
    rw [lowerFunctions] at hg
    obtain ⟨_, g₁, hgf, hgfs⟩ := bind_eq_ok.mp hg
    unfold checkFunction at hf
    obtain ⟨_, _, henter, hf⟩ := hf.bind_inv
    obtain ⟨_, _, hparams, hf⟩ := hf.bind_inv
    obtain ⟨_, _, hb, hf⟩ := hf.bind_inv
    obtain ⟨_, _, hleave, hf⟩ := hf.bind_inv
    obtain ⟨-, rfl⟩ := Quiet.report_if.mp hf
    obtain ⟨halike, h₁⟩ := lowerCallable_alike h ho (henter.bind hparams) hb hleave hgf
    obtain ⟨hrest, h₂⟩ := ih h₁ hfs hgfs
    exact ⟨.cons halike hrest, h₂⟩

/-! ## 3. Programs -/

/-- After statements at top level the global scope is the only one. -/
theorem Bindings.add_global (p : Program) (more : List Binding) :
    (p.bindings.add more).scopes ++ (p.bindings.add more).outer = [] := rfl

/-- **Both passes take every name of an accepted program for the same declaration,** and every
    call for the same kind of call. -/
theorem accepted_alike {source : String} {options : Options}
    (hp : parseSource source options = .ok p) (ht : analyze p = .ok types) :
    ∃ code, ProgramAlike p types code := by
  obtain ⟨code, hc⟩ := Compiled.of_accepted (parseSource_nodup hp) ht
  obtain ⟨a, hok, hd, hfiled⟩ := analyze_inv ht
  have hquiet := typeCheck_eq_ok_iff.mp ⟨hok, hd⟩
  obtain ⟨_, hrun⟩ := lowerProgram_of_generate hc.generated
  obtain ⟨rows, hn⟩ := hc.typed
  obtain ⟨-, hnames, -, -, -⟩ := hn
  obtain ⟨g₁, hstanding, -, -, hstart⟩ := standing_start types hnames
  have hq := hquiet
  unfold checkProgram at hq
  obtain ⟨_, a₁, hdecl, hq⟩ := hq.bind_inv
  obtain ⟨_, a₂, hqg, hq⟩ := hq.bind_inv
  obtain ⟨_, a₃, hqf, hq⟩ := hq.bind_inv
  obtain ⟨_, a₄, henter, hq⟩ := hq.bind_inv
  obtain ⟨_, a₅, hqm, hleave⟩ := hq.bind_inv
  obtain ⟨rfl, -, -, -, -⟩ := declareFunctions_sound agrees_initial hdecl
  have hk := Program.known_start hdecl hstanding
  have hboth : Both (declareFunctions p.functions) (do
      reserveFunctions p.functions
      let globals ← reserve
      let main ← reserve
      return (globals, main)) ⟨.initial, .new types⟩ (p.functions.map FunctionDecl.signature)
        (p.globalsUnit, p.mainUnit) ⟨a₁, g₁⟩ :=
    ⟨hdecl, hstart fun globals main => pure (globals, main)⟩
  unfold lowerProgram at hrun
  rw [hstart] at hrun
  obtain ⟨_, g₂, hglobals, hrun⟩ := bind_eq_ok.mp hrun
  obtain ⟨_, g₃, hfunctions, hrun⟩ := bind_eq_ok.mp hrun
  obtain ⟨_, g₄, hmain, hlast⟩ := bind_eq_ok.mp hrun
  obtain ⟨g₅, v, hwritten, hfin, -, rfl⟩ := unit_inv hglobals
  have hm : Meets none p.bindings a₁ { g₁ with current := .newInitializer p.globalsUnit } :=
    ⟨⟨hk.shows, hk.outside, hk.levelled, hk.globals⟩, rfl, rfl, nofun, fun _ => rfl, fun _ => rfl⟩
  obtain ⟨more, hg, hm₂⟩ := checkStmts_alike p.globals hm hqg hwritten
  have hk₂ : Known (p.bindings.add more) a₂ (g₅.finished g₁ v) :=
    ⟨hm₂.shows, hm₂.outside, hm₂.levelled, hm₂.globals⟩
  obtain ⟨hf, hk₃⟩ := checkFunctions_alike hk₂ (Bindings.add_global p more) hqf hfunctions
  obtain ⟨hmain, -⟩ := lowerCallable_alike hk₃ (Bindings.add_global p more)
    (henter.bind (.pure _ _)) hqm hleave hmain
  exact ⟨code, .mk hboth hg hfin hf hmain hquiet hfiled hlast hc.generated⟩

/-- The name `n` is a cell, a parameter, a parameter of a literal, and a slot in a branch. -/
def shadowedSource : String :=
  "let n: int = 1 fn twice(n: int): int \x7b let f: fn(int): int = fn(n: int): int " ++
    "\x7b return n + n \x7d return f(n) \x7d fn main() \x7b if (true) " ++
    "\x7b let n: int = 2 print(twice(n)) \x7d print(len([n])) \x7d"

/-- Each `n` in it is taken for the same declaration by both passes. -/
theorem shadowed_alike : ∃ p types code,
    parseSource shadowedSource ⟨"shadowed", 10, false⟩ = .ok p ∧ analyze p = .ok types ∧
      ProgramAlike p types code := by
  have hok : (parseSource shadowedSource ⟨"shadowed", 10, false⟩).toOption.any fun p =>
      (analyze p).isOk := by decide +kernel
  obtain ⟨p, hp, hanalyze⟩ := exists_of_any hok
  obtain ⟨types, ht⟩ := exists_eq_ok hanalyze
  obtain ⟨code, h⟩ := accepted_alike hp ht
  exact ⟨p, types, code, hp, ht, h⟩

end Stackling
