import Stackling.Proofs.Code.Bindings
import Stackling.Proofs.Code.Verified

/-
  File:     Stackling/Proofs/Code/Meeting.lean
  Subject:  What ties the states of both passes to the bindings in force.

  The analysis holds the symbols of all bindings. The generator holds the places of those that
  belong to its unit, and finds those of the global ones outside of it. Each step that both
  passes make between two parts of a program keeps this up.

  * `Known`       -- what does not depend on the unit in work;
  * `Meets`       -- both passes meet in the unit in work;
  * `Meets.find`  -- a name that is not hidden has a binding, whose place the generator finds;
  * `Meets.callsBuiltin`, `.callsFunction`, `.callsValue` -- the kind of call a callee makes;
  * `Meets.enter`, `.leave`, `.declare` -- the steps inside a unit;
  * `Known.begin`, `.finish` -- the first and the last step of a unit.
-/
namespace Stackling

open Check Generate

/-! ## 1. Bindings -/

/-- In each scope inside the global one the symbols have its level, and are no functions. -/
def Levelled : List (List Binding) → Prop
  | [] => True
  | scope :: rest =>
    (∀ b ∈ scope, b.symbol.level = rest.length + 1 ∧ b.symbol.function = false) ∧ Levelled rest

/-- A binding of the global scope. -/
inductive Binding.Global : Binding → Prop
  | builtin (b : Builtin) : Global ⟨⟨b.name, b.signature, false, true, 0⟩, .builtin b⟩
  | function {name ty place} (h : Builtin.ofName? name = none) :
      Global ⟨⟨name, ty, false, true, 0⟩, .function place⟩
  | cell {name ty constant value n} : Global ⟨⟨name, ty, constant, false, 0⟩, .cell value n⟩

theorem Levelled.lower {upper lower : List (List Binding)} (h : Levelled (upper ++ lower)) :
    Levelled lower := by
  induction upper with
  | nil => exact h
  | cons scope upper ih => exact ih h.2

theorem Levelled.mem {scopes : List (List Binding)} (h : Levelled scopes) {scope : List Binding}
    {b : Binding} (hs : scope ∈ scopes) (hb : b ∈ scope) :
    0 < b.symbol.level ∧ b.symbol.level ≤ scopes.length ∧ b.symbol.function = false := by
  induction scopes with
  | nil => cases hs
  | cons top scopes ih =>
    rcases List.mem_cons.mp hs with rfl | hs
    · obtain ⟨hl, hf⟩ := h.1 b hb
      rw [hl]
      exact ⟨Nat.succ_pos _, Nat.le_refl _, hf⟩
    · obtain ⟨h₁, h₂, h₃⟩ := ih h.2 hs
      exact ⟨h₁, Nat.le_succ_of_le h₂, h₃⟩

/-- The latest binding of a scope is found first. -/
theorem Binding.find?_cons (b : Binding) (scope : List Binding) (name : String) :
    (b :: scope).find? (Binding.isOf name) =
      if name = b.symbol.name then some b else scope.find? (Binding.isOf name) := by
  rw [List.find?_cons]
  by_cases hn : name = b.symbol.name
  · subst hn
    simp [Binding.isOf]
  · rw [if_neg hn, show Binding.isOf name b = false by simpa [Binding.isOf] using Ne.symm hn]

/-- The search among symbols is the search among bindings. -/
theorem findSome?_symbols (scopes : List (List Binding)) (name : String) :
    ((scopes.map fun scope => scope.map Binding.symbol).findSome? fun scope =>
      scope.find? fun s => s.name == name) =
        (scopes.findSome? (List.find? (Binding.isOf name))).map Binding.symbol := by
  induction scopes with
  | nil => rfl
  | cons scope scopes ih =>
    have hscope : (scope.map Binding.symbol).find? (fun s => s.name == name) =
        (scope.find? (Binding.isOf name)).map Binding.symbol := List.find?_map ..
    rw [List.map_cons, List.findSome?_cons, List.findSome?_cons, hscope, ih]
    cases scope.find? (Binding.isOf name) <;> rfl

/-- The search among places is the search among bindings. -/
theorem findSome?_resolved (scopes : List (List Binding)) (name : String) :
    (scopes.map fun scope => scope.map fun b => (b.symbol.name, b.source.resolved)).findSome?
      (List.lookup name) =
        (scopes.findSome? (List.find? (Binding.isOf name))).map fun b => b.source.resolved := by
  induction scopes with
  | nil => rfl
  | cons scope scopes ih =>
    have hscope : (scope.map fun b => (b.symbol.name, b.source.resolved)).lookup name =
        (scope.find? (Binding.isOf name)).map fun b => b.source.resolved := lookup_map_key ..
    rw [List.map_cons, List.findSome?_cons, List.findSome?_cons, hscope, ih]
    cases scope.find? (Binding.isOf name) <;> rfl

namespace Bindings

variable (B : Bindings)

@[simp] theorem add_nil : B.add [] = B := by
  obtain ⟨scopes, outer, globals⟩ := B
  cases scopes <;> rfl

theorem add_append (more more' : List Binding) :
    B.add (more' ++ more) = (B.add more).add more' := by
  obtain ⟨scopes, outer, globals⟩ := B
  cases scopes <;> simp [add]

theorem add_branch (more : List Binding) :
    B.branch.add more = { B with scopes := more :: B.scopes } := by
  simp [branch, add]

/-- The innermost binding of the callable, or else the global one. -/
theorem find?_eq (name : String) : B.find? name =
    (B.scopes.findSome? (List.find? (Binding.isOf name))).or
      (B.globals.find? (Binding.isOf name)) := by
  unfold find?
  rw [List.findSome?_append, List.findSome?_cons]
  cases B.globals.find? (Binding.isOf name) <;> rfl

end Bindings

/-! ## 2. Both passes and the bindings -/

/-- The analysis holds the symbols of all bindings, and outside of the unit in work the generator
    finds the places of the global ones. -/
structure Known (B : Bindings) (a : Analysis) (g : Generator) : Prop where
  shows : a.scopes.Shows B.symbols
  outside : ∀ name, g.outside? name =
    (B.globals.find? (Binding.isOf name)).map fun b => b.source.resolved
  levelled : Levelled (B.scopes ++ B.outer)
  globals : ∀ b ∈ B.globals, b.Global

/-- The generator has the bindings of the unit in work in its scopes. Outside all scopes and all
    callables it writes the unit that stores the cells. -/
structure Meets (within : Option Enclosing) (B : Bindings) (a : Analysis) (g : Generator) : Prop
    extends Known B a g where
  slots : (g.current.scopes.map fun scope => scope.map fun x => (x.1, Resolved.slot x.2)) =
    B.scopes.map fun scope => scope.map fun b => (b.symbol.name, b.source.resolved)
  initializer : g.current.initializer = within.isNone
  floor : ∀ n ∈ within.bind Enclosing.floor?, n = B.outer.length + 1
  outer : within.bind Enclosing.floor? = none → B.outer = []
  outermost : B.scopes = [] → within = none

/-- Nothing is bound and no unit begun. -/
structure SameNames (g g' : Generator) : Prop where
  scopes : g'.current.scopes = g.current.scopes
  initializer : g'.current.initializer = g.current.initializer
  outside : g'.outside? = g.outside?

namespace SameNames

variable {g g₁ g₂ : Generator}

theorem refl (g : Generator) : SameNames g g := ⟨rfl, rfl, rfl⟩

theorem trans (h : SameNames g g₁) (h' : SameNames g₁ g₂) : SameNames g g₂ :=
  ⟨h'.scopes.trans h.scopes, h'.initializer.trans h.initializer, h'.outside.trans h.outside⟩

theorem emit {op : Op} {u : Unit} (h : Generate.emit op g = .ok (u, g₁)) : SameNames g g₁ := by
  obtain ⟨-, rfl⟩ := emit_eq_ok.mp h
  exact ⟨rfl, rfl, rfl⟩

theorem convert {source target : Ty} {u : Unit}
    (h : Generate.convert source target g = .ok (u, g₁)) : SameNames g g₁ := by
  rcases (convert_inv h).1 with rfl | h
  · exact .refl g
  · exact .emit h

theorem label {l : Label} (h : onUnit UnitBuilder.makeLabel g = .ok (l, g₁)) :
    SameNames g g₁ := by
  cases h
  exact ⟨rfl, rfl, rfl⟩

theorem enter (h : SameNames g g₁) : SameNames g.enter g₁.enter :=
  ⟨congrArg ([] :: ·) h.scopes, h.initializer, h.outside⟩

theorem turned {source target : Ty} {op : Op} {u : Unit}
    (h : (do Generate.convert source target; Generate.emit op : Generate Unit) g = .ok (u, g₁)) :
    SameNames g g₁ := by
  obtain ⟨_, _, h₁, h₂⟩ := bind_eq_ok.mp h
  exact (convert h₁).trans (emit h₂)

end SameNames

variable {within : Option Enclosing} {B : Bindings} {a a' : Analysis} {g g' : Generator}
  {name : String}

/-- What changes neither scopes nor names keeps the meeting. -/
theorem Meets.keep (h : Meets within B a g) (ha : a'.scopes = a.scopes) (hg : SameNames g g') :
    Meets within B a' g' where
  shows := ha ▸ h.shows
  outside := hg.outside ▸ h.outside
  levelled := h.levelled
  globals := h.globals
  slots := hg.scopes ▸ h.slots
  initializer := hg.initializer.trans h.initializer
  floor := h.floor
  outer := h.outer
  outermost := h.outermost

/-- Back in the unit around, the passes meet where they did before. -/
theorem Meets.back (h : Meets within B a g) (hk : Known B a' g') (hc : g'.current = g.current) :
    Meets within B a' g' where
  toKnown := hk
  slots := hc ▸ h.slots
  initializer := hc ▸ h.initializer
  floor := h.floor
  outer := h.outer
  outermost := h.outermost

/-! ## 3. Names and calls -/

namespace Meets

/-- The generator finds the places of the bindings of its unit. -/
theorem resolve_slot (h : Meets within B a g) (name : String) :
    (g.current.resolve? name).map Resolved.slot =
      (B.scopes.findSome? (List.find? (Binding.isOf name))).map fun b => b.source.resolved := by
  rw [← findSome?_resolved, ← h.slots]
  exact (findSome?_lookup_map Resolved.slot g.current.scopes name).symm

/-- **A name that has a symbol which is not hidden has a binding,** and the generator finds its
    place. -/
theorem find (h : Meets within B a g) {s : Symbol} (hs : a.scopes.lookup? name = some s)
    (hv : ∀ n ∈ within.bind Enclosing.floor?, s.hiddenBelow n = false) :
    ∃ b, B.find? name = some b ∧ s = b.symbol ∧ g.resolve? name = some b.source.resolved := by
  have hlookup : a.scopes.lookup? name =
      B.symbols.findSome? fun scope => scope.find? fun s => s.name == name := by
    have hshows := h.shows
    cases hB : B.symbols with
    | nil => simp [Bindings.symbols] at hB
    | cons symbols rest => exact (hB ▸ hshows).lookup name
  have hslot := h.resolve_slot name
  rw [hlookup, Bindings.symbols, findSome?_symbols, List.append_assoc, List.findSome?_append,
    List.findSome?_append] at hs
  rw [Bindings.find?_eq, Generator.resolve?_eq]
  cases hup : B.scopes.findSome? (List.find? (Binding.isOf name)) with
  | some b =>
    rw [hup] at hs hslot
    obtain ⟨slot, hr, hb⟩ := Option.map_eq_some_iff.mp hslot
    rw [hr]
    exact ⟨b, rfl, (Option.some.inj hs).symm, congrArg some hb⟩
  | none =>
    rw [hup] at hs hslot
    rw [Option.map_eq_none_iff.mp hslot]
    cases hout : B.outer.findSome? (List.find? (Binding.isOf name)) with
    | some b =>
      -- a binding of a callable further out lies below the floor of the literal
      rw [hout] at hs
      obtain rfl : b.symbol = s := Option.some.inj hs
      obtain ⟨scope, hmem, hb⟩ := List.exists_of_findSome?_eq_some hout
      obtain ⟨hpos, hle, -⟩ := h.levelled.lower.mem hmem (List.mem_of_find?_eq_some hb)
      cases hfl : within.bind Enclosing.floor? with
      | none =>
        rw [h.outer hfl] at hmem
        cases hmem
      | some n =>
        have hn := h.floor n hfl
        have hhidden := hv n hfl
        simp [Symbol.hiddenBelow] at hhidden
        omega
    | none =>
      rw [hout] at hs
      cases hg : B.globals.find? (Binding.isOf name) with
      | none => simp [hg] at hs
      | some b =>
        refine ⟨b, rfl, by simpa [hg] using hs.symm, ?_⟩
        show g.outside? name = _
        rw [h.outside, hg]
        rfl

/-- A binding that a name finds is one of its unit or a global one. -/
theorem kind (h : Meets within B a g) {b : Binding} (hb : B.find? name = some b) :
    b.symbol.name = name ∧
      (b.symbol.function = false ∧ (∃ slot, b.source.resolved = .slot slot) ∨ b.Global) := by
  have hslot := h.resolve_slot name
  rw [Bindings.find?_eq] at hb
  cases hup : B.scopes.findSome? (List.find? (Binding.isOf name)) with
  | some b' =>
    rw [hup] at hb hslot
    obtain rfl : b' = b := Option.some.inj hb
    obtain ⟨slot, -, hr⟩ := Option.map_eq_some_iff.mp hslot
    obtain ⟨scope, hmem, hf⟩ := List.exists_of_findSome?_eq_some hup
    obtain ⟨-, -, hfun⟩ := h.levelled.mem (List.mem_append_left _ hmem)
      (List.mem_of_find?_eq_some hf)
    exact ⟨by simpa [Binding.isOf] using List.find?_some hf, .inl ⟨hfun, slot, hr.symm⟩⟩
  | none =>
    rw [hup] at hb
    have hb : B.globals.find? (Binding.isOf name) = some b := hb
    exact ⟨by simpa [Binding.isOf] using List.find?_some hb,
      .inr (h.globals b (List.mem_of_find?_eq_some hb))⟩

/-- **The analysis takes a call for one of a built-in exactly if the callee is bound to it.** -/
theorem builtinCallee (h : Meets within B a g) {b : Binding} (hb : B.find? name = some b)
    (hl : a.scopes.lookup? name = some b.symbol) {node : Node} {builtin : Builtin} :
    builtinCallee? a.scopes (.name node name) = some builtin ↔ b.source = .builtin builtin := by
  obtain ⟨hname, hkind⟩ := h.kind hb
  rw [builtinCallee?_name, hl]
  constructor
  · rintro ⟨hof, _, ⟨⟩, hfun, -, -⟩
    rcases hkind with ⟨hfun', -⟩ | hglobal
    · cases hfun'.symm.trans hfun
    · cases hglobal with
      | builtin b =>
        have hname : b.name = name := hname
        rw [← hname, Builtin.ofName?_name] at hof
        rw [Option.some.inj hof]
      | @function other _ _ hnone =>
        obtain rfl : other = name := hname
        cases hnone.symm.trans hof
      | cell => cases hfun
  · intro hs
    rcases hkind with ⟨-, slot, hr⟩ | hglobal
    · rw [hs] at hr
      cases hr
    · cases hglobal with
      | builtin b =>
        cases hs
        have hname : builtin.name = name := hname
        exact ⟨hname ▸ Builtin.ofName?_name builtin, _, rfl, rfl, rfl, rfl⟩
      | function | cell => cases hs

/-- A name that is analysed quietly has a binding, and the generator finds its place. -/
theorem bound (h : Meets within B a g) {wanted : Option Ty} {node : Node} {x : Ty}
    (hq : Quiet (checkExpr within wanted (.name node name)) a x a') :
    a'.scopes = a.scopes ∧ ∃ b, B.find? name = some b ∧
      a.scopes.lookup? name = some b.symbol ∧ g.resolve? name = some b.source.resolved := by
  obtain ⟨_, h₁, rfl⟩ := checkExpr_name_inv hq
  obtain ⟨rfl, s, hs, -, hv⟩ := quiet_checkName_iff.mp h₁
  obtain ⟨b, hb, rfl, hr⟩ := h.find hs hv
  exact ⟨rfl, b, hb, hs, hr⟩

/-- A call by name is taken alike if its instruction is that of the binding. -/
theorem callAlike (h : Meets within B a g) {b : Binding} {node : Node} {op : Op}
    (hb : B.find? name = some b) (hl : a.scopes.lookup? name = some b.symbol)
    (h₁ : ∀ builtin, op = .callBuiltin builtin ↔ b.source = .builtin builtin)
    (h₂ : ∀ place, (∃ arity returns, op = .call place arity returns) ↔
      b.source = .function place) : CallAlike B (.name node name) a.scopes op where
  builtin builtin := (h₁ builtin).trans (h.builtinCallee hb hl).symm
  function place := by
    rw [h₂]
    constructor
    · exact fun hs => ⟨node, name, b, rfl, hb, hs⟩
    · rintro ⟨_, _, b', ⟨⟩, hb', hs⟩
      rwa [Option.some.inj (hb.symm.trans hb')]

/-- A built-in is called as such. -/
theorem callsBuiltin (h : Meets within B a g) {b : Binding} {builtin : Builtin}
    (hb : B.find? name = some b) (hl : a.scopes.lookup? name = some b.symbol)
    (hs : b.source = .builtin builtin) (node : Node) :
    CallAlike B (.name node name) a.scopes (.callBuiltin builtin) :=
  h.callAlike hb hl (fun _ => by simp [hs]) fun _ => by simp [hs]

/-- A function is called by its unit. -/
theorem callsFunction (h : Meets within B a g) {b : Binding} {place : UnitId}
    (hb : B.find? name = some b) (hl : a.scopes.lookup? name = some b.symbol)
    (hs : b.source = .function place) (node : Node) (arity : Nat) (returns : Bool) :
    CallAlike B (.name node name) a.scopes (.call place arity returns) :=
  h.callAlike hb hl (fun _ => by simp [hs]) fun _ => by simp [hs]

/-- What is no function and no built-in is called by its value. -/
theorem callsValue (h : Meets within B a g) {b : Binding} (hb : B.find? name = some b)
    (hl : a.scopes.lookup? name = some b.symbol) (h₁ : ∀ builtin, b.source ≠ .builtin builtin)
    (h₂ : ∀ place, b.source ≠ .function place) (node : Node) (arity : Nat) (returns : Bool) :
    CallAlike B (.name node name) a.scopes (.callIndirect arity returns) :=
  h.callAlike hb hl (fun _ => by simp [h₁]) fun _ => by simp [h₂]

end Meets

/-- A call of something that is no name goes to its value. -/
theorem CallAlike.value {callee : Expr} {scopes : ScopeTable} {arity : Nat} {returns : Bool}
    (h : ∀ node name, callee ≠ .name node name) :
    CallAlike B callee scopes (.callIndirect arity returns) where
  builtin b := by
    refine ⟨nofun, fun hb => ?_⟩
    cases callee with
    | name node name => exact absurd rfl (h node name)
    | _ => cases hb
  function place := by
    refine ⟨nofun, ?_⟩
    rintro ⟨node, name, _, rfl, -⟩
    exact absurd rfl (h node name)

/-! ## 4. Scopes and declarations -/

namespace Bindings

theorem symbols_cons (B : Bindings) : ∃ symbols rest, B.symbols = symbols :: rest :=
  List.exists_cons_of_ne_nil (by simp [symbols])

theorem length_symbols (B : Bindings) : B.symbols.length = B.level + 1 := by
  simp [symbols, level, Nat.add_assoc]

end Bindings

/-- The level of a scope that the analysis opens. -/
theorem Known.level_enter (h : Known B a g) : a.scopes.enter.level = B.level + 1 := by
  obtain ⟨symbols, rest, hB⟩ := B.symbols_cons
  have hshows := h.shows
  rw [hB] at hshows
  rw [hshows.enter.level, ← hB, B.length_symbols]

/-- Both passes open a scope. -/
theorem Meets.enter (h : Meets within B a g) :
    Meets within B.branch { a with scopes := a.scopes.enter } g.enter where
  shows := by
    obtain ⟨symbols, rest, hB⟩ := B.symbols_cons
    have hshows := h.shows
    rw [hB] at hshows
    show a.scopes.enter.Shows ([] :: B.symbols)
    rw [hB]
    exact hshows.enter
  outside := h.outside
  levelled := ⟨nofun, h.levelled⟩
  globals := h.globals
  slots := congrArg ([] :: ·) h.slots
  initializer := h.initializer
  floor := h.floor
  outer := h.outer
  outermost := nofun

/-- **Both passes leave a scope,** and meet where they did before it. -/
theorem Meets.leave {a₀ : Analysis} {g₀ : Generator} {more : List Binding} {u : Unit}
    (h : Meets within (B.branch.add more) a g) (h₀ : Meets within B a₀ g₀)
    (ha : Quiet Check.leave a u a') : Meets within B a' g.leave := by
  rw [B.add_branch] at h
  refine ⟨⟨?_, h.outside, h₀.levelled, h₀.globals⟩, ?_, h.initializer, h₀.floor, h₀.outer,
    h₀.outermost⟩
  · obtain ⟨t, ht, rfl⟩ := ha.leave_inv
    obtain ⟨symbols, rest, hB⟩ := B.symbols_cons
    have hne : B.symbols ≠ [] := hB ▸ List.cons_ne_nil _ _
    exact ScopeTable.Shows.of_leave (show _ from h.shows) hne ht
  · show List.map _ g.current.scopes.tail = _
    rw [List.map_tail, h.slots]
    rfl

/-- **Both passes declare a name.** -/
theorem Meets.declare {ty : Ty} {constant : Bool} {value : Nat} {source : Declaration}
    (h : Meets within B a g) (ha : Quiet (Check.declare name ty constant false) a true a')
    (hg : lowerDeclared name value g = .ok (source, g')) :
    Meets within (B.add [⟨⟨name, ty, constant, false, B.level⟩, source⟩]) a' g' := by
  obtain ⟨t, ht, rfl⟩ := ha.declare_inv
  obtain ⟨scopes, outer, globals⟩ := B
  cases scopes with
  | nil =>
    obtain rfl : within = none := h.outermost rfl
    obtain rfl : outer = [] := h.outer rfl
    have hscopes : g.current.scopes = [] := List.map_eq_nil_iff.mp h.slots
    have hcell : g.current.declaresGlobals = true := by
      simp [UnitBuilder.declaresGlobals, hscopes, h.initializer]
    obtain ⟨-, rfl, hemit⟩ := (lowerDeclared_inv hg).resolve_right fun hslot =>
      Bool.noConfusion (hcell.symm.trans hslot.1)
    have hsame := SameNames.emit hemit
    have houtside : ∀ other, g'.outside? other =
        if other = name then some (.global g.globalNames.size) else g.outside? other := by
      intro other
      rw [hsame.outside]
      exact g.outside?_declareGlobal name other
    refine ⟨⟨ScopeTable.Shows.of_declare h.shows rfl ht, fun other => ?_, trivial,
      List.forall_mem_cons.mpr ⟨.cell, h.globals⟩⟩, ?_, ?_, by simp, fun _ => rfl, fun _ => rfl⟩
    · rw [houtside]
      show _ = Option.map _ (List.find? (Binding.isOf other) (_ :: globals))
      rw [Binding.find?_cons]
      by_cases hn : other = name
      · rw [if_pos hn, if_pos hn]
        rfl
      · rw [if_neg hn, if_neg hn]
        exact h.outside other
    · rw [hsame.scopes]
      exact h.slots
    · exact hsame.initializer.trans h.initializer
  | cons scope rest =>
    have hne : g.current.scopes ≠ [] := by
      intro hn
      have hslots := h.slots
      simp [hn] at hslots
    have hslot : g.current.declaresGlobals = false := by
      simp [UnitBuilder.declaresGlobals, hne]
    obtain ⟨-, rfl, hemit⟩ := (lowerDeclared_inv hg).resolve_left fun hcell =>
      Bool.noConfusion (hslot.symm.trans hcell.1)
    have hsame := SameNames.emit hemit
    obtain ⟨top, below, htop⟩ := List.exists_cons_of_ne_nil hne
    have hscopes : (g.bindLocal name).current.scopes =
        ((name, .loc g.current.locals) :: top) :: below := by
      unfold Generator.bindLocal UnitBuilder.bind
      rw [htop]
    have hslots := h.slots
    rw [htop, List.map_cons, List.map_cons, List.cons.injEq] at hslots
    have hlength : ((rest ++ outer ++ [globals]).map fun scope =>
        scope.map Binding.symbol).length = (rest ++ outer).length + 1 := by simp [Nat.add_assoc]
    refine ⟨⟨ScopeTable.Shows.of_declare h.shows hlength ht, fun other => ?_,
      ⟨List.forall_mem_cons.mpr ⟨⟨rfl, rfl⟩, h.levelled.1⟩, h.levelled.2⟩, h.globals⟩, ?_,
      hsame.initializer.trans h.initializer, h.floor, h.outer,
      fun h => absurd h (List.cons_ne_nil _ _)⟩
    · rw [hsame.outside]
      exact h.outside other
    · rw [hsame.scopes, hscopes]
      show (_ :: List.map _ top) :: List.map _ below = (_ :: List.map _ scope) :: List.map _ rest
      rw [hslots.1, hslots.2]
      rfl

/-! ## 5. Callables -/

/-- Parameters are declared in the innermost scope, one after the other. -/
theorem declareParams_shows {params : List Param} {symbols : List Symbol}
    {rest : List (List Symbol)} {u : Unit} (h : a.scopes.Shows (symbols :: rest))
    (hq : Quiet (declareParams params (paramTypes params)) a u a') :
    a'.scopes.Shows (((params.map fun p =>
      (⟨p.name, p.written.toTy, false, false, rest.length⟩ : Symbol)).reverse ++ symbols) ::
        rest) := by
  induction params generalizing a symbols with
  | nil =>
    obtain ⟨-, rfl⟩ := hq.pure_inv
    exact h
  | cons p params ih =>
    simp only [paramTypes, List.map_cons, declareParams] at hq
    obtain ⟨t, ht, hq⟩ := hq.declare_then_inv
    rw [List.map_cons, List.reverse_cons, List.append_assoc]
    exact ih (h.of_declare rfl ht) hq

/-- The symbols of parameters. -/
theorem Bindings.symbols_callable (B : Bindings) (params : List Param) :
    (B.callable params).symbols = (params.map fun p =>
      (⟨p.name, p.written.toTy, false, false, B.level + 1⟩ : Symbol)).reverse :: B.symbols := by
  have hparams : ((params.zipIdx.map fun x => (⟨⟨x.1.name, x.1.written.toTy, false, false,
      B.level + 1⟩, .param x.2⟩ : Binding)).reverse).map Binding.symbol = (params.map fun p =>
        (⟨p.name, p.written.toTy, false, false, B.level + 1⟩ : Symbol)).reverse := by
    rw [List.map_reverse, List.map_map]
    congr 1
    calc params.zipIdx.map _
      _ = (params.zipIdx.map Prod.fst).map fun p =>
          (⟨p.name, p.written.toTy, false, false, B.level + 1⟩ : Symbol) := by
        rw [List.map_map]
        rfl
      _ = _ := by rw [List.zipIdx_map_fst]
  rw [← hparams]
  rfl

/-- **Both passes begin a callable,** whatever unit the generator is in. -/
theorem Known.begin {f : Enclosing} {params : List Param} {builder : UnitBuilder} {u u' : Unit}
    (h : Known B a g) (hf : ∀ n ∈ f.floor?, n = B.level + 1)
    (ho : f.floor? = none → B.scopes ++ B.outer = [])
    (ha : Quiet (do enter; declareParams params (paramTypes params)) a u a')
    (hg : bindParams params { g with current := builder } = .ok (u', g'))
    (hs : builder.scopes = []) (hi : builder.initializer = false) :
    Meets (some f) (B.callable params) a' g' := by
  obtain ⟨_, a₁, henter, hparams⟩ := ha.bind_inv
  obtain rfl := henter.enter_inv
  rw [bindParams_ok] at hg
  cases hg
  obtain ⟨symbols, rest, hB⟩ := B.symbols_cons
  have hshows := h.shows
  rw [hB] at hshows
  have hshows := declareParams_shows hshows.enter hparams
  rw [← hB, List.append_nil] at hshows
  rw [B.length_symbols, ← B.symbols_callable] at hshows
  refine ⟨⟨hshows, h.outside, ⟨fun b hb => ?_, h.levelled⟩, h.globals⟩, ?_, hi, hf, ho, nofun⟩
  · obtain ⟨x, -, rfl⟩ := List.mem_map.mp (List.mem_reverse.mp hb)
    exact ⟨rfl, rfl⟩
  · simp [hs, argScope, slotScope, Bindings.callable, Declaration.resolved, Function.comp_def]

/-- **Both passes leave a callable,** and know what they knew before it. -/
theorem Known.finish {f : Enclosing} {params : List Param} {more : List Binding}
    {a₁ a₂ : Analysis} {g₁ : Generator} {v : CodeUnit} {u : Unit} (h : Known B a g)
    (hm : Meets (some f) ((B.callable params).add more) a₁ g₁)
    (ha : Quiet Check.leave a₁ u a₂) : Known B a₂ (g₁.finished g v) where
  shows := by
    obtain ⟨t, ht, rfl⟩ := ha.leave_inv
    obtain ⟨symbols, rest, hB⟩ := B.symbols_cons
    have hne : B.symbols ≠ [] := hB ▸ List.cons_ne_nil _ _
    exact hm.shows.of_leave hne ht
  outside := hm.outside
  levelled := h.levelled
  globals := h.globals

end Stackling
