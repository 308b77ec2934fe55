import Stackling.Proofs.Code.CellStores
import Stackling.Proofs.Text.Decimal

/-
  File:     Stackling/Proofs/Code/Linked.lean
  Subject:  The units of a program fit together.

  A unit says of itself which number it has and whether it returns a value; a call says what
  it expects of the unit it calls; and the instructions that leave a unit return a value or
  none. The first is filed when a unit is finished, the second is written while other units are
  only reserved, the third while the unit is in work. In the code of an accepted program they
  agree.

  * `CodeUnit.Leaves`   -- how a unit is left agrees with what it says of itself;
  * `Linked`            -- units, their names, and the calls between them;
  * `accepted_linked`   -- an accepted program has code that is linked.
-/
namespace Stackling

open Generate

variable {p : Program} {types : TypeTable} {code : Bytecode}

/-! ## 1. Names -/

/-- **Different literals have units of different names.** -/
theorem literalName_injective : Function.Injective literalName := by
  intro i j h
  have h := congrArg String.toList h
  simp only [literalName, String.toList_append, List.append_cancel_right_eq,
    List.append_cancel_left_eq] at h
  have hdigits : Nat.toDigits 10 (i + 1) = Nat.toDigits 10 (j + 1) := by
    rwa [← Nat.toList_repr, ← Nat.toList_repr]
  exact Nat.succ.inj (Text.toDigits_injective (by decide) (by decide) hdigits)

theorem names_callables (p : Program) : p.callables.map (·.name) =
    p.functions.map (·.name) ++ ["<globals>", "main"] ++
      (List.range p.literals.length).map literalName := by
  have hliterals : (p.literals.mapIdx Literal.callable).map (·.name) =
      (List.range p.literals.length).map literalName := by
    apply List.ext_getElem <;> simp [Literal.callable]
  rw [Program.callables, List.map_append, List.map_append, List.map_map, hliterals]
  rfl

/-! ## 2. What a unit says of itself -/

/-- **How a unit is left** agrees with what it says of itself: with a value, or with the fault
    that one is missing, if it returns a value, and without a value otherwise. -/
structure CodeUnit.Leaves (u : CodeUnit) : Prop where
  last : u.ops.back? = some (if u.returns then .missingReturn else .retVoid)
  value : ∀ op ∈ u.ops, op = .ret ∨ op = .missingReturn → u.returns = true
  nothing : ∀ op ∈ u.ops, op = .retVoid → u.returns = false

/-- **A unit of generated code stands under its own number,** and its last instruction tells
    whether it returns a value. -/
theorem generate_filed (h : generate p types = .ok code) {id : UnitId} {u : CodeUnit}
    (hu : code.unit? id = some u) : u.FiledUnder id := by
  obtain ⟨_, hrun⟩ := lowerProgram_of_generate h
  obtain ⟨g, hb, -, hunits⟩ := lowerProgram_balanced (Generator.balanced_new types) hrun
  exact hb.filed id u (held_of_unit hunits hu)

/-- The unit that a run starts with has a name no other unit has, and returns nothing. -/
theorem generate_entry (h : generate p types = .ok code) :
    ∃ u, code.unit? code.entry = some u ∧ u.name = "<entry>" ∧ u.returns = false := by
  obtain ⟨_, hrun⟩ := lowerProgram_of_generate h
  obtain ⟨g₁, -, -, g₄, g₅, -, -, -, -, hunit, -, hentry, hunits⟩ := lowerProgram_inv hrun
  obtain ⟨g₆, u, hbody, hfin, hlt, rfl⟩ := unit_inv hunit
  obtain ⟨_, g₇, h₁, h₂⟩ := bind_eq_ok.mp hbody
  obtain ⟨-, rfl⟩ := emit_eq_ok.mp h₁
  obtain ⟨-, rfl⟩ := emit_eq_ok.mp h₂
  obtain ⟨-, hid, hname, hreturns, -⟩ := finish_inv hfin
  have hid : u.id = code.entry := hid.trans hentry.symm
  have hheld : (code.units.toList.map some)[u.id]? = some (some u) := by
    rw [← hunits, Array.getElem?_toList]
    exact Array.getElem?_setIfInBounds_self_of_lt hlt
  rw [List.getElem?_map, Option.map_eq_some_iff] at hheld
  obtain ⟨v, hv, hvu⟩ := hheld
  obtain rfl : v = u := Option.some.inj hvu
  exact ⟨v, by rw [← hid, Bytecode.unit?, ← Array.getElem?_toList]; exact hv, hname, hreturns⟩

namespace Compiled

/-- **The unit of a callable** takes as many arguments and returns a value if the callable
    does. -/
theorem unit (h : Compiled p types code) {id : UnitId} {c : CallableDecl}
    (hc : p.callables[id]? = some c) :
    ∃ u, code.unit? id = some u ∧ u.name = c.name ∧ u.arity = c.params.length ∧
      u.returns = !c.returns.isVoid := by
  obtain ⟨globals, hplaced⟩ := h.placed.callables id c hc
  cases hplaced with
  | @mk _ _ _ u _ pc hu hn ha _ _ _ _ ht _ hs =>
    have hlast := (generate_filed h.generated hu).last
    rw [Array.back?_eq_getElem?, hs, Nat.add_sub_cancel, ht, terminatorOf] at hlast
    refine ⟨u, hu, hn, ha, ?_⟩
    cases hv : c.returns.isVoid <;> cases hr : u.returns <;> rw [hv, hr] at hlast <;>
      first | rfl | cases hlast

/-- An instruction of a unit is the last one or leaves the unit as the unit says. -/
theorem leaving (h : Compiled p types code) {id : UnitId} {u : CodeUnit} {i : Nat} {op : Op}
    (hu : code.unit? id = some u) (hop : u.ops[i]? = some op) :
    op = (if u.returns then .missingReturn else .retVoid) ∨
      op ≠ .missingReturn ∧ (op = .ret → u.returns = true) ∧
        (op = .retVoid → u.returns = false) := by
  rcases h.placed.units_cases hu with ⟨c, hc⟩ | rfl
  · obtain ⟨w, hw, -, -, hreturns⟩ := h.unit hc
    obtain rfl : u = w := Option.some.inj (hu.symm.trans hw)
    rw [hreturns]
    rcases h.placed.linked hc hu hop with hlinked | ⟨-, ht⟩
    · refine .inr ⟨?_, ?_, ?_⟩ <;> rintro rfl
      · exact hlinked
      · rw [Ty.isVoid_eq_false hlinked.2, Bool.not_false]
      · rw [hlinked.2]
        rfl
    · left
      rw [ht, terminatorOf]
      cases c.returns.isVoid <;> rfl
  · obtain ⟨w, hw, -, hreturns⟩ := generate_entry h.generated
    obtain rfl : u = w := Option.some.inj (hu.symm.trans hw)
    rw [hreturns]
    rcases h.placed.entry_op hu hop with ⟨-, rfl⟩ | ⟨-, rfl⟩ | ⟨-, rfl⟩
    · exact .inr ⟨by simp, by simp, by simp⟩
    · exact .inr ⟨by simp, by simp, by simp⟩
    · exact .inl rfl

/-- **Each unit is left** as it says. -/
theorem leaves (h : Compiled p types code) {id : UnitId} {u : CodeUnit}
    (hu : code.unit? id = some u) : u.Leaves := by
  refine ⟨(generate_filed h.generated hu).last, fun op hop hleave => ?_, fun op hop hleave => ?_⟩
  · obtain ⟨i, hi⟩ := Array.getElem?_of_mem hop
    by_contra hno
    rcases h.leaving hu hi with hlast | ⟨hne, hret, -⟩
    · rw [if_neg hno] at hlast
      subst hlast
      rcases hleave with h | h <;> cases h
    · exact hleave.elim (fun he => hno (hret he)) hne
  · obtain ⟨i, hi⟩ := Array.getElem?_of_mem hop
    by_contra hyes
    rw [Bool.not_eq_false] at hyes
    rcases h.leaving hu hi with hlast | ⟨-, -, hvoid⟩
    · rw [if_pos hyes] at hlast
      cases hleave.symm.trans hlast
    · cases hyes.symm.trans (hvoid hleave)

/-- **A call** names a unit that takes as many arguments, and expects a value if the unit
    returns one. -/
theorem calls (h : Compiled p types code) {id target : UnitId} {u : CodeUnit} {arity i : Nat}
    {returns : Bool} (hu : code.unit? id = some u)
    (hop : u.ops[i]? = some (.call target arity returns)) :
    ∃ v, code.unit? target = some v ∧ v.arity = arity ∧ v.returns = returns := by
  rcases h.placed.units_cases hu with ⟨c, hc⟩ | rfl
  · rcases h.placed.linked hc hu hop with ⟨f, hf, rfl, rfl⟩ | ⟨-, ht⟩
    · obtain ⟨v, hv, -, harity, hreturns⟩ := h.unit (Program.callable_function hf)
      exact ⟨v, hv, harity, hreturns⟩
    · exact absurd ht (ne_terminatorOf (by rintro (h | h) <;> cases h) _)
  · rcases h.placed.entry_op hu hop with ⟨-, ⟨⟩⟩ | ⟨-, ⟨⟩⟩ | ⟨-, h⟩
    · obtain ⟨v, hv, -, harity, hreturns⟩ := h.unit Program.callable_globals
      exact ⟨v, hv, harity, hreturns⟩
    · obtain ⟨v, hv, -, harity, hreturns⟩ := h.unit Program.callable_main
      exact ⟨v, hv, harity, hreturns⟩
    · cases h

/-- **The names of the units,** in order. -/
theorem names (h : Compiled p types code) :
    code.units.toList.map (·.name) = p.callables.map (·.name) ++ ["<entry>"] := by
  have hlength : p.callables.length = code.entry := by
    rw [Program.length_callables, h.placed.last]
  apply List.ext_getElem?
  intro id
  rw [List.getElem?_map, Array.getElem?_toList]
  rcases Nat.lt_trichotomy id code.entry with hlt | rfl | hgt
  · rw [List.getElem?_append_left (by simpa [hlength] using hlt), List.getElem?_map]
    have hc := List.getElem?_eq_getElem (hlength ▸ hlt)
    obtain ⟨u, hu, hn, -⟩ := h.unit hc
    rw [hc, show code.units[id]? = some u from hu]
    exact congrArg some hn
  · obtain ⟨u, hu, hn, -⟩ := generate_entry h.generated
    rw [List.getElem?_append_right (by simp [hlength]),
      show code.units[code.entry]? = some u from hu]
    simp [hlength, hn]
  · rw [Array.getElem?_eq_none (by rw [h.placed.size, ← h.placed.last]; exact hgt),
      List.getElem?_eq_none (by simp [hlength]; exact hgt)]
    rfl

end Compiled

/-! ## 3. Programs -/

/-- **The units of a program fit together.** -/
structure Linked (p : Program) (types : TypeTable) (code : Bytecode) : Prop where
  /-- every unit stands under its own number -/
  ids : ∀ id u, code.unit? id = some u → u.id = id
  /-- the functions in order, the statements at top level, `main`, the literals, and last the
      unit that a run starts with -/
  names : code.units.toList.map (·.name) = p.functions.map (·.name) ++ ["<globals>", "main"] ++
    (List.range p.literals.length).map literalName ++ ["<entry>"]
  entry : code.entry + 1 = code.units.size
  /-- no two literals are one expression of the program -/
  literals : (p.literals.map (·.node.id)).Nodup
  /-- nor have two units of literals one name -/
  distinct : ((List.range p.literals.length).map literalName).Nodup
  /-- each of them, the literals included, has its own code in its unit -/
  written : ∀ id c, p.callables[id]? = some c → ∃ u globals, code.unit? id = some u ∧
    u.arity = c.params.length ∧ u.returns = (!c.returns.isVoid) ∧
    CallablePlaced p types code id c globals
  calls : ∀ u ∈ code.units, ∀ target arity returns, .call target arity returns ∈ u.ops →
    ∃ v, code.unit? target = some v ∧ v.arity = arity ∧ v.returns = returns
  leaves : ∀ u ∈ code.units, u.Leaves

/-- **Calls link:** an accepted program has code whose units fit together. -/
theorem accepted_linked {source : String} {options : Options} {p : Program} {types : TypeTable}
    (hp : parseSource source options = .ok p) (ht : analyze p = .ok types) :
    ∃ code, generate p types = .ok code ∧ Linked p types code := by
  have hids := parseSource_nodup hp
  obtain ⟨code, h⟩ := Compiled.of_accepted hids ht
  refine ⟨code, h.generated, fun id u hu => (generate_filed h.generated hu).id, ?_, ?_,
    Program.nodup_literals hids, List.nodup_range.map literalName_injective, fun id c hc => ?_,
    fun u hu target arity returns hop => ?_, fun u hu => ?_⟩
  · rw [h.names, names_callables]
  · rw [h.placed.last, h.placed.size]
  · obtain ⟨u, hu, -, harity, hreturns⟩ := h.unit hc
    obtain ⟨globals, hplaced⟩ := h.placed.callables id c hc
    exact ⟨u, globals, hu, harity, hreturns, hplaced⟩
  · obtain ⟨id, hid⟩ := Array.getElem?_of_mem hu
    obtain ⟨i, hi⟩ := Array.getElem?_of_mem hop
    exact h.calls hid hi
  · obtain ⟨id, hid⟩ := Array.getElem?_of_mem hu
    exact h.leaves hid

/-- A literal in a literal, one in a call of a function, and functions that call each other. -/
def nestedSource : String :=
  "let add: fn(int): fn(int): int = fn(a: int): fn(int): int \x7b " ++
    "return fn(b: int): int \x7b return b + 1 \x7d \x7d " ++
    "fn twice(f: fn(int): int, n: int): int \x7b return f(f(n)) \x7d fn show(n: int): void " ++
    "\x7b print(twice(add(n), n)) \x7d fn main() \x7b show(3) " ++
    "print(twice(fn(n: int): int \x7b return n \x7d, 2)) \x7d"

/-- Its units fit together. -/
theorem nested_linked : ∃ p types code,
    parseSource nestedSource ⟨"nested", 10, false⟩ = .ok p ∧ analyze p = .ok types ∧
      p.literals.length = 3 ∧ generate p types = .ok code ∧ Linked p types code := by
  have hok : (parseSource nestedSource ⟨"nested", 10, false⟩).toOption.any fun p =>
      (analyze p).isOk && p.literals.length == 3 := by decide +kernel
  obtain ⟨p, hp, hp'⟩ := exists_of_any hok
  obtain ⟨hanalyze, hcount⟩ := (Bool.and_eq_true _ _).mp hp'
  obtain ⟨types, ht⟩ := exists_eq_ok hanalyze
  obtain ⟨code, hcode, h⟩ := accepted_linked hp ht
  exact ⟨p, types, code, hp, ht, by simpa using hcount, hcode, h⟩

end Stackling
