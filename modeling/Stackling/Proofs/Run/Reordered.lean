import Mathlib.Data.List.Perm.Basic
import Stackling.Proofs.Run.Correctness
import Stackling.Proofs.Run.Renumbered
import Stackling.Proofs.Typing.FunctionOrder

/-
  File:     Stackling/Proofs/Run/Reordered.lean
  Subject:  The order in which functions are declared does not matter.

  The unit of a function has the place of its declaration for a number. In another order the
  functions have other numbers, and everything else has the number that it had, as long as no
  body of a function has units of its own: the names of these count all literals before them.

  * `Program.renumber`    -- the number of a unit when the functions stand in another order;
  * `Program.renumbered`  -- the program in another order has the same callables;
  * `parse_reordered`     -- every order has the same diagnostics, types and runs.
-/
namespace Stackling

variable {p : Program} {fs : List FunctionDecl}

/-! ## 1. Other numbers -/

/-- The number of a unit of `p` when the functions stand in the order `fs`. -/
def Program.renumber (p : Program) (fs : List FunctionDecl) (unit : UnitId) : UnitId :=
  match p.functions[unit]? with
  | some f => fs.findIdx (·.name == f.name)
  | none => unit

theorem Program.renumber_of_le {unit : UnitId} (h : p.functions.length ≤ unit) :
    p.renumber fs unit = unit := by
  rw [renumber, List.getElem?_eq_none h]

section

variable (hperm : p.functions.Perm fs) (hn : (p.functions.map (·.name)).Nodup)
include hperm hn

/-- A function has its place in the other order for a number. -/
theorem Program.getElem?_renumber {unit : UnitId} {f : FunctionDecl}
    (h : p.functions[unit]? = some f) : fs[p.renumber fs unit]? = some f := by
  have hf : f ∈ p.functions := List.mem_of_getElem? h
  have hlt : fs.findIdx (·.name == f.name) < fs.length :=
    List.findIdx_lt_length_of_exists ⟨f, hperm.mem_iff.mp hf, beq_self_eq_true f.name⟩
  have hname : fs[fs.findIdx (·.name == f.name)].name = f.name := by
    simpa using List.findIdx_getElem (w := hlt)
  have hg : fs[fs.findIdx (·.name == f.name)] ∈ p.functions :=
    hperm.mem_iff.mpr (List.getElem_mem hlt)
  rw [renumber, h, List.getElem?_eq_getElem hlt, List.inj_on_of_nodup_map hn hg hf hname]

theorem Program.renumber_lt {unit : UnitId} (h : unit < p.functions.length) :
    p.renumber fs unit < p.functions.length := by
  have := getElem?_renumber hperm hn (List.getElem?_eq_getElem h)
  rw [hperm.length_eq]
  exact (List.getElem?_eq_some_iff.mp this).1

/-- Different units have different numbers. -/
theorem Program.renumber_injective : Function.Injective (p.renumber fs) := by
  intro i j hij
  by_cases hi : i < p.functions.length
  · have hfi := List.getElem?_eq_getElem hi
    have hlt := renumber_lt hperm hn hi
    by_cases hj : j < p.functions.length
    · have hfj := List.getElem?_eq_getElem hj
      have h := getElem?_renumber hperm hn hfi
      rw [hij, getElem?_renumber hperm hn hfj, Option.some.injEq] at h
      exact ((List.Nodup.of_map _ hn).getElem_inj_iff).mp h.symm
    · rw [hij, renumber_of_le (Nat.le_of_not_lt hj)] at hlt
      exact absurd hlt hj
  · rw [renumber_of_le (Nat.le_of_not_lt hi)] at hij
    by_cases hj : j < p.functions.length
    · exact absurd (hij ▸ renumber_lt hperm hn hj) hi
    · rwa [renumber_of_le (Nat.le_of_not_lt hj)] at hij

omit hn in
/-- A name is that of the same function. -/
theorem Program.findIdx?_renumber (name : String) :
    fs.findIdx? (·.name == name) =
      (p.functions.findIdx? (·.name == name)).map (p.renumber fs) := by
  cases h : p.functions.findIdx? (·.name == name) with
  | none =>
    rw [List.findIdx?_eq_none_iff] at h
    rw [Option.map_none, List.findIdx?_eq_none_iff]
    exact fun f hf => h f (hperm.mem_iff.mpr hf)
  | some i =>
    obtain ⟨hi, hname, -⟩ := List.findIdx?_eq_some_iff_getElem.mp h
    have hf := List.getElem?_eq_getElem hi
    have hmem : p.functions[i] ∈ fs := hperm.mem_iff.mp (List.getElem_mem hi)
    obtain rfl : p.functions[i].name = name := by simpa using hname
    rw [Option.map_some, renumber, hf]
    exact List.findIdx?_eq_some_of_exists ⟨_, hmem, beq_self_eq_true _⟩

end

/-! ## 2. The same callables -/

theorem functionLiterals_eq (fs : List FunctionDecl) :
    functionLiterals fs = fs.flatMap (·.body.literals) := by
  induction fs with
  | nil => rfl
  | cons f fs ih => rw [functionLiterals, ih, List.flatMap_cons]

theorem Program.literals_reordered (hperm : p.functions.Perm fs)
    (hlit : functionLiterals p.functions = []) : (p.reordered fs).literals = p.literals := by
  have hfs : functionLiterals fs = [] := by
    rw [functionLiterals_eq] at hlit ⊢
    rw [List.flatMap_eq_nil_iff] at hlit ⊢
    exact fun f hf => hlit f (hperm.mem_iff.mpr hf)
  simp only [literals, reordered, hlit, hfs]

theorem Program.callables_of_le {unit : UnitId} (h : p.functions.length ≤ unit) :
    p.callables[unit]? = ([p.globalsCallable, p.mainCallable]
      ++ p.literals.mapIdx Literal.callable)[unit - p.functions.length]? := by
  rw [callables, List.append_assoc, List.getElem?_append_right (by rwa [List.length_map]),
    List.length_map]

/-- **In another order the program has the same callables,** if no function has literals. -/
theorem Program.renumbered (hperm : p.functions.Perm fs)
    (hn : (p.functions.map (·.name)).Nodup) (hlit : functionLiterals p.functions = []) :
    p.Renumbered (p.renumber fs) (p.reordered fs) where
  injective := renumber_injective hperm hn
  cells := rfl
  functions := findIdx?_renumber hperm
  places id := by rw [placeOf, placeOf, literals_reordered hperm hlit]
  literals place := by
    rw [renumber_of_le (by rw [literalUnit]; omega), literalUnit, literalUnit, reordered,
      hperm.length_eq]
  callables unit := by
    rcases Nat.lt_or_ge unit p.functions.length with hlt | hge
    · have hf := List.getElem?_eq_getElem hlt
      rw [callable_function hf]
      exact callable_function (p := p.reordered fs) (getElem?_renumber hperm hn hf)
    · have hge' : (p.reordered fs).functions.length ≤ unit := hperm.length_eq ▸ hge
      rw [renumber_of_le hge, callables_of_le hge, callables_of_le hge',
        literals_reordered hperm hlit, reordered, hperm.length_eq]
      rfl
  globals := by
    rw [renumber_of_le (by rw [globalsUnit]), globalsUnit, globalsUnit, reordered, hperm.length_eq]
  main := by
    rw [renumber_of_le (by rw [mainUnit]; omega), mainUnit, mainUnit, reordered,
      hperm.length_eq]

/-! ## 3. The same runs -/

/-- **The order of the functions does not matter.** If no two functions of a program have the
    same name, then in every order of the functions the analysis makes the same reports, in
    some order, and files the same types. If it accepts the program and no function contains
    a function literal, then the code of every order ends alike and writes the same, whatever
    number of frames and whatever sink it has. -/
theorem parse_reordered {tokens : List Token} {p : Program} (h : parse tokens = .ok p)
    (hn : (p.functions.map (·.name)).Nodup) {fs : List FunctionDecl}
    (hperm : p.functions.Perm fs) :
    ∃ a a', typeCheck p = .ok a ∧ typeCheck (p.reordered fs) = .ok a' ∧
      a.diagnostics.Perm a'.diagnostics ∧ (∀ id, a.types.find? id = a'.types.find? id) ∧
      (a.diagnostics = [] → functionLiterals p.functions = [] →
        ∃ code code', generate p a.types = .ok code ∧
          generate (p.reordered fs) a'.types = .ok code' ∧
          ∀ limit sink, execute code limit sink = execute code' limit sink) := by
  have hids : p.ids.Nodup := parse_nodup h
  obtain ⟨a, a', ha, ha', hdiag, htypes⟩ := typeCheck_perm hids hn hperm
  refine ⟨a, a', ha, ha', hdiag, htypes, fun hd hlit => ?_⟩
  have hd' : a'.diagnostics = [] := (hd ▸ hdiag).symm.eq_nil
  have hids' : (p.reordered fs).ids.Nodup := by
    have hfs : (functionIds p.functions).Perm (functionIds fs) := by
      rw [functionIds_eq, functionIds_eq]
      exact hperm.flatMap_right _
    exact ((hfs.append_left _).append_right _).nodup_iff.mp hids
  obtain ⟨code, hcode⟩ := Compiled.of_accepted hids (analyze_of_accepted ha hd)
  obtain ⟨code', hcode'⟩ := Compiled.of_accepted hids' (analyze_of_accepted ha' hd')
  refine ⟨code, code', hcode.generated, hcode'.generated, fun limit sink => ?_⟩
  have heval := (Program.renumbered hperm hn hlit).evaluate (fun id => (htypes id).symm) limit sink
  rw [hcode.evaluates, hcode'.evaluates] at heval
  exact (Option.some.inj heval).symm

/-- Two functions that call each other, and one of them as a value. -/
def evenOddSource : String :=
  "fn even(n: int): bool \x7b if (n == 0) \x7b return true \x7d return odd(n - 1) \x7d " ++
    "fn odd(n: int): bool \x7b if (n == 0) \x7b return false \x7d return even(n - 1) \x7d " ++
    "fn main() \x7b let f: fn(int): bool = odd print(f) print(f == even) print(f(3)) \x7d"

/-- With `odd` before `even`, the code does the same. -/
theorem evenOdd_reordered :
    ∃ tokens p a a' code code', tokenize evenOddSource = .ok tokens ∧ parse tokens = .ok p ∧
      p.functions.map (·.name) = ["even", "odd"] ∧ typeCheck p = .ok a ∧
      typeCheck (p.reordered p.functions.reverse) = .ok a' ∧ a.diagnostics = [] ∧
      generate p a.types = .ok code ∧
      generate (p.reordered p.functions.reverse) a'.types = .ok code' ∧
      (execute code 10 .unbounded).ending = .done ∧
      (execute code 10 .unbounded).sink.taken = "<fn odd>\nfalse\ntrue\n".toUTF8 ∧
      execute code 10 .unbounded = execute code' 10 .unbounded := by
  have hok : (tokenize evenOddSource >>= parse).isOk = true := by decide +kernel
  have hprogram : (tokenize evenOddSource >>= parse).toOption.all fun p =>
      p.functions.map (·.name) = ["even", "odd"] ∧ (functionLiterals p.functions).isEmpty ∧
      (typeCheck p).toOption.all fun a => a.diagnostics = [] ∧
        (generate p a.types).toOption.all fun code =>
          (execute code 10 .unbounded).ending = .done ∧
          (execute code 10 .unbounded).sink.taken = "<fn odd>\nfalse\ntrue\n".toUTF8 := by
    decide +kernel
  obtain ⟨p, hp⟩ := exists_eq_ok hok
  obtain ⟨tokens, htokens, hparse⟩ := except_bind_eq_ok.mp hp
  rw [hp] at hprogram
  obtain ⟨hnames, hlit, hrun⟩ := of_decide_eq_true hprogram
  have hn : (p.functions.map (·.name)).Nodup := by
    rw [hnames]
    decide
  obtain ⟨a, a', ha, ha', -, -, hcode⟩ := parse_reordered hparse hn (List.reverse_perm _).symm
  rw [ha] at hrun
  obtain ⟨hd, hrun⟩ := of_decide_eq_true hrun
  obtain ⟨code, code', hg, hg', hsame⟩ := hcode hd (List.isEmpty_iff.mp hlit)
  rw [hg] at hrun
  obtain ⟨hdone, htaken⟩ := of_decide_eq_true hrun
  exact ⟨tokens, p, a, a', code, code', htokens, hparse, hnames, ha, ha', hd, hg, hg', hdone,
    htaken, hsame 10 .unbounded⟩

end Stackling
