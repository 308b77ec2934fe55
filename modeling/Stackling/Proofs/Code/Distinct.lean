import Stackling.Proofs.Code.Callables
import Stackling.Proofs.Typing.Programs

/-
  File:     Stackling/Proofs/Code/Distinct.lean
  Subject:  A global name stands for one thing only.

  Cells, functions and built-ins share one scope, and each declaration in it is new. So a name
  tells its cell, its function or its built-in.

  * `StmtsTyped.names`       -- statements at top level add the names of their cells;
  * `Program.Distinct`       -- no two global names are the same;
  * `ProgramTyped.distinct`  -- so it is in a well typed program.
-/
namespace Stackling

/-- The names of some global declarations. -/
def globalNamesOf (globals : List (String × Entity)) : List String := globals.map (·.1)

mutual
/-- **A statement outside all scopes adds the names of its cells,** and they are new. -/
theorem StmtTyped.names {Γ Γ' : Context} {returns : Option Ty} {rows : Rows} : (s : Stmt) →
    StmtTyped Γ returns s Γ' rows → Γ.scopes = [] → (globalNamesOf Γ.globals).Nodup →
    globalNamesOf Γ'.globals = (s.cells.map (·.1)).reverse ++ globalNamesOf Γ.globals ∧
      (globalNamesOf Γ'.globals).Nodup
  | .declare .., .declare _ _ _ hd, hs, hn => by
    cases hd with
    | global fresh => exact ⟨rfl, List.nodup_cons.mpr ⟨lookup_eq_none_iff.mp fresh, hn⟩⟩
    | «local» => cases hs
  | .returns _ none, .returnsNothing, _, hn => ⟨rfl, hn⟩
  | .returns _ (some _), .returns _, _, hn => ⟨rfl, hn⟩
  | .expr _, .expr _, _, hn => ⟨rfl, hn⟩
  | .branch .., .branch _ _, _, hn => ⟨rfl, hn⟩
  | .branch .., .branchElse _ _ _, _, hn => ⟨rfl, hn⟩
  | .print .., .print _ _, _, hn => ⟨rfl, hn⟩
  | .block (.mk body _), .block hb, hs, hn => StmtsTyped.names body hb hs hn

theorem StmtsTyped.names {Γ Γ' : Context} {returns : Option Ty} {rows : Rows} :
    (body : List Stmt) → StmtsTyped Γ returns body Γ' rows → Γ.scopes = [] →
    (globalNamesOf Γ.globals).Nodup →
    globalNamesOf Γ'.globals = ((stmtCells body).map (·.1)).reverse ++ globalNamesOf Γ.globals ∧
      (globalNamesOf Γ'.globals).Nodup
  | [], .nil, _, hn => ⟨rfl, hn⟩
  | s :: rest, .cons hs hr, houtside, hn => by
    obtain ⟨h₁, hn₁⟩ := StmtTyped.names s hs houtside hn
    have hlength := (StmtTyped.grown s hs).length
    rw [houtside] at hlength
    obtain ⟨h₂, hn₂⟩ := StmtsTyped.names rest hr (List.length_eq_zero_iff.mp hlength) hn₁
    refine ⟨?_, hn₂⟩
    rw [h₂, h₁, stmtCells, List.map_append, List.reverse_append, List.append_assoc]
end

/-- No two global names of a program are the same. -/
structure Program.Distinct (p : Program) : Prop where
  cells : (p.cells.map (·.1)).Nodup
  functions : (p.functions.map (·.name)).Nodup
  cell_function : ∀ f ∈ p.functions, f.name ∉ p.cells.map (·.1)
  cell_builtin : ∀ b : Builtin, b.name ∉ p.cells.map (·.1)
  function_builtin : ∀ b : Builtin, b.name ∉ p.functions.map (·.name)

theorem mem_builtinNames (b : Builtin) : b.name ∈ globalNamesOf builtinEntries := by
  cases b <;> decide

/-- **The global names of a well typed program are different.** -/
theorem ProgramTyped.distinct {p : Program} {rows : Rows} (h : ProgramTyped p rows) :
    p.Distinct := by
  cases h with
  | mk _ hd hg _ _ =>
    obtain ⟨hnames, hall⟩ := StmtsTyped.names p.globals hg rfl hd
    have hentries : globalNamesOf p.entries =
        (p.functions.map (·.name)).reverse ++ globalNamesOf builtinEntries := by
      simp [globalNamesOf, Program.entries, FunctionDecl.entry, Function.comp_def]
    rw [hnames, hentries] at hall
    obtain ⟨hcells, hrest, hcell⟩ := List.nodup_append.mp hall
    obtain ⟨hfunctions, -, hfunction⟩ := List.nodup_append.mp hrest
    have apart : ∀ {name}, name ∈ (p.functions.map (·.name)).reverse ++
        globalNamesOf builtinEntries → name ∉ p.cells.map (·.1) := fun hname hmem =>
      hcell _ (List.mem_reverse.mpr hmem) _ hname rfl
    refine ⟨List.nodup_reverse.mp hcells, List.nodup_reverse.mp hfunctions, fun f hf => ?_,
      fun b => ?_, fun b hmem => ?_⟩
    · exact apart (List.mem_append_left _ (List.mem_reverse.mpr (List.mem_map_of_mem hf)))
    · exact apart (List.mem_append_right _ (mem_builtinNames b))
    · exact hfunction _ (List.mem_reverse.mpr hmem) _ (mem_builtinNames b) rfl

namespace Program.Distinct

variable {p : Program}

/-- A name tells its cell. -/
theorem cell_unique (h : p.Distinct) {i j : Nat} {name : String} {ty ty' : Ty}
    (hi : p.cells[i]? = some (name, ty)) (hj : p.cells[j]? = some (name, ty')) : i = j := by
  have hget : ∀ {k : Nat} {ty : Ty}, p.cells[k]? = some (name, ty) →
      (p.cells.map (·.1))[k]? = some name := fun hk => by
    rw [List.getElem?_map, hk]
    rfl
  exact (List.getElem?_inj (List.getElem?_eq_some_iff.mp (hget hi)).1 h.cells).mp
    ((hget hi).trans (hget hj).symm)

/-- A name tells its function. -/
theorem findIdx_function (h : p.Distinct) {i : Nat} {f : FunctionDecl}
    (hf : p.functions[i]? = some f) : p.functions.findIdx? (·.name == f.name) = some i := by
  obtain ⟨hlt, rfl⟩ := List.getElem?_eq_some_iff.mp hf
  rw [List.findIdx?_eq_some_iff_getElem]
  refine ⟨hlt, beq_self_eq_true _, fun j hj hname => ?_⟩
  have hget : ∀ {k : Nat} (hk : k < p.functions.length),
      (p.functions.map (·.name))[k]? = some p.functions[k].name := fun hk => by
    rw [List.getElem?_map, List.getElem?_eq_getElem hk]
    rfl
  have hjlt := Nat.lt_trans hj hlt
  have heq := (hget hjlt).trans (congrArg some (beq_iff_eq.mp hname))
  exact absurd ((List.getElem?_inj (by simpa using hjlt) h.functions).mp
    (heq.trans (hget hlt).symm)) (Nat.ne_of_lt hj)

/-- The name of a built-in is that of no function. -/
theorem findIdx_builtin (h : p.Distinct) (b : Builtin) :
    p.functions.findIdx? (·.name == b.name) = none := by
  rw [List.findIdx?_eq_none_iff]
  intro f hf
  rw [beq_eq_false_iff_ne]
  exact fun hname => h.function_builtin b (hname ▸ List.mem_map_of_mem hf)

end Program.Distinct

end Stackling
