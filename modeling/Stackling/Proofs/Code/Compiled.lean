import Stackling.Pipeline
import Stackling.Proofs.Code.Generated

/-
  File:     Stackling/Proofs/Code/Compiled.lean
  Subject:  What is known of a text that was compiled.

  * `compile_inv`         -- the stages a text goes through;
  * `Compiled`            -- a program, its types and its code, as the stages leave them;
  * `Compiled.of_accepted` -- an accepted program has code;
  * `Compiled.of_stages`  -- the stages leave all of them so.
-/
namespace Stackling

open Generate

/-- **A text that is compiled** was read, was accepted, and has code. -/
theorem compile_inv {source : String} {options : Options} {code : Bytecode}
    (h : compile source options = .ok code) :
    ∃ p types, parseSource source options = .ok p ∧ analyze p = .ok types ∧
      generate p types = .ok code := by
  obtain ⟨p, hp, h⟩ := except_bind_eq_ok.mp h
  obtain ⟨types, ht, h⟩ := except_bind_eq_ok.mp h
  refine ⟨p, types, hp, ht, ?_⟩
  cases hg : generate p types with
  | error e =>
    rw [hg] at h
    cases h
  | ok code' =>
    rw [hg] at h
    cases h
    rfl

/-- An accepted program with the types of its expressions and its code. -/
structure Compiled (p : Program) (types : TypeTable) (code : Bytecode) : Prop where
  typed : ∃ rows, ProgramTyped p rows
  ids : p.ids.Nodup
  generated : generate p types = .ok code
  placed : ProgramPlaced p types code

/-- A text that was read is a program whose expressions have different numbers. -/
theorem parseSource_nodup {source : String} {options : Options} {p : Program}
    (h : parseSource source options = .ok p) : p.ids.Nodup := by
  unfold parseSource at h
  cases hr : readText source with
  | error e =>
    rw [hr] at h
    cases h
  | ok p' =>
    rw [hr] at h
    cases h
    obtain ⟨tokens, -, hparse⟩ := except_bind_eq_ok.mp hr
    exact parse_nodup hparse

theorem analyze_inv {p : Program} {types : TypeTable} (h : analyze p = .ok types) :
    ∃ a, typeCheck p = .ok a ∧ a.diagnostics = [] ∧ a.types = types := by
  unfold analyze at h
  split at h
  · cases h
  · rename_i a ha
    split at h
    · cases h
      exact ⟨a, ha, ‹_›, rfl⟩
    · cases h

theorem analyze_of_accepted {p : Program} {a : Analysis} (h : typeCheck p = .ok a)
    (hd : a.diagnostics = []) : analyze p = .ok a.types := by
  unfold analyze
  simp only [h, hd]

/-- **An accepted program has code.** -/
theorem Compiled.of_accepted {p : Program} {types : TypeTable} (hids : p.ids.Nodup)
    (ht : analyze p = .ok types) : ∃ code, Compiled p types code := by
  obtain ⟨a, ha, hd, rfl⟩ := analyze_inv ht
  obtain ⟨rows, htyped, htypes⟩ := typeCheck_accepts_iff.mp ⟨a, ha, hd, rfl⟩
  have hrows : ∀ row ∈ rows, a.types.find? row.1 = some row.2 := by
    intro row hr
    rw [htypes, TypeTable.find?_fileAll (htyped.ids ▸ hids)]
    exact hr
  obtain ⟨code, hrun, hplaced, -⟩ := htyped.generated hrows hids
  exact ⟨code, ⟨rows, htyped⟩, hids, hrun convert convert_trivial, hplaced⟩

/-- **The stages leave an accepted program and its code.** -/
theorem Compiled.of_stages {source : String} {options : Options} {p : Program}
    {types : TypeTable} {code : Bytecode} (hp : parseSource source options = .ok p)
    (ht : analyze p = .ok types) (hg : generate p types = .ok code) : Compiled p types code := by
  obtain ⟨code', h⟩ := Compiled.of_accepted (parseSource_nodup hp) ht
  exact Except.ok.inj (h.generated.symm.trans hg) ▸ h

end Stackling
