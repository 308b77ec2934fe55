import Stackling.Proofs.Run.Simulation
import Stackling.Proofs.Run.TypeSoundness

/-
  File:     Stackling/Proofs/Run/Correctness.lean
  Subject:  Compiled code does what its program means.

  A run from the entry unit on is followed by the evaluation of the statements at top level and
  of `main`, so that it ends as the evaluation does, with the same output.

  * `Compiled.start_follows` -- the entry unit;
  * `Compiled.runs_as`, `Compiled.evaluates` -- a run ends as the evaluation does;
  * `compile_correct`        -- a compiled text does what its program means.
-/
namespace Stackling

variable {p : Program} {types : TypeTable} {code : Bytecode}

/-- **The entry unit is followed:** it runs the statements at top level, then `main`. -/
theorem Compiled.start_follows (h : Compiled p types code) (limit left : Nat)
    (hleft : left + 1 = limit) {f : Frame} (hf : f.unit = code.entry) (hb : f.base = 0) :
    Follows p code limit [] [f.goto 0] (p.start types limit (left + 1))
      fun _ _ fs => fs = [] := by
  obtain ⟨u, hu, -, -, hops⟩ := h.placed.entry
  have hat : ∀ {pc op}, u.ops[pc]? = some op → (f.goto pc).At code u op :=
    fun hop => ⟨hf ▸ hu, hop⟩
  have hcall : ∀ pc {id c}, u.ops[pc]? = some (.call id 0 false) → p.callables[id]? = some c →
      c.params = [] → c.returns = .void →
      Follows p code limit [] [f.goto pc] (p.call types limit left id [])
        (Gained p .void [] [f.goto (pc + 1)]) := by
    intro pc id c hop hc hparams hreturns
    obtain ⟨w, hw, he⟩ := h.placed.coded hc
    have hargs : List.Forall₂ (Value.Of p) [] (paramTypes c.params) := by
      rw [hparams]
      exact .nil
    have hfollows := @CallsFollowed.call _ _ _ _ _ (h.callsFollowed limit left) _ _ _ [] [] []
      [f.goto (pc + 1)] [f.goto pc] hc hw hargs (by rw [List.length_singleton]; omega)
      fun globals sink => @step_call _ _ _ _ _ [] _ _ _ [] _ _ (hat hop) hw (he.takes hargs)
    rwa [hreturns] at hfollows
  rw [Program.start]
  refine (hcall 0 (by rw [hops]; rfl) Program.callable_globals rfl rfl).bind ?_
  rintro _ _ _ ⟨-, rfl, rfl⟩
  refine (hcall 1 (by rw [hops]; rfl) Program.callable_main rfl rfl).bind ?_
  rintro _ _ _ ⟨-, rfl, rfl⟩
  exact .step (fun globals sink => @step_retVoid _ _ _ _ _ [] _ _ [] (hat (by rw [hops]; rfl)) hb)
    (.pure rfl)

/-- **A run ends as the evaluation of the program does,** and the evaluation is never stuck. -/
theorem Compiled.runs_as (h : Compiled p types code) (limit : Nat) (sink : Sink) :
    ∃ n e, p.evaluate types limit sink = some e ∧ RunEnds code limit sink n e := by
  obtain ⟨u, hu, henter⟩ := h.placed.enters limit sink
  cases limit with
  | zero => exact ⟨0, _, rfl, .refused henter⟩
  | succ left =>
    rw [if_neg (Nat.succ_ne_zero left)] at henter
    have hsize : code.globals.size = p.cells.length := by
      rw [← Array.length_toList, h.placed.globals, List.length_map]
    have hstart := h.start_follows (left + 1) left rfl (f := ⟨code.entry, 0, [],
      Array.replicate u.locals .void, 0⟩) rfl rfl ⟨[], sink⟩ _ (.initial sink)
    rw [← hsize] at hstart
    unfold Program.evaluate
    revert hstart
    rcases p.start types (left + 1) (left + 1) ⟨[], sink⟩ with (⟨f, sink'⟩ | _) | ⟨⟨⟩, w⟩
    · rintro ⟨n, he⟩
      exact ⟨n, _, rfl, .run henter he⟩
    · exact False.elim
    · rintro ⟨vs', fs', globals', rfl, -, hruns⟩
      obtain ⟨n, he⟩ := hruns.ends (.done rfl)
      exact ⟨n, _, rfl, .run henter he⟩

/-- **The evaluation of a program says how its code ends.** -/
theorem Compiled.evaluates (h : Compiled p types code) (limit : Nat) (sink : Sink) :
    p.evaluate types limit sink = some (execute code limit sink) := by
  obtain ⟨n, -, hrun⟩ := (Bytecode.Sound.of_generate h.generated).runEnds limit sink
  obtain ⟨m, e, heval, hrun'⟩ := h.runs_as limit sink
  rw [heval, (hrun.unique hrun').2]

/-- **Compiled code does what its program means:** whatever number of frames and whatever sink
    it has, it ends as the evaluation of the program does and with the same output. -/
theorem compile_correct {source : String} {options : Options}
    (h : compile source options = .ok code) :
    ∃ p types, parseSource source options = .ok p ∧ analyze p = .ok types ∧
      ∀ limit sink, p.evaluate types limit sink = some (execute code limit sink) := by
  obtain ⟨p, types, hp, ht, hg⟩ := compile_inv h
  exact ⟨p, types, hp, ht, (Compiled.of_stages hp ht hg).evaluates⟩

/-- The program prints the numbers from two down to zero. -/
def countdownSource : String :=
  "let step: int = 1 fn down(n: int): int \x7b print(n) if (n == 0) \x7b return n \x7d " ++
    "return down(n - step) \x7d fn main() \x7b print(down(2)) \x7d"

/-- With ten frames, it ends as its evaluation does. -/
theorem countdown_correct :
    ∃ (p : Program) (types : TypeTable) (code : Bytecode),
      compile countdownSource ⟨"countdown", 10, false⟩ = .ok code ∧ analyze p = .ok types ∧
      (execute code 10 .unbounded).ending = .done ∧
      p.evaluate types 10 .unbounded = some (execute code 10 .unbounded) := by
  have hok : (compile countdownSource ⟨"countdown", 10, false⟩).isOk = true := by decide +kernel
  have hdone : (compile countdownSource ⟨"countdown", 10, false⟩).toOption.all fun code =>
      (execute code 10 .unbounded).ending = .done := by decide +kernel
  obtain ⟨code, hcode⟩ := exists_eq_ok hok
  obtain ⟨p, types, -, htypes, hcorrect⟩ := compile_correct hcode
  rw [hcode] at hdone
  exact ⟨p, types, code, hcode, htypes, of_decide_eq_true hdone, hcorrect 10 .unbounded⟩

end Stackling
