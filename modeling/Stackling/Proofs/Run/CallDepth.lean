import Stackling.Proofs.Run.Correctness
import Stackling.Proofs.Run.Faults
import Stackling.Proofs.Run.Output

/-
  File:     Stackling/Proofs/Run/CallDepth.lean
  Subject:  The limit of frames does nothing but cut a run off.

  The limit is looked at in one place, before a frame is entered. So two runs under different
  limits go the same way, step by step, until the smaller one is hit. There the one run ends, and
  the other goes on from the same output and takes nothing of it back.

  * `State.enter_limit`, `exec_limit`, `step_limit` -- a call, an instruction and a step under two
                                                       limits;
  * `Ends.limit`, `Bytecode.Sound.execute_limit`    -- two runs;
  * `compile_limit`                                 -- so it is for every compiled text.
-/
namespace Stackling

variable {p : Bytecode} {N M : Nat} {s : State}

/-! ## 1. One step -/

/-- **A frame is entered under a greater limit too,** unless the smaller one is hit. -/
theorem State.enter_limit (hle : N ≤ M) (s : State) (p : Bytecode) (id : UnitId)
    (args : List Value) :
    s.enter p N id args = .error (.stackOverflow N) ∨
      s.enter p M id args = s.enter p N id args := by
  unfold enter
  by_cases hfull : N ≤ s.frames.size
  · exact .inl (if_pos hfull)
  · rw [if_neg hfull, if_neg (fun h => hfull (Nat.le_trans hle h))]
    exact .inr rfl

/-- What comes first has the same result, and what comes next may hit the limit. -/
theorem bind_limit {α β : Type} {m : Except Fault α} {f g : α → Except Fault β} {e : Fault}
    (h : ∀ a, f a = .error e ∨ g a = f a) : (m >>= f) = .error e ∨ (m >>= g) = (m >>= f) := by
  cases m with
  | error e => exact .inr rfl
  | ok a => exact h a

/-- **An instruction does the same under a greater limit.** Calls alone look at it. -/
theorem exec_limit (hle : N ≤ M) (p : Bytecode) (u : CodeUnit) (s : State) (op : Op) :
    exec p N u s op = .error (.stackOverflow N) ∨ exec p M u s op = exec p N u s op := by
  cases op with
  | call id arity returns => exact bind_limit fun r => r.2.enter_limit hle p id r.1
  | callIndirect arity returns =>
    refine bind_limit fun r => bind_limit fun q => ?_
    obtain ⟨v, t⟩ := q
    cases v with
    | callable c =>
      cases c with
      | unit id name => exact t.enter_limit hle p id r.1
      | builtin b => exact .inr rfl
    | _ => exact .inr rfl
  | _ => exact .inr rfl

/-- **So does a step.** -/
theorem step_limit (hle : N ≤ M) (p : Bytecode) (s : State) :
    step p N s = .faulted (.stackOverflow N) s.sink ∨ step p M s = step p N s := by
  cases nextStep p s with
  | ended h => exact .inr ((no_step p M h).trans (no_step p N h).symm)
  | stops f h => exact .inr ((h M s.sink).trans (h N s.sink).symm)
  | acts u op h =>
    have hN : step p N s = .ofResult s.sink (exec p N u s.advance op) := h N s.sink
    have hM : step p M s = .ofResult s.sink (exec p M u s.advance op) := h M s.sink
    rcases exec_limit hle p u s.advance op with hover | hsame
    · rw [hN, hover]
      exact .inl rfl
    · rw [hN, hM, hsame]
      exact .inr rfl
  | prints u ty h => exact .inr ((h M s.sink).trans (h N s.sink).symm)

/-! ## 2. Whole runs -/

/-- **Two runs under different limits:** they end in the same way, or the one is cut off by its
    limit and the other has taken more. -/
theorem Ends.limit (hle : N ≤ M) {n m : Nat} {e e' : Execution} (h : Ends p N n s e)
    (h' : Ends p M m s e') :
    e' = e ∨ e.ending = .fault (.stackOverflow N) ∧ e.sink.Extends e'.sink := by
  induction h generalizing m with
  | done hframes => exact .inl (h'.unique (.done hframes)).2
  | @fault s f k hf =>
    rcases step_limit hle p s with hover | hsame
    · cases hover.symm.trans hf
      exact .inr ⟨rfl, h'.extends⟩
    · exact .inl (h'.unique (.fault (hsame.trans hf))).2
  | @more n s s₁ e hr he ih =>
    rcases step_limit hle p s with hover | hsame
    · cases hover.symm.trans hr
    · have hr' := hsame.trans hr
      cases h' with
      | done hframes => cases (no_step p M hframes).symm.trans hr'
      | fault hf => cases hr'.symm.trans hf
      | more hr₁ he' =>
        cases hr'.symm.trans hr₁
        exact ih he'

/-- A fault for want of frames names the limit of the run. -/
theorem Ends.overflow_limit {n l : Nat} {e : Execution} (h : Ends p N n s e)
    (he : e.ending = .fault (.stackOverflow l)) : l = N := by
  induction h with
  | done => cases he
  | fault hf =>
    cases he
    rcases step_faults hf with hordinary | ⟨_, _, u, op, -, -, hfault⟩
    · cases hordinary
    · cases hfault with
      | ordinary hordinary => cases hordinary
      | overflow => rfl
  | more _ _ ih => exact ih he

namespace Bytecode.Sound

/-- **Sound code under two limits.** -/
theorem execute_limit (hp : p.Sound) (hle : N ≤ M) (k : Sink) :
    execute p M k = execute p N k ∨
      (execute p N k).ending = .fault (.stackOverflow N) ∧
        (execute p N k).sink.Extends (execute p M k).sink := by
  obtain ⟨n, -, h⟩ := hp.runEnds N k
  obtain ⟨m, -, h'⟩ := hp.runEnds M k
  generalize execute p N k = e at h ⊢
  generalize execute p M k = e' at h' ⊢
  have henter := (State.initial p k).enter_limit hle p p.entry []
  cases h with
  | refused hstart =>
    rcases henter with hover | hsame
    · cases hover.symm.trans hstart
      exact .inr ⟨rfl, h'.extends⟩
    · exact .inl (h'.unique (.refused (hsame.trans hstart))).2
  | run hstart he =>
    rcases henter with hover | hsame
    · cases hover.symm.trans hstart
    · cases h' with
      | refused hstart' => cases (hsame.trans hstart).symm.trans hstart'
      | run hstart' he' =>
        cases (hsame.trans hstart).symm.trans hstart'
        exact he.limit hle he'

/-- The fault of a run that lacks frames names its limit. -/
theorem overflow_limit (hp : p.Sound) {l : Nat} {k : Sink}
    (h : (execute p N k).ending = .fault (.stackOverflow l)) : l = N := by
  obtain ⟨n, -, hrun⟩ := hp.runEnds N k
  generalize execute p N k = e at h hrun
  cases hrun with
  | refused hstart =>
    cases h
    rcases State.enter_error hstart with hordinary | ⟨heq, -⟩
    · cases hordinary
    · cases heq
      rfl
  | run hstart he => exact he.overflow_limit h

end Bytecode.Sound

/-! ## 3. Compiled texts -/

/-- **The limit of frames only cuts off.** A run of a compiled text that is not ended by its limit
    is the same under every greater one: it ends in the same way and with the same output. If it
    is, the fault names this limit, and what it has written is the beginning of what it writes
    under a greater one. -/
theorem compile_limit {source : String} {options : Options} {code : Bytecode}
    (h : compile source options = .ok code) {N M : Nat} (hle : N ≤ M) (sink : Sink) :
    ((execute code N sink).ending ≠ .fault (.stackOverflow N) →
      execute code M sink = execute code N sink) ∧
    ∀ l, (execute code N sink).ending = .fault (.stackOverflow l) → l = N ∧
      ∃ more, (execute code M sink).sink.taken = (execute code N sink).sink.taken ++ more := by
  obtain ⟨p, types, -, -, hgenerate⟩ := compile_inv h
  have hp := Bytecode.Sound.of_generate hgenerate
  have hlimit := hp.execute_limit hle sink
  refine ⟨fun hends => hlimit.resolve_right fun hover => hends hover.1, fun l hover => ?_⟩
  refine ⟨hp.overflow_limit hover, ?_⟩
  rcases hlimit with hsame | ⟨-, hextends⟩
  · rw [hsame]
    exact (Sink.Extends.refl _).taken
  · exact hextends.taken

/-- The program that prints the numbers from two down to zero needs five frames: with four it has
    printed the beginning of what it prints with ten, and with five the same. -/
theorem countdown_limit : ∃ code, compile countdownSource ⟨"countdown", 10, false⟩ = .ok code ∧
    (execute code 4 .unbounded).ending = .fault (.stackOverflow 4) ∧
    (∃ more, (execute code 10 .unbounded).sink.taken =
      (execute code 4 .unbounded).sink.taken ++ more) ∧
    execute code 10 .unbounded = execute code 5 .unbounded := by
  have hok : (compile countdownSource ⟨"countdown", 10, false⟩).isOk = true := by decide +kernel
  have hends : (compile countdownSource ⟨"countdown", 10, false⟩).toOption.all fun code =>
      (execute code 4 .unbounded).ending = .fault (.stackOverflow 4) ∧
        (execute code 5 .unbounded).ending = .done := by decide +kernel
  obtain ⟨code, hcode⟩ := exists_eq_ok hok
  rw [hcode] at hends
  obtain ⟨hfour, hfive⟩ := of_decide_eq_true hends
  obtain ⟨-, hover⟩ := compile_limit hcode (show 4 ≤ 10 by decide) .unbounded
  obtain ⟨hsame, -⟩ := compile_limit hcode (show 5 ≤ 10 by decide) .unbounded
  refine ⟨code, hcode, hfour, (hover 4 hfour).2, hsame ?_⟩
  rw [hfive]
  exact nofun

end Stackling
