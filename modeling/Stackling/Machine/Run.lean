import Stackling.Machine.Step

/-
  File:     Stackling/Machine/Run.lean
  Subject:  Whole runs.

  A run is cut into rounds of 1, 2, 4, 8, … steps. How many rounds there may be depends on the
  program and on the limit of frames. They are enough for every program without backward jumps:
  each frame executes an instruction at most once, so with `L` instructions in the longest unit
  and at most `N` frames there are at most `L + L² + … + Lᴺ` steps. A program that does jump
  back has `2 ^ 64` steps or more.

  * `steps`   -- a number of steps, one after the other;
  * `doubled` -- `2 ^ k` steps, by halves;
  * `execute` -- a whole run.
-/
namespace Stackling

/-- Goes on from an outcome that is still running. -/
def Outcome.andThen (o : Outcome) (next : State → Outcome) : Outcome :=
  match o with
  | .running s => next s
  | done => done

/-- At most `n` steps. -/
def steps (p : Bytecode) (limit : Nat) : Nat → State → Outcome
  | 0, s => .running s
  | n + 1, s => (step p limit s).andThen (steps p limit n)

/-- At most `2 ^ k` steps. -/
def doubled (p : Bytecode) (limit : Nat) : Nat → State → Outcome
  | 0, s => step p limit s
  | k + 1, s => (doubled p limit k s).andThen (doubled p limit k)

/-- Steps add up. -/
theorem steps_add (p : Bytecode) (limit m n : Nat) (s : State) :
    steps p limit (m + n) s = (steps p limit m s).andThen (steps p limit n) := by
  induction m generalizing s with
  | zero => simp [steps, Outcome.andThen]
  | succ m ih =>
    rw [Nat.succ_add]
    simp only [steps]
    cases step p limit s <;> simp [Outcome.andThen, ih]

/-- At most `rounds` rounds, the first of them of `2 ^ k` steps. -/
def settle (p : Bytecode) (limit : Nat) : (rounds k : Nat) → State → Outcome
  | 0, _, s => .running s
  | rounds + 1, k, s => (doubled p limit k s).andThen (settle p limit rounds (k + 1))

/-- The instructions in the longest unit. -/
def Bytecode.longest (p : Bytecode) : Nat := (p.units.map (·.ops.size)).foldl max 0

/-- Enough rounds for a program without backward jumps, and for any run of less than `2 ^ 64`
    steps. -/
def Bytecode.rounds (p : Bytecode) (limit : Nat) : Nat :=
  (p.longest.log2 + 1) * (limit + 1) + 64

/-- How a run ended. -/
inductive Ending
  | done
  | fault (f : Fault)
  /-- the rounds were used up, which takes a backward jump -/
  | unfinished
  deriving DecidableEq

/-- How a run ended, and the sink with its output. -/
structure Execution where
  ending : Ending
  sink : Sink

/-- The end of a run that has come to an outcome. -/
def Outcome.execution : Outcome → Execution
  | .running s => ⟨.unfinished, s.sink⟩
  | .halted sink => ⟨.done, sink⟩
  | .faulted f sink => ⟨.fault f, sink⟩

/-- A run of `p` with at most `limit` frames, from the call of the entry unit on. -/
def execute (p : Bytecode) (limit : Nat) (sink : Sink) : Execution :=
  match (State.initial p sink).enter p limit p.entry [] with
  | .error f => ⟨.fault f, sink⟩
  | .ok s => (settle p limit (p.rounds limit) 0 s).execution

end Stackling
