import Mathlib.Algebra.BigOperators.Ring.Finset
import Mathlib.Tactic.Ring
import Stackling.Proofs.Code.Verified
import Stackling.Proofs.Run.Motion

/-
  File:     Stackling/Proofs/Run/Halting.lean
  Subject:  Every run of generated code ends.

  A frame only goes forward in its unit. So it can still take as many steps as instructions
  stand before it in the longest unit, and each of them may be a call, whose frame starts from
  the first instruction with one frame less to spare.

  * `Ends`, `RunEnds`    -- a run ends after some steps;
  * `budget`, `weight`   -- what frames may still take in steps;
  * `Travels.weight_lt`  -- each step takes some of it;
  * `Bytecode.Sound`     -- code that passes the verifier and jumps forward only;
  * `Bytecode.Sound.runEnds`, `.frame_advances` -- its runs end, and a frame comes to no
    instruction twice;
  * `generate_halts`     -- so it is for generated code.
-/
namespace Stackling

variable {p : Bytecode} {limit : Nat}

/-! ## 1. Runs that end -/

/-- A run ends after so many steps: no frame is left, or the last step was a fault. -/
inductive Ends (p : Bytecode) (limit : Nat) : Nat → State → Execution → Prop
  | done {s} (h : s.frames.items = []) : Ends p limit 0 s ⟨.done, s.sink⟩
  | fault {s f sink} (h : step p limit s = .faulted f sink) : Ends p limit 1 s ⟨.fault f, sink⟩
  | more {n s s' e} (h : step p limit s = .running s') (he : Ends p limit n s' e) :
      Ends p limit (n + 1) s e

/-- A run from the call of the entry unit ends after so many steps. -/
inductive RunEnds (p : Bytecode) (limit : Nat) (sink : Sink) : Nat → Execution → Prop
  | refused {f} (h : (State.initial p sink).enter p limit p.entry [] = .error f) :
      RunEnds p limit sink 0 ⟨.fault f, sink⟩
  | run {n s e} (h : (State.initial p sink).enter p limit p.entry [] = .ok s)
      (he : Ends p limit n s e) : RunEnds p limit sink n e

/-- Without a frame the run is over. -/
theorem no_step (p : Bytecode) (limit : Nat) {s : State} (h : s.frames.items = []) :
    step p limit s = .halted s.sink := by
  obtain ⟨stack, ⟨frames, size, hsize⟩, globals, sink⟩ := s
  cases h
  rfl

/-- A run is over only without a frame. -/
theorem no_frame {s : State} {sink : Sink} (h : step p limit s = .halted sink) :
    s.frames.items = [] := by
  cases hf : s.frames.items with
  | nil => rfl
  | cons f rest =>
    simp only [step, Pile.top?, hf, List.head?_cons] at h
    split at h
    · cases h
    · split at h
      · cases h
      · split at h
        · unfold printTop at h
          split at h
          · cases h
          · split at h <;> cases h
        · split at h <;> cases h

namespace Ends

variable {n m : Nat} {s : State} {e e' : Execution}

/-- **A run ends in one way only.** -/
theorem unique (h : Ends p limit n s e) (h' : Ends p limit m s e') : n = m ∧ e = e' := by
  induction h generalizing m with
  | done hs =>
    cases h' with
    | done => exact ⟨rfl, rfl⟩
    | fault hf => cases (no_step p limit hs).symm.trans hf
    | more hr => cases (no_step p limit hs).symm.trans hr
  | fault hf =>
    cases h' with
    | done hs => cases (no_step p limit hs).symm.trans hf
    | fault hf' =>
      cases hf.symm.trans hf'
      exact ⟨rfl, rfl⟩
    | more hr => cases hf.symm.trans hr
  | more hr _ ih =>
    cases h' with
    | done hs => cases (no_step p limit hs).symm.trans hr
    | fault hf => cases hr.symm.trans hf
    | more hr' he' =>
      cases hr.symm.trans hr'
      obtain ⟨rfl, rfl⟩ := ih he'
      exact ⟨rfl, rfl⟩

/-- It ends neither undecided nor otherwise than by a fault or by leaving the last frame. -/
theorem finished (h : Ends p limit n s e) : e.ending ≠ .unfinished := by
  induction h with
  | done | fault => exact nofun
  | more _ _ ih => exact ih

/-- **With more steps than it takes, the run has ended.** -/
theorem steps_execution (h : Ends p limit n s e) {total : Nat} (hn : n < total) :
    (steps p limit total s).execution = e := by
  induction h generalizing total with
  | done hs =>
    obtain ⟨total, rfl⟩ := Nat.exists_eq_add_one_of_ne_zero (Nat.ne_of_gt hn)
    rw [steps, no_step p limit hs]
    rfl
  | fault hf =>
    obtain ⟨total, rfl⟩ := Nat.exists_eq_add_one_of_ne_zero (Nat.ne_of_gt (Nat.lt_of_succ_lt hn))
    rw [steps, hf]
    rfl
  | more hr _ ih =>
    obtain ⟨total, rfl⟩ := Nat.exists_eq_add_one_of_ne_zero
      (Nat.ne_of_gt (Nat.lt_of_le_of_lt (Nat.zero_le _) hn))
    rw [steps, hr]
    exact ih (Nat.lt_of_succ_lt_succ hn)

end Ends

/-- **Halving changes nothing.** -/
theorem doubled_eq_steps (p : Bytecode) (limit k : Nat) (s : State) :
    doubled p limit k s = steps p limit (2 ^ k) s := by
  induction k generalizing s with
  | zero =>
    simp only [doubled, steps, Nat.pow_zero]
    cases step p limit s <;> rfl
  | succ k ih =>
    rw [Nat.pow_succ, Nat.mul_two, steps_add]
    simp only [doubled, ih]
    congr
    funext s
    exact ih s

/-- The rounds of a run are so many steps. -/
theorem settle_eq_steps (rounds k : Nat) (s : State) :
    settle p limit rounds k s = steps p limit (2 ^ k * (2 ^ rounds - 1)) s := by
  induction rounds generalizing k s with
  | zero => rfl
  | succ rounds ih =>
    have hsplit : 2 ^ k * (2 ^ (rounds + 1) - 1) = 2 ^ k + 2 ^ (k + 1) * (2 ^ rounds - 1) := by
      have hpos : 1 ≤ 2 ^ rounds := Nat.one_le_two_pow
      obtain ⟨m, hm⟩ := Nat.exists_eq_add_of_le hpos
      rw [Nat.pow_succ, Nat.pow_succ, hm]
      rw [show (1 + m) * 2 - 1 = 1 + 2 * m by omega, Nat.add_sub_cancel_left]
      ring
    rw [hsplit, steps_add, settle, doubled_eq_steps]
    exact congrArg _ (funext (ih (k + 1)))

/-! ## 2. What is left of a run -/

/-- The steps that a call may take with so many frames to spare, its own among them. -/
def budget (L : Nat) : Nat → Nat
  | 0 => 0
  | frames + 1 => L * (1 + budget L frames)

theorem budget_eq_sum (L frames : Nat) :
    budget L frames = ∑ k ∈ Finset.range frames, L ^ (k + 1) := by
  induction frames with
  | zero => rfl
  | succ frames ih =>
    rw [budget, Finset.sum_range_succ', ih, Nat.mul_add, Finset.mul_sum, Nat.mul_one, Nat.add_comm,
      Nat.zero_add, Nat.pow_one]
    simp [Nat.pow_succ, Nat.mul_comm]

theorem budget_lt_pow (L frames : Nat) : budget L frames < (L + 1) ^ frames := by
  induction frames with
  | zero => exact Nat.one_pos
  | succ frames ih =>
    calc L * (1 + budget L frames)
      _ < (L + 1) * (1 + budget L frames) :=
        Nat.mul_lt_mul_of_pos_right (Nat.lt_succ_self _) (by omega)
      _ ≤ (L + 1) * (L + 1) ^ frames := Nat.mul_le_mul_left _ (by omega)
      _ = (L + 1) ^ (frames + 1) := (Nat.pow_succ' ..).symm

/-- The steps that some frames, the latest first, may still take: each of them the instructions
    from its next one on, and after each the whole of a call. -/
def weight (L limit : Nat) : List Frame → Nat
  | [] => 0
  | f :: rest => (L - f.next) * (1 + budget L (limit - rest.length - 1)) + weight L limit rest

/-- Every frame stands before an instruction, and there are no more frames than allowed. -/
structure Inside (p : Bytecode) (limit : Nat) (frames : List Frame) : Prop where
  room : frames.length ≤ limit
  next : ∀ f ∈ frames, ∃ u, p.unit? f.unit = some u ∧ f.next < u.ops.size

/-- All units of a program pass the verifier, and their jumps go forward. -/
structure Bytecode.Sound (p : Bytecode) : Prop where
  verified : ∀ u ∈ p.units, ∃ depth, u.Verified p.globals.size p.units.size depth
  forward : ∀ u ∈ p.units, u.Forward

namespace Bytecode.Sound

variable {u : CodeUnit} {id : UnitId}

theorem of_generate {program : Program} {types : TypeTable}
    (h : generate program types = .ok p) : p.Sound := by
  obtain ⟨_, hrun⟩ := lowerProgram_of_generate h
  have hall := lowerProgram_verified (Generator.balanced_new types) hrun
  exact ⟨fun u hu => ⟨_, (hall u hu).1⟩, fun u hu => (hall u hu).2⟩

theorem mem_units (h : p.unit? id = some u) : u ∈ p.units := Array.mem_of_getElem? h

/-- Control stays inside a unit. -/
theorem goes_lt (hp : p.Sound) (hu : p.unit? id = some u) {pc pc' : Nat} {op : Op}
    (hop : u.ops[pc]? = some op) (hgo : u.Goes pc op pc') : pc' < u.ops.size := by
  obtain ⟨depth, hv⟩ := hp.verified u (mem_units hu)
  exact (hv.next pc pc' op hop hgo).1

/-- **Control goes forward in a unit.** -/
theorem goes_forward (hp : p.Sound) (hu : p.unit? id = some u) {pc pc' : Nat} {op : Op}
    (hop : u.ops[pc]? = some op) (hgo : u.Goes pc op pc') : pc < pc' :=
  (hp.forward u (mem_units hu)).goes hop hgo

/-- A unit has an instruction. -/
theorem ops_pos (hp : p.Sound) (hu : p.unit? id = some u) : 0 < u.ops.size := by
  obtain ⟨depth, hv⟩ := hp.verified u (mem_units hu)
  obtain ⟨op, hlast, -⟩ := hv.last
  by_contra hn
  have hempty : u.ops = #[] := Array.eq_empty_of_size_eq_zero (Nat.eq_zero_of_not_pos hn)
  rw [hempty] at hlast
  cases hlast

end Bytecode.Sound

theorem le_foldl_max (l : List Nat) (a : Nat) :
    a ≤ l.foldl max a ∧ ∀ x ∈ l, x ≤ l.foldl max a := by
  induction l generalizing a with
  | nil => exact ⟨Nat.le_refl _, nofun⟩
  | cons y l ih =>
    obtain ⟨hmax, hall⟩ := ih (max a y)
    exact ⟨Nat.le_trans (Nat.le_max_left a y) hmax,
      List.forall_mem_cons.mpr ⟨Nat.le_trans (Nat.le_max_right a y) hmax, hall⟩⟩

/-- No unit is longer than the longest. -/
theorem Bytecode.size_le_longest {u : CodeUnit} {id : UnitId} (h : p.unit? id = some u) :
    u.ops.size ≤ p.longest := by
  rw [longest, ← Array.foldl_toList]
  refine (le_foldl_max _ 0).2 _ (Array.mem_toList_iff.mpr ?_)
  exact Array.mem_map_of_mem (Sound.mem_units h)

/-- **Each step takes some of what is left,** and the frames stay inside their units. -/
theorem Travels.weight_lt {frames frames' : List Frame} (h : Travels p limit frames frames')
    (hp : p.Sound) (hin : Inside p limit frames) :
    Inside p limit frames' ∧ weight p.longest limit frames' < weight p.longest limit frames := by
  cases h with
  | @goes f f' rest u op hu hop hf hgo =>
    have hlt := hp.goes_lt hu hop hgo
    refine ⟨⟨hin.room, List.forall_mem_cons.mpr ⟨⟨u, hf ▸ hu, hlt⟩,
      (List.forall_mem_cons.mp hin.next).2⟩⟩, ?_⟩
    refine Nat.add_lt_add_right (Nat.mul_lt_mul_of_pos_right ?_ (by omega)) _
    have hforward := hp.goes_forward hu hop hgo
    have hle := Bytecode.size_le_longest hu
    omega
  | @enters f g rest u v op hu hop hfalls hroom hv hg =>
    have hlt := hp.goes_lt hu hop (.next hfalls)
    have hle := Bytecode.size_le_longest hu
    refine ⟨⟨hroom, List.forall_mem_cons.mpr ⟨⟨v, hv, hg ▸ hp.ops_pos hv⟩,
      List.forall_mem_cons.mpr ⟨⟨u, hu, hlt⟩, (List.forall_mem_cons.mp hin.next).2⟩⟩⟩, ?_⟩
    -- the call is paid for by the instruction that makes it
    obtain ⟨frames, hframes⟩ : ∃ frames, limit - rest.length - 1 = frames + 1 :=
      ⟨limit - rest.length - 2, by omega⟩
    obtain ⟨left, hleft⟩ : ∃ left, p.longest - f.next = left + 1 :=
      ⟨p.longest - f.next - 1, by omega⟩
    have hspare : limit - (rest.length + 1) - 1 = frames := by omega
    have hnext : p.longest - f.moved.next = left := by
      show p.longest - (f.next + 1) = left
      omega
    simp only [weight, List.length_cons, hg, hframes, hspare, hleft, hnext, Nat.sub_zero, budget]
    have hcall : (left + 1) * (1 + p.longest * (1 + budget p.longest frames)) =
        left * (1 + p.longest * (1 + budget p.longest frames)) +
          (1 + p.longest * (1 + budget p.longest frames)) := Nat.succ_mul ..
    omega
  | @leaves f rest u op hu hop =>
    obtain ⟨⟨v, hv, hlt⟩, hrest⟩ := List.forall_mem_cons.mp hin.next
    refine ⟨⟨Nat.le_of_succ_le hin.room, hrest⟩, Nat.lt_add_of_pos_left ?_⟩
    have hle := Bytecode.size_le_longest hv
    exact Nat.mul_pos (by omega) (by omega)

/-- A frame is still to come to an instruction. -/
theorem weight_pos {frames : List Frame} (hin : Inside p limit frames) (h : frames ≠ []) :
    0 < weight p.longest limit frames := by
  cases frames with
  | nil => exact absurd rfl h
  | cons f rest =>
    obtain ⟨⟨u, hu, hlt⟩, -⟩ := List.forall_mem_cons.mp hin.next
    have hle := Bytecode.size_le_longest hu
    exact Nat.lt_of_lt_of_le (Nat.mul_pos (by omega) (by omega)) (Nat.le_add_right _ _)

/-- **A run ends before more is taken than there is.** -/
theorem ends_of_inside (hp : p.Sound) {s : State} (hin : Inside p limit s.frames.items) :
    ∃ n ≤ weight p.longest limit s.frames.items, ∃ e, Ends p limit n s e := by
  induction hw : weight p.longest limit s.frames.items using Nat.strong_induction_on
    generalizing s with
  | _ w ih =>
    subst hw
    by_cases hnil : s.frames.items = []
    · exact ⟨0, Nat.zero_le _, _, .done hnil⟩
    · have hpos := weight_pos hin hnil
      cases hs : step p limit s with
      | halted sink => exact absurd (no_frame hs) hnil
      | faulted f sink => exact ⟨1, hpos, _, .fault hs⟩
      | running s' =>
        obtain ⟨hin', hlt⟩ := (step_travels hs).weight_lt hp hin
        obtain ⟨n, hn, e, he⟩ := ih _ hlt hin' rfl
        exact ⟨n + 1, Nat.lt_of_le_of_lt hn hlt, e, .more hs he⟩

/-! ## 3. Whole runs -/

/-- The rounds of a run are enough. -/
theorem budget_lt_rounds (p : Bytecode) (limit : Nat) :
    budget p.longest limit < 2 ^ 0 * (2 ^ p.rounds limit - 1) := by
  have hbudget := budget_lt_pow p.longest limit
  have hbase : (p.longest + 1) ^ limit ≤ 2 ^ ((p.longest.log2 + 1) * limit) :=
    calc (p.longest + 1) ^ limit
      _ ≤ (2 ^ (p.longest.log2 + 1)) ^ limit := Nat.pow_le_pow_left Nat.lt_log2_self limit
      _ = 2 ^ ((p.longest.log2 + 1) * limit) := (Nat.pow_mul ..).symm
  have hrounds : 2 ^ ((p.longest.log2 + 1) * limit + 1) ≤ 2 ^ p.rounds limit := by
    refine Nat.pow_le_pow_right Nat.two_pos ?_
    rw [Bytecode.rounds, Nat.mul_succ]
    omega
  rw [Nat.pow_succ] at hrounds
  omega

/-- **A run that ends has its result,** if there are steps enough. -/
theorem RunEnds.execute {sink : Sink} {n : Nat} {e : Execution} (h : RunEnds p limit sink n e)
    (hn : n ≤ budget p.longest limit) : execute p limit sink = e := by
  cases h with
  | refused hstart =>
    rw [Stackling.execute, hstart]
  | run hstart he =>
    rw [Stackling.execute, hstart]
    show (settle p limit (p.rounds limit) 0 _).execution = e
    rw [settle_eq_steps]
    exact he.steps_execution (Nat.lt_of_le_of_lt hn (budget_lt_rounds p limit))

theorem RunEnds.unique {sink : Sink} {n m : Nat} {e e' : Execution}
    (h : RunEnds p limit sink n e) (h' : RunEnds p limit sink m e') : n = m ∧ e = e' := by
  cases h with
  | refused hs =>
    cases h' with
    | refused hs' =>
      cases hs.symm.trans hs'
      exact ⟨rfl, rfl⟩
    | run hs' => cases hs.symm.trans hs'
  | run hs he =>
    cases h' with
    | refused hs' => cases hs.symm.trans hs'
    | run hs' he' =>
      cases hs.symm.trans hs'
      exact he.unique he'

/-- **A run of sound code ends,** and takes no more steps than the entry unit may. -/
theorem Bytecode.Sound.runEnds (hp : p.Sound) (limit : Nat) (sink : Sink) :
    ∃ n ≤ budget p.longest limit, RunEnds p limit sink n (execute p limit sink) := by
  suffices h : ∃ n ≤ budget p.longest limit, ∃ e, RunEnds p limit sink n e by
    obtain ⟨n, hn, e, he⟩ := h
    exact ⟨n, hn, he.execute hn ▸ he⟩
  cases hs : (State.initial p sink).enter p limit p.entry [] with
  | error f => exact ⟨0, Nat.zero_le _, _, .refused hs⟩
  | ok s =>
    obtain ⟨hroom, v, hv, -, rfl⟩ := State.enter_inv hs
    have hin : Inside p limit [⟨p.entry, 0, [], Array.replicate v.locals .void, 0⟩] :=
      ⟨hroom, by simpa using ⟨v, hv, hp.ops_pos hv⟩⟩
    obtain ⟨n, hn, e, he⟩ := @ends_of_inside p limit hp
      ⟨.empty, Pile.empty.push ⟨p.entry, 0, [], Array.replicate v.locals .void, 0⟩, _, sink⟩ hin
    refine ⟨n, Nat.le_trans hn ?_, e, .run hs he⟩
    obtain ⟨frames, rfl⟩ := Nat.exists_eq_add_one_of_ne_zero (Nat.ne_of_gt hroom)
    simp [weight, budget]

/-! ## 4. One frame -/

/-- The last of some steps. -/
theorem steps_succ_inv {n : Nat} {s t : State} (h : steps p limit (n + 1) s = .running t) :
    ∃ t₀, steps p limit n s = .running t₀ ∧ step p limit t₀ = .running t := by
  rw [steps_add] at h
  cases hn : steps p limit n s with
  | halted => rw [hn] at h; cases h
  | faulted => rw [hn] at h; cases h
  | running t₀ =>
    rw [hn] at h
    change (step p limit t₀).andThen (steps p limit 0) = .running t at h
    cases hs : step p limit t₀ <;> rw [hs] at h <;> cases h
    exact ⟨t₀, rfl, hs⟩

/-- In so many steps no frame below the given height is left. -/
def Keeps (p : Bytecode) (limit height n : Nat) (s : State) : Prop :=
  ∀ m ≤ n, ∀ t, steps p limit m s = .running t → height ≤ t.frames.size

/-- **A step takes a frame forward,** unless another one stands on it. -/
theorem Travels.above {f : Frame} {above rest frames' : List Frame}
    (h : Travels p limit (above ++ f :: rest) frames') (hp : p.Sound)
    (hkeep : rest.length < frames'.length) :
    ∃ above' f', frames' = above' ++ f' :: rest ∧ f'.unit = f.unit ∧ f.next ≤ f'.next ∧
      (above = [] → f.next < f'.next) := by
  cases above with
  | nil =>
    cases h with
    | goes hu hop hf hgo =>
      have hlt := hp.goes_forward hu hop hgo
      exact ⟨[], _, rfl, hf, Nat.le_of_lt hlt, fun _ => hlt⟩
    | enters hu hop hfalls hroom hv hg =>
      exact ⟨[_], _, rfl, rfl, Nat.le_succ _, fun _ => Nat.lt_succ_self _⟩
    | leaves => exact absurd hkeep (Nat.lt_irrefl _)
  | cons g above =>
    cases h with
    | goes hu hop hf hgo => exact ⟨_ :: above, f, rfl, rfl, Nat.le_refl _, nofun⟩
    | enters hu hop hfalls hroom hv hg => exact ⟨_ :: _ :: above, f, rfl, rfl, Nat.le_refl _, nofun⟩
    | leaves => exact ⟨above, f, rfl, rfl, Nat.le_refl _, nofun⟩

/-- **Steps take a frame forward,** as long as it is not left. -/
theorem Bytecode.Sound.above (hp : p.Sound) {s : State} {f : Frame} {rest : List Frame}
    (hs : s.frames.items = f :: rest) {n : Nat} {t : State}
    (hrun : steps p limit n s = .running t) (hkeeps : Keeps p limit s.frames.size n s) :
    ∃ above f', t.frames.items = above ++ f' :: rest ∧ f'.unit = f.unit ∧
      (f.next < f'.next ∨ n = 0 ∧ above = [] ∧ f' = f) := by
  induction n generalizing t with
  | zero =>
    cases hrun
    exact ⟨[], f, hs, rfl, .inr ⟨rfl, rfl, rfl⟩⟩
  | succ n ih =>
    obtain ⟨t₀, hn, hstep⟩ := steps_succ_inv hrun
    obtain ⟨above, f₀, hframes, hunit, hnext⟩ := ih hn fun m hm => hkeeps m (Nat.le_succ_of_le hm)
    have htravels := step_travels hstep
    rw [hframes] at htravels
    have hheight : rest.length < t.frames.items.length := by
      have hle := hkeeps (n + 1) (Nat.le_refl _) t hrun
      rwa [Pile.size_eq, Pile.size_eq, hs] at hle
    obtain ⟨above', f', hframes', hunit', hle, hlt⟩ := htravels.above hp hheight
    refine ⟨above', f', hframes', hunit'.trans hunit, .inl ?_⟩
    rcases hnext with hnext | ⟨-, hnil, rfl⟩
    · exact Nat.lt_of_lt_of_le hnext hle
    · exact hlt hnil

/-- **A frame comes to no instruction twice:** whenever it is on top again, it has gone
    forward. -/
theorem Bytecode.Sound.frame_advances (hp : p.Sound) {s t : State} {f : Frame}
    {rest : List Frame} {n : Nat} (hs : s.frames.items = f :: rest)
    (hrun : steps p limit (n + 1) s = .running t)
    (hkeeps : Keeps p limit s.frames.size (n + 1) s) (hsize : t.frames.size = s.frames.size) :
    ∃ f', t.frames.items = f' :: rest ∧ f'.unit = f.unit ∧ f.next < f'.next := by
  obtain ⟨above, f', hframes, hunit, hnext⟩ := hp.above hs hrun hkeeps
  have hnil : above = [] := by
    rw [Pile.size_eq, Pile.size_eq, hs, hframes, List.length_append] at hsize
    exact List.length_eq_zero_iff.mp (Nat.add_eq_right.mp hsize)
  subst hnil
  exact ⟨f', hframes, hunit, hnext.resolve_right nofun⟩

/-! ## 5. Generated code -/

/-- **Generated code halts,** whatever the table of types says: its jumps go forward, so that a
    frame comes to no instruction twice, and a run with at most `limit` frames ends after at
    most `L + L² + …` steps, with as many summands as frames, where `L` is the length of the
    longest unit. -/
theorem generate_halts {program : Program} {types : TypeTable}
    (h : generate program types = .ok p) (limit : Nat) (sink : Sink) :
    (∀ u ∈ p.units, u.Forward) ∧
    (∀ s t f rest n, s.frames.items = f :: rest → steps p limit (n + 1) s = .running t →
      Keeps p limit s.frames.size (n + 1) s → t.frames.size = s.frames.size →
      ∃ f', t.frames.items = f' :: rest ∧ f'.unit = f.unit ∧ f.next < f'.next) ∧
    (∃ n ≤ ∑ k ∈ Finset.range limit, p.longest ^ (k + 1),
      RunEnds p limit sink n (execute p limit sink)) ∧
    (execute p limit sink).ending ≠ .unfinished := by
  have hp := Bytecode.Sound.of_generate h
  obtain ⟨n, hn, he⟩ := hp.runEnds limit sink
  refine ⟨hp.forward, fun s t f rest n hs hrun hkeeps hsize =>
    hp.frame_advances hs hrun hkeeps hsize, ⟨n, budget_eq_sum _ _ ▸ hn, he⟩, ?_⟩
  generalize execute p limit sink = e at he
  cases he with
  | refused => exact nofun
  | run _ he => exact he.finished

/-- The types of the expressions in `branchTokens`. -/
def branchTypes : TypeTable := ⟨[(0, .bool), (1, .int)]⟩

/-- With two frames, the program takes no more than `L + L²` steps. -/
theorem branch_halts : ∃ program code, parse branchTokens = .ok program ∧
    generate program branchTypes = .ok code ∧
    ∃ n ≤ code.longest + code.longest ^ 2,
      RunEnds code 2 .unbounded n (execute code 2 .unbounded) := by
  obtain ⟨program, hparse⟩ : ∃ program, parse branchTokens = .ok program := ⟨_, rfl⟩
  have h : (parse branchTokens).toOption.all fun program =>
      (generate program branchTypes).isOk := by decide +kernel
  rw [hparse] at h
  obtain ⟨code, hcode⟩ := exists_eq_ok h
  obtain ⟨-, -, ⟨n, hn, he⟩, -⟩ := generate_halts hcode 2 .unbounded
  refine ⟨program, code, hparse, hcode, n, ?_, he⟩
  simpa [Finset.sum_range_succ] using hn

end Stackling
