import Stackling.Proofs.Code.Compiled
import Stackling.Proofs.Run.Halting
import Stackling.Proofs.Run.Stepping

/-
  File:     Stackling/Proofs/Run/Output.lean
  Subject:  What a run writes, and where a full sink cuts it off.

  No instruction looks at the sink, and none takes back what was written. So a run into a sink
  that takes `n` bytes goes as the run into a sink that takes them all, up to the step that writes
  byte `n + 1`. That step is a fault.

  * `State.onto`, `exec_onto` -- a state with another sink, on which an instruction does the same;
  * `NextStep`                -- how a step goes, whatever the limit of frames and the sink are;
  * `Sink.Extends`            -- nothing is taken back;
  * `step_cut`, `Ends.cut`, `Bytecode.Sound.execute_cut` -- a step and a run into a sink that may
                                 be full;
  * `run_cut_off`             -- so it is for a text, with its listing and without.
-/
namespace Stackling

variable {p : Bytecode} {limit n : Nat} {u : CodeUnit} {s s' : State} {op : Op}

/-! ## 1. Instructions and the sink -/

namespace State

/-- The state with another sink. -/
def onto (k : Sink) (s : State) : State := { s with sink := k }

variable {α β : Type} (k : Sink) (s : State) (u : CodeUnit)

/-- What was popped, and the rest with another sink. -/
def restOnto (r : α × State) : α × State := (r.1, r.2.onto k)

/-- **One computation after the other:** if neither looks at the sink, both together do not. -/
theorem bind_onto {m m' : Except Fault (β × State)} {f : β × State → Except Fault α}
    {put : α → α} (hm : m' = m.map (restOnto k)) (hf : ∀ b t, f (b, t.onto k) = (f (b, t)).map put) :
    m' >>= f = (m >>= f).map put := by
  rw [hm]
  cases m with
  | error e => rfl
  | ok r => exact hf r.1 r.2

/-- So it is for one of two computations. -/
theorem ite_onto {c : Prop} [Decidable c] {m m' t t' : Except Fault α} {put : α → α}
    (hm : m' = m.map put) (ht : t' = t.map put) :
    (if c then m' else t') = (if c then m else t).map put := by
  split
  · exact hm
  · exact ht

theorem pop_onto : (s.onto k).pop u = (s.pop u).map (restOnto k) := by
  unfold pop
  have hstack : (s.onto k).stack = s.stack := rfl
  rw [hstack]
  cases s.stack.pop? <;> rfl

theorem popMany_onto (count : Nat) :
    (s.onto k).popMany u count = (s.popMany u count).map (restOnto k) := by
  unfold popMany
  have hstack : (s.onto k).stack = s.stack := rfl
  rw [hstack]
  cases s.stack.popMany? count <;> rfl

theorem popInt_onto : (s.onto k).popInt u = (s.popInt u).map (restOnto k) :=
  bind_onto k (pop_onto k s u) fun v t => by cases v <;> rfl

theorem popArray_onto : (s.onto k).popArray u = (s.popArray u).map (restOnto k) :=
  bind_onto k (pop_onto k s u) fun v t => by cases v <;> rfl

theorem popHash_onto : (s.onto k).popHash u = (s.popHash u).map (restOnto k) :=
  bind_onto k (pop_onto k s u) fun v t => by cases v <;> rfl

theorem popKey_onto : (s.onto k).popKey u = (s.popKey u).map (restOnto k) := by
  refine bind_onto k (pop_onto k s u) fun v t => ?_
  simp only
  cases v.key? <;> rfl

theorem jump_onto (l : Label) : (s.onto k).jump u l = (s.jump u l).map (onto k) := by
  unfold jump
  cases u.offset? l <;> rfl

theorem enter_onto (p : Bytecode) (limit : Nat) (id : UnitId) (args : List Value) :
    (s.onto k).enter p limit id args = (s.enter p limit id args).map (onto k) := by
  unfold enter
  have hframes : (s.onto k).frames = s.frames := rfl
  rw [hframes]
  refine ite_onto rfl ?_
  cases p.unit? id with
  | none => rfl
  | some v => exact ite_onto rfl rfl

theorem leave_onto (result : Option Value) : (s.onto k).leave result = (s.leave result).onto k := by
  obtain ⟨stack, ⟨frames, size, hsize⟩, globals, sink⟩ := s
  cases frames <;> cases result <;> rfl

end State

open State

/-- **An instruction does not look at the sink.** -/
theorem exec_onto (p : Bytecode) (limit : Nat) (u : CodeUnit) (k : Sink) (s : State) (op : Op) :
    exec p limit u (s.onto k) op = (exec p limit u s op).map (onto k) := by
  cases op with
  | pushInt | pushChar | pushText | pushBuiltin | loadLocal | newArray | newHash | missingReturn =>
    rfl
  | pushUnit id =>
    simp only [exec]
    cases p.unit? id <;> rfl
  | loadArg index =>
    have hframes : (s.onto k).frames = s.frames := rfl
    simp only [exec, hframes]
    cases s.frames.top?.bind fun f => f.args[index]? <;> rfl
  | loadGlobal cell =>
    have hglobals : (s.onto k).globals = s.globals := rfl
    simp only [exec, hglobals]
    rcases s.globals[cell]? with _ | _ | v <;> rfl
  | storeLocal | storeGlobal | pop | print => exact bind_onto k (pop_onto k s u) fun v t => rfl
  | addInt | subInt | mulInt =>
    exact bind_onto k (popInt_onto k s u) fun b t => bind_onto k (popInt_onto k t u) fun a t => rfl
  | divInt =>
    exact bind_onto k (popInt_onto k s u) fun b t => bind_onto k (popInt_onto k t u) fun a t =>
      ite_onto rfl rfl
  | concat =>
    refine bind_onto k (pop_onto k s u) fun b t => bind_onto k (pop_onto k t u) fun a t => ?_
    cases a <;> cases b <;> rfl
  | compare c kind =>
    refine bind_onto k (pop_onto k s u) fun b t => bind_onto k (pop_onto k t u) fun a t => ?_
    simp only
    cases compareValues c kind a b <;> rfl
  | intToBool | not => exact bind_onto k (popInt_onto k s u) fun v t => rfl
  | jump l => exact jump_onto k s u l
  | jumpIf l =>
    exact bind_onto k (popInt_onto k s u) fun v t => ite_onto rfl (jump_onto k t u l)
  | setElement index =>
    exact bind_onto k (pop_onto k s u) fun v t => bind_onto k (popArray_onto k t u) fun items t =>
      ite_onto rfl rfl
  | insertEntry =>
    exact bind_onto k (pop_onto k s u) fun v t => bind_onto k (popKey_onto k t u) fun key t =>
      bind_onto k (popHash_onto k t u) fun entries t => rfl
  | indexArray =>
    refine bind_onto k (popInt_onto k s u) fun i t => bind_onto k (popArray_onto k t u) fun items t => ?_
    simp only
    cases itemAt? items i <;> rfl
  | indexHash =>
    refine bind_onto k (popKey_onto k s u) fun i t => bind_onto k (popHash_onto k t u) fun items t => ?_
    simp only
    cases valueAt? i items <;> rfl
  | call id arity returns =>
    exact bind_onto k (popMany_onto k s u arity) fun args t => enter_onto k t p limit id args
  | callIndirect arity returns =>
    refine bind_onto k (popMany_onto k s u arity) fun args t => bind_onto k (pop_onto k t u) fun v t => ?_
    cases v with
    | callable c =>
      cases c with
      | unit id name => exact enter_onto k t p limit id args
      | builtin b =>
        simp only
        cases b.apply args <;> rfl
    | _ => rfl
  | callBuiltin b =>
    refine bind_onto k (popMany_onto k s u _) fun args t => ?_
    simp only
    cases b.apply args <;> rfl
  | ret =>
    exact bind_onto k (pop_onto k s u) fun v t => congrArg Except.ok (leave_onto k t (some v))
  | retVoid => exact congrArg Except.ok (leave_onto k s none)

/-- An instruction leaves the sink alone. -/
theorem exec_sink (h : exec p limit u s op = .ok s') : s'.sink = s.sink := by
  have honto : exec p limit u s op = (exec p limit u s op).map (onto s.sink) :=
    exec_onto p limit u s.sink s op
  rw [h] at honto
  have heq : s' = s'.onto s.sink := Except.ok.inj honto
  rw [heq]
  rfl

/-- **A print writes the value on top,** and goes on if the sink took all of it. -/
theorem printTop_onto {v : Value} (h : s.pop u = .ok (v, s')) (ty : Ty) (k : Sink) :
    printTop u (s.onto k) ty =
      if (k.write (v.format ty ++ "\n")).2 then
        .running (s'.onto (k.write (v.format ty ++ "\n")).1)
      else .faulted (.output Sink.fullMessage) (k.write (v.format ty ++ "\n")).1 := by
  have hsink : (s'.onto k).sink = k := rfl
  unfold printTop
  rw [pop_onto, h]
  simp only [Except.map, restOnto, hsink]
  rcases k.write (v.format ty ++ "\n") with ⟨k, _ | _⟩ <;> rfl

/-- Without a value it writes nothing. -/
theorem printTop_error {f : Fault} (h : s.pop u = .error f) (ty : Ty) (k : Sink) :
    printTop u (s.onto k) ty = .faulted f k := by
  unfold printTop
  rw [pop_onto, h]
  rfl

/-! ## 2. Steps -/

/-- **How a step goes,** whatever the limit of frames and the sink are: without a frame the run is
    over, without an instruction it stops, and else the instruction acts or prints. -/
inductive NextStep (p : Bytecode) (s : State) : Prop
  | ended (h : s.frames.items = [])
  | stops (f : Fault) (h : ∀ limit k, step p limit (s.onto k) = .faulted f k)
  | acts (u : CodeUnit) (op : Op) (h : ∀ limit k, step p limit (s.onto k) =
      .ofResult k (exec p limit u (s.advance.onto k) op))
  | prints (u : CodeUnit) (ty : Ty) (h : ∀ limit k, step p limit (s.onto k) =
      printTop u (s.advance.onto k) ty)

theorem nextStep (p : Bytecode) (s : State) : NextStep p s := by
  obtain ⟨⟨items, height, rfl⟩, ⟨frames, size, rfl⟩, globals, sink⟩ := s
  cases frames with
  | nil => exact .ended rfl
  | cons f rest =>
    cases hu : p.unit? f.unit with
    | none =>
      refine .stops .unresolvedCallable fun limit k => ?_
      simp only [step, onto, Pile.top?, List.head?_cons, hu]
    | some u =>
      cases hop : u.ops[f.next]? with
      | none =>
        refine .stops (.missingReturn u.name) fun limit k => ?_
        simp only [step, onto, Pile.top?, List.head?_cons, hu, hop]
      | some op =>
        by_cases hprint : ∃ ty, op = .print ty
        · obtain ⟨ty, rfl⟩ := hprint
          refine .prints u ty fun limit k => ?_
          simp only [step, onto, Pile.top?, List.head?_cons, hu, hop]
          rfl
        · exact .acts u op fun limit k => step_exec ⟨hu, hop⟩ fun ty he => hprint ⟨ty, he⟩

/-! ## 3. Nothing is taken back -/

namespace Sink

/-- A sink that has taken some more. -/
structure Extends (k k' : Sink) : Prop where
  capacity : k'.capacity? = k.capacity?
  taken : ∃ more, k'.taken = k.taken ++ more

namespace Extends

variable {k k₁ k₂ : Sink}

theorem refl (k : Sink) : k.Extends k := ⟨rfl, .empty, ByteArray.append_empty.symm⟩

theorem trans (h : k.Extends k₁) (h' : k₁.Extends k₂) : k.Extends k₂ := by
  obtain ⟨more, hmore⟩ := h.taken
  obtain ⟨more', hmore'⟩ := h'.taken
  refine ⟨h'.capacity.trans h.capacity, more ++ more', ?_⟩
  rw [hmore', hmore, ByteArray.append_assoc]

theorem size_le (h : k.Extends k₁) : k.taken.size ≤ k₁.taken.size := by
  obtain ⟨more, hmore⟩ := h.taken
  rw [hmore, ByteArray.size_append]
  exact Nat.le_add_right _ _

end Extends

/-- **What was written stays.** -/
theorem write_extends (k : Sink) (text : String) : k.Extends (k.write text).1 := by
  unfold write
  simp only
  split
  · exact ⟨rfl, _, rfl⟩
  · exact ⟨rfl, _, rfl⟩

end Sink

/-- **A step takes nothing back.** -/
theorem step_extends (p : Bytecode) (limit : Nat) (s : State) :
    s.sink.Extends (step p limit s).execution.sink := by
  cases nextStep p s with
  | ended h =>
    rw [no_step p limit h]
    exact .refl s.sink
  | stops f h =>
    rw [show step p limit s = _ from h limit s.sink]
    exact .refl s.sink
  | acts u op h =>
    rw [show step p limit s = _ from h limit s.sink]
    cases hx : exec p limit u (s.advance.onto s.sink) op with
    | error f => exact .refl s.sink
    | ok s' =>
      show s.sink.Extends s'.sink
      rw [exec_sink hx]
      exact .refl s.sink
  | prints u ty h =>
    rw [show step p limit s = _ from h limit s.sink]
    cases hp : s.advance.pop u with
    | error f =>
      rw [printTop_error hp]
      exact .refl s.sink
    | ok r =>
      rw [printTop_onto hp]
      have hwrite := s.sink.write_extends (r.1.format ty ++ "\n")
      split
      · exact hwrite
      · exact hwrite

/-- **A run takes nothing back.** -/
theorem Ends.extends {m : Nat} {e : Execution} (h : Ends p limit m s e) : s.sink.Extends e.sink := by
  induction h with
  | done => exact .refl _
  | @fault s f sink hf =>
    have hstep := step_extends p limit s
    rwa [hf] at hstep
  | @more n s s' e hr _ ih =>
    have hstep := step_extends p limit s
    rw [hr] at hstep
    exact hstep.trans ih

/-! ## 4. A sink that may be full -/

theorem extract_of_size_le {a : ByteArray} (h : a.size ≤ n) : a.extract 0 n = a := by
  apply ByteArray.ext
  rw [ByteArray.data_extract]
  exact Array.extract_eq_self_of_le h

theorem extract_append_of_le {a b : ByteArray} (h : n ≤ a.size) :
    (a ++ b).extract 0 n = a.extract 0 n := by
  rw [ByteArray.extract_append, Nat.zero_sub, Nat.sub_eq_zero_of_le h, ByteArray.extract_same,
    ByteArray.append_empty]

/-- What a sink with room for `n` bytes has taken in place of another one. -/
def Sink.cut (n : Nat) (k : Sink) : Sink := ⟨some n, k.taken.extract 0 n⟩

/-- What a step comes to if there is room for `n` bytes. -/
def Outcome.cut (n : Nat) : Outcome → Outcome
  | .running s =>
    if s.sink.taken.size ≤ n then .running (s.onto (s.sink.cut n))
    else .faulted (.output Sink.fullMessage) (s.sink.cut n)
  | .halted k => .halted (k.cut n)
  | .faulted f k => .faulted f (k.cut n)

/-- How a run ends if there is room for `n` bytes. -/
def Execution.cut (n : Nat) (e : Execution) : Execution :=
  ⟨if e.sink.taken.size ≤ n then e.ending else .fault (.output Sink.fullMessage), e.sink.cut n⟩

/-- What comes behind a full sink is of no matter. -/
theorem Sink.Extends.cut_eq {k k' : Sink} (h : k.Extends k') (hn : n ≤ k.taken.size) :
    k'.cut n = k.cut n := by
  obtain ⟨more, hmore⟩ := h.taken
  rw [cut, cut, hmore, extract_append_of_le hn]

/-- A sink without a capacity takes everything. -/
theorem Sink.write_all {k : Sink} (hk : k.capacity? = none) (text : String) :
    k.write text = ({ k with taken := k.taken ++ text.toUTF8 }, true) := by
  obtain ⟨capacity, taken⟩ := k
  cases hk
  exact write_unbounded taken text

/-- **A write into a sink with room for `n` bytes** stops after byte `n`. -/
theorem Sink.write_cut {k : Sink} (hk : k.capacity? = none) (hn : k.taken.size ≤ n)
    (text : String) :
    (k.cut n).write text =
      ((k.write text).1.cut n, decide ((k.write text).1.taken.size ≤ n)) := by
  have htaken : (k.cut n).taken = k.taken := extract_of_size_le hn
  have hroom : (k.cut n).room text.toUTF8 = min text.toUTF8.size (n - k.taken.size) := by
    rw [← htaken]
    rfl
  rw [write_all hk]
  simp only [ByteArray.size_append]
  by_cases hfit : k.taken.size + text.toUTF8.size ≤ n
  · have hall : (k.cut n).room text.toUTF8 = text.toUTF8.size := by omega
    have hwhole : (k.taken ++ text.toUTF8).extract 0 n = k.taken ++ text.toUTF8 :=
      extract_of_size_le (by rw [ByteArray.size_append]; exact hfit)
    simp only [write, hall, if_true, decide_eq_true hfit, htaken]
    exact congrArg (fun taken => ((⟨some n, taken⟩ : Sink), true)) hwhole.symm
  · have hpart : (k.cut n).room text.toUTF8 ≠ text.toUTF8.size := by omega
    have hrest : min text.toUTF8.size (n - k.taken.size) = n - k.taken.size := by omega
    simp only [write, if_neg hpart, decide_eq_false hfit, htaken]
    rw [hroom, hrest, cut, cut, ByteArray.extract_append, Nat.zero_sub, extract_of_size_le hn]

/-- **A step into a sink that may be full** does the same, or it is the fault of a full sink. -/
theorem step_cut (p : Bytecode) (limit : Nat) (hs : s.sink.capacity? = none)
    (hn : s.sink.taken.size ≤ n) :
    step p limit (s.onto (s.sink.cut n)) = (step p limit s).cut n := by
  cases nextStep p s with
  | ended h =>
    rw [no_step p limit h, no_step p limit (s := s.onto (s.sink.cut n)) h]
    rfl
  | stops f h =>
    rw [show step p limit s = _ from h limit s.sink, h]
    rfl
  | acts u op h =>
    rw [show step p limit s = _ from h limit s.sink, h,
      show s.advance.onto s.sink = s.advance from rfl, exec_onto]
    cases hx : exec p limit u s.advance op with
    | error f => rfl
    | ok s' =>
      have hsink : s'.sink = s.advance.sink := exec_sink hx
      show Outcome.running (s'.onto (s.sink.cut n)) = (Outcome.running s').cut n
      rw [Outcome.cut, hsink]
      exact (if_pos hn).symm
  | prints u ty h =>
    rw [show step p limit s = _ from h limit s.sink, h]
    cases hp : s.advance.pop u with
    | error f =>
      rw [printTop_error hp, printTop_error hp]
      rfl
    | ok r =>
      have hwritten : (s.sink.write (r.1.format ty ++ "\n")).2 = true := by rw [Sink.write_all hs]
      rw [printTop_onto hp, printTop_onto hp, if_pos hwritten, Sink.write_cut hs hn]
      simp only [decide_eq_true_eq]
      rfl

/-! ## 5. Whole runs -/

/-- A fault into a sink that takes everything writes nothing. -/
theorem faulted_sink {f : Fault} {k : Sink} (hs : s.sink.capacity? = none)
    (h : step p limit s = .faulted f k) : k = s.sink := by
  cases nextStep p s with
  | ended hended => cases (no_step p limit hended).symm.trans h
  | stops f' hstops =>
    cases (hstops limit s.sink).symm.trans h
    rfl
  | acts u op hacts =>
    have hstep := (hacts limit s.sink).symm.trans h
    cases hx : exec p limit u (s.advance.onto s.sink) op <;> rw [hx] at hstep <;> cases hstep
    rfl
  | prints u ty hprints =>
    have hstep := (hprints limit s.sink).symm.trans h
    cases hp : s.advance.pop u with
    | error f' =>
      rw [printTop_error hp] at hstep
      cases hstep
      rfl
    | ok r =>
      have hwritten : (s.sink.write (r.1.format ty ++ "\n")).2 = true := by rw [Sink.write_all hs]
      rw [printTop_onto hp, if_pos hwritten] at hstep
      cases hstep

/-- **A run into a sink that may be full** ends as the one into a sink that takes everything, or
    with the fault of a full sink. -/
theorem Ends.cut {m : Nat} {e : Execution} (h : Ends p limit m s e)
    (hs : s.sink.capacity? = none) (hn : s.sink.taken.size ≤ n) :
    ∃ m', Ends p limit m' (s.onto (s.sink.cut n)) (e.cut n) := by
  induction h with
  | @done s hframes =>
    refine ⟨0, ?_⟩
    rw [Execution.cut, if_pos hn]
    exact .done hframes
  | @fault s f k hf =>
    have hk := faulted_sink hs hf
    subst hk
    refine ⟨1, ?_⟩
    rw [Execution.cut, if_pos hn]
    refine .fault ?_
    rw [step_cut p limit hs hn, hf]
    rfl
  | @more m s s' e hr he ih =>
    have hstep := step_cut p limit hs hn
    have hextends := step_extends p limit s
    rw [hr] at hstep hextends
    by_cases hfits : s'.sink.taken.size ≤ n
    · obtain ⟨m', ih⟩ := ih (hextends.capacity.trans hs) hfits
      rw [Outcome.cut, if_pos hfits] at hstep
      exact ⟨m' + 1, .more hstep ih⟩
    · rw [Outcome.cut, if_neg hfits] at hstep
      have hlt := Nat.not_le.mp hfits
      have hfull : ¬ e.sink.taken.size ≤ n :=
        Nat.not_le.mpr (Nat.lt_of_lt_of_le hlt he.extends.size_le)
      refine ⟨1, ?_⟩
      rw [Execution.cut, if_neg hfull, he.extends.cut_eq (Nat.le_of_lt hlt)]
      exact .fault hstep

/-- **So does a whole run** of sound code. -/
theorem Bytecode.Sound.execute_cut (hp : p.Sound) (limit : Nat) {k : Sink}
    (hk : k.capacity? = none) (hn : k.taken.size ≤ n) :
    execute p limit (k.cut n) = (execute p limit k).cut n := by
  obtain ⟨m, -, h⟩ := hp.runEnds limit k
  obtain ⟨m', -, h'⟩ := hp.runEnds limit (k.cut n)
  have henter := enter_onto (k.cut n) (State.initial p k) p limit p.entry []
  generalize execute p limit k = e at h
  have hcut : ∃ m'', RunEnds p limit (k.cut n) m'' (e.cut n) := by
    cases h with
    | @refused f hstart =>
      rw [hstart] at henter
      refine ⟨0, ?_⟩
      rw [Execution.cut, if_pos hn]
      exact .refused henter
    | @run m s e hstart he =>
      rw [hstart] at henter
      obtain ⟨-, v, -, -, rfl⟩ := enter_inv hstart
      obtain ⟨m'', he'⟩ := he.cut hk hn
      exact ⟨m'', .run henter he'⟩
  obtain ⟨m'', hcut⟩ := hcut
  exact (h'.unique hcut).2

/-- A whole run takes nothing back. -/
theorem RunEnds.extends {m : Nat} {k : Sink} {e : Execution} (h : RunEnds p limit k m e) :
    k.Extends e.sink := by
  cases h with
  | refused => exact .refl k
  | run hstart he =>
    obtain ⟨-, v, -, -, rfl⟩ := enter_inv hstart
    exact he.extends

/-! ## 6. Texts -/

/-- The sink after the listing, if that is wanted, and whether all of it was written. -/
theorem listing_cut (p : Bytecode) (dump : Bool) {k : Sink} (hk : k.capacity? = none)
    (hn : k.taken.size ≤ n) : ∃ k', k'.capacity? = none ∧
      (if dump then k.write p.listing else (k, true)) = (k', true) ∧
      (if dump then (k.cut n).write p.listing else (k.cut n, true)) =
        (k'.cut n, decide (k'.taken.size ≤ n)) := by
  cases dump with
  | false =>
    refine ⟨k, hk, rfl, ?_⟩
    rw [decide_eq_true hn]
    rfl
  | true =>
    refine ⟨{ k with taken := k.taken ++ p.listing.toUTF8 }, hk, Sink.write_all hk _, ?_⟩
    have hcut := Sink.write_cut hk hn p.listing
    rwa [Sink.write_all hk] at hcut

/-- **Sound code is cut off after byte `n`,** be it in its listing or in its run. -/
theorem Bytecode.Sound.runCode_cut (hp : p.Sound) (options : Options) {k : Sink}
    (hk : k.capacity? = none) (hn : k.taken.size ≤ n) :
    runCode p options (k.cut n) =
      (if (runCode p options k).2.taken.size ≤ n then (runCode p options k).1
        else .error (.runtime (.output Sink.fullMessage)), (runCode p options k).2.cut n) := by
  obtain ⟨k', hk', hwhole, hcut⟩ := listing_cut p options.dump hk hn
  have hrun : runCode p options k = ((execute p options.maxCallDepth k').ending.result,
      (execute p options.maxCallDepth k').sink) := by
    rw [runCode, hwhole]
    rfl
  rw [hrun, runCode, hcut]
  by_cases hfits : k'.taken.size ≤ n
  · simp only [decide_eq_true hfits, if_true]
    rw [hp.execute_cut _ hk' hfits]
    exact Prod.ext (apply_ite Ending.result _ _ _) rfl
  · simp only [decide_eq_false hfits]
    obtain ⟨m, -, hends⟩ := hp.runEnds options.maxCallDepth k'
    have hlt := Nat.not_le.mp hfits
    have hfull : ¬ (execute p options.maxCallDepth k').sink.taken.size ≤ n :=
      Nat.not_le.mpr (Nat.lt_of_lt_of_le hlt hends.extends.size_le)
    rw [if_neg hfull, hends.extends.cut_eq (Nat.le_of_lt hlt)]
    rfl

/-- **The output is cut where the sink is full.** Into a sink that takes `n` bytes, a text writes
    the first `n` bytes of what it writes into one that takes everything, be they of its listing
    or of its prints. If that is all of them, it ends in the same way, and else with the fault of
    the full sink. -/
theorem run_cut_off (source : String) (options : Options) (n : Nat) :
    run source options (.new (some n)) =
      if (run source options .unbounded).2.taken.size ≤ n then
        ((run source options .unbounded).1, ⟨some n, (run source options .unbounded).2.taken⟩)
      else (.error (.runtime (.output Sink.fullMessage)),
        ⟨some n, (run source options .unbounded).2.taken.extract 0 n⟩) := by
  have hnew : Sink.new (some n) = Sink.unbounded.cut n :=
    congrArg (Sink.mk (some n)) (extract_of_size_le (Nat.zero_le n)).symm
  unfold run
  cases hcompile : compile source options with
  | error failure => exact (if_pos (Nat.zero_le n)).symm
  | ok code =>
    obtain ⟨p, types, -, -, hgenerate⟩ := compile_inv hcompile
    have hsound := Bytecode.Sound.of_generate hgenerate
    simp only
    rw [hnew, hsound.runCode_cut options rfl (Nat.zero_le n)]
    split
    · rename_i hfits
      rw [Sink.cut, extract_of_size_le hfits]
    · rfl

end Stackling
