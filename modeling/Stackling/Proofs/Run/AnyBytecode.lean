import Stackling.Proofs.Run.Faults
import Stackling.Proofs.Run.Stepping

/-
  File:     Stackling/Proofs/Run/AnyBytecode.lean
  Subject:  What holds in a run of any bytecode.

  Nothing is known of the bytecode here: jumps may go anywhere, and units may be called that do
  not exist, or with any number of arguments. The machine still keeps its frames in order, since
  a frame is pushed in one place only, where the room for it, its unit and its arguments are
  looked at in this order.

  * `Frame.Fits`, `State.Formed` -- the frames fit their units, and there is room for them;
  * `State.Formed.step`, `Reachable.formed` -- a step keeps this, and so does a run;
  * `State.AtCall`, `State.AtCall.step_eq`  -- what comes of a call;
  * `exec_overflow`              -- nothing but a call wants more room than there is;
  * `reachable_formed`           -- all of it, for every state of a run.
-/
namespace Stackling

variable {p : Bytecode} {limit : Nat} {s s' : State} {f : Frame} {rest : List Frame}
  {u : CodeUnit} {op : Op} {id : UnitId} {args : List Value}

/-! ## 1. States in order -/

/-- **A frame fits its unit,** which exists: it has as many arguments and as many locals. -/
def Frame.Fits (p : Bytecode) (f : Frame) : Prop :=
  ∃ u, p.unit? f.unit = some u ∧ f.args.length = u.arity ∧ f.locals.size = u.locals

/-- **A state is in order:** there are at most `limit` frames, all of them fit their units, and
    there is one cell for each global of the program. -/
structure State.Formed (p : Bytecode) (limit : Nat) (s : State) : Prop where
  room : s.frames.items.length ≤ limit
  frames : ∀ f ∈ s.frames.items, f.Fits p
  cells : s.globals.size = p.globals.size

/-- Leaving a frame does not touch the cells. -/
theorem State.leave_globals (s : State) (result : Option Value) :
    (s.leave result).globals = s.globals := by
  unfold leave
  cases s.frames.pop? <;> cases result <;> rfl

namespace State.Formed

theorem initial (p : Bytecode) (limit : Nat) (sink : Sink) : (initial p sink).Formed p limit where
  room := Nat.zero_le _
  frames := nofun
  cells := Array.size_replicate

/-- The frames on top of others may be changed if they still fit. -/
theorem onTop (h : s.Formed p limit) (hf : s.frames.items = f :: rest) {t : State} {f' : Frame}
    (ht : t.frames.items = f' :: rest) (hfits : f'.Fits p) (hg : t.globals.size = s.globals.size) :
    t.Formed p limit where
  room := by
    have hroom := h.room
    rw [hf] at hroom
    rwa [ht]
  frames := by
    have hframes := h.frames
    rw [hf] at hframes
    rw [ht]
    exact List.forall_mem_cons.mpr ⟨hfits, (List.forall_mem_cons.mp hframes).2⟩
  cells := hg.trans h.cells

/-- **A call that succeeds** finds room for one more frame, which fits its unit. -/
theorem enter (h : s.Formed p limit) (he : s.enter p limit id args = .ok s') :
    s'.Formed p limit := by
  obtain ⟨hroom, v, hv, harity, rfl⟩ := State.enter_inv he
  refine ⟨?_, List.forall_mem_cons.mpr ⟨⟨v, hv, harity.symm, Array.size_replicate⟩, h.frames⟩,
    h.cells⟩
  rw [Pile.size_eq] at hroom
  exact hroom

/-- **A step keeps a state in order,** whatever the instruction is. -/
theorem step (h : s.Formed p limit) (hs : Stackling.step p limit s = .running s') :
    s'.Formed p limit := by
  obtain ⟨f, rest, u, op, hf, hat, hm⟩ := step_moves hs
  have hadvance := State.advance_items hf
  have hfits : f.Fits p := h.frames f (hf ▸ List.mem_cons_self)
  have hmoved : s.advance.Formed p limit := h.onTop hf hadvance hfits rfl
  cases hm with
  | operands stack => exact ⟨hmoved.room, hmoved.frames, hmoved.cells⟩
  | @storeLocal slot v stack =>
    obtain ⟨w, hw, hargs, hlocals⟩ := hfits
    refine h.onTop hf (Pile.items_mapTop _ hadvance) ⟨w, hw, hargs, ?_⟩ rfl
    exact Array.size_setIfInBounds.trans hlocals
  | storeGlobal stack =>
    exact ⟨hmoved.room, hmoved.frames, Array.size_setIfInBounds.trans hmoved.cells⟩
  | jumps stack => exact h.onTop hf (Pile.items_mapTop _ hadvance) hfits rfl
  | @enters _ id args s₁ _ hc he =>
    have hlow : s₁.Formed p limit := by
      rw [hc.spec.2]
      exact ⟨hmoved.room, hmoved.frames, hmoved.cells⟩
    exact hlow.enter he
  | leaves stack result =>
    have hleave := @State.leave_frames { s.advance with stack } _ _ result hadvance
    have hframes := h.frames
    rw [hf, List.forall_mem_cons] at hframes
    have hroom := h.room
    rw [hf, List.length_cons] at hroom
    refine ⟨?_, hleave ▸ hframes.2, (congrArg Array.size (State.leave_globals _ _)).trans h.cells⟩
    rw [hleave]
    exact Nat.le_of_succ_le hroom
  | prints stack sink => exact ⟨hmoved.room, hmoved.frames, hmoved.cells⟩

end State.Formed

/-- **Every state of a run is in order.** -/
theorem Reachable.formed {sink : Sink} (h : Reachable p limit sink s) : s.Formed p limit := by
  induction h with
  | start h => exact (State.Formed.initial p limit sink).enter h
  | next _ hs ih => exact ih.step hs

/-! ## 2. Calls -/

/-- **The next step calls a unit** with the given arguments; `low` is the state without its
    operands. -/
def State.AtCall (p : Bytecode) (s : State) (op : Op) (id : UnitId) (args : List Value)
    (low : State) : Prop :=
  ∃ f rest u, s.frames.items = f :: rest ∧ f.At p u op ∧ op.Calls s.advance id args low

/-- The state with a frame for a call of the unit `v`, which has the number `id`. -/
def State.pushFrame (s : State) (id : UnitId) (v : CodeUnit) (args : List Value) : State :=
  { s with
    frames := s.frames.push ⟨id, 0, args, Array.replicate v.locals .void, s.stack.size⟩ }

/-- **What comes of a call:** the room is looked at first, then the unit, then its arity. -/
theorem State.AtCall.step_eq {low : State} (h : s.AtCall p op id args low)
    (hs : s.Formed p limit) :
    step p limit s =
      if s.frames.items.length = limit then .faulted (.stackOverflow limit) s.sink
      else match p.unit? id with
        | none => .faulted .unresolvedCallable s.sink
        | some v =>
          if v.arity = args.length then .running (low.pushFrame id v args)
          else .faulted (.arityMismatch v.arity args.length) s.sink := by
  obtain ⟨f, rest, u, hf, hat, hc⟩ := h
  have hsize : low.frames.size = s.frames.items.length := by
    rw [hc.spec.2, Pile.size_eq, State.advance_items hf, hf]
    rfl
  rw [hc.step_eq hf hat, State.enter, hsize]
  by_cases hfull : s.frames.items.length = limit
  · rw [if_pos hfull, if_pos (Nat.le_of_eq hfull.symm)]
    rfl
  · rw [if_neg hfull, if_neg (fun hle => hfull (Nat.le_antisymm hs.room hle))]
    cases p.unit? id with
    | none => rfl
    | some v =>
      simp only [ne_eq, ite_not]
      split <;> rfl

/-- **Nothing but a call** wants more room than there is. -/
theorem exec_overflow {t : State} {n : Nat}
    (h : exec p limit u t op = .error (.stackOverflow n)) :
    ∃ id args low, op.Calls t id args low := by
  have hcall : (∃ id arity returns, op = .call id arity returns) ∨
      ∃ arity returns, op = .callIndirect arity returns := by
    cases exec_faults h with
    | ordinary ho => cases ho
    | overflow hop _ => exact hop
  rcases hcall with ⟨id, arity, returns, rfl⟩ | ⟨arity, returns, rfl⟩
  · rcases except_bind_eq_error h with hpops | ⟨⟨args, t₁⟩, ha, -⟩
    · cases Ordinary.popMany _ _ hpops
    · obtain ⟨rfl, hs, -⟩ := State.popMany_inv ha
      exact ⟨id, args, _, .direct hs⟩
  · rcases except_bind_eq_error h with hpops | ⟨⟨args, t₁⟩, ha, hrest⟩
    · cases Ordinary.popMany _ _ hpops
    · obtain ⟨rfl, hs, -⟩ := State.popMany_inv ha
      rcases except_bind_eq_error hrest with hpops | ⟨⟨v, t₂⟩, hv, hcalled⟩
      · cases Ordinary.pop _ hpops
      · obtain rfl := State.pop_inv hv
        split at hcalled
        · rename_i heq
          cases heq
          exact ⟨_, args, _, .indirect hs⟩
        · rename_i heq
          cases heq
          cases ((Ordinary.apply _ _).bind fun _ => .ok _) _ hcalled
        · cases hcalled

/-- **A step overflows** exactly if it calls a unit and there is no room for one more frame. -/
theorem step_overflow_iff {n : Nat} {sink : Sink} (hs : s.Formed p limit) :
    step p limit s = .faulted (.stackOverflow n) sink ↔
      (n = limit ∧ sink = s.sink) ∧ s.frames.items.length = limit ∧
        ∃ op id args low, s.AtCall p op id args low := by
  constructor
  · intro h
    obtain ⟨op, id, args, low, hcall⟩ : ∃ op id args low, s.AtCall p op id args low := by
      rcases step_faults h with ho | ⟨f, rest, u, op, hf, hat, hfault⟩
      · cases ho
      · have hprint : ∀ ty, op ≠ .print ty := by
          rintro ty rfl
          cases hfault with
          | ordinary ho => cases ho
          | overflow hop _ => rcases hop with ⟨_, _, _, hop⟩ | ⟨_, _, hop⟩ <;> cases hop
        rw [step_eq_exec hf hat hprint] at h
        cases hx : exec p limit u s.advance op with
        | ok t =>
          rw [hx] at h
          cases h
        | error e =>
          rw [hx] at h
          cases h
          obtain ⟨id, args, low, hc⟩ := exec_overflow hx
          exact ⟨op, id, args, low, f, rest, u, hf, hat, hc⟩
    rw [hcall.step_eq hs] at h
    split at h
    · rename_i hfull
      cases h
      exact ⟨⟨rfl, rfl⟩, hfull, op, id, args, low, hcall⟩
    · split at h
      · cases h
      · split at h <;> cases h
  · rintro ⟨⟨rfl, rfl⟩, hfull, op, id, args, low, hcall⟩
    rw [hcall.step_eq hs, if_pos hfull]

/-- **An argument below the arity is there.** -/
theorem step_loadArg_formed {index : Nat} (hs : s.Formed p limit)
    (hf : s.frames.items = f :: rest) (hat : f.At p u (.loadArg index)) (hi : index < u.arity) :
    ∃ v, f.args[index]? = some v ∧ step p limit s = .running (s.advance.push v) := by
  obtain ⟨w, hw, hargs, -⟩ := hs.frames f (hf ▸ List.mem_cons_self)
  obtain rfl := Option.some.inj (hat.unit.symm.trans hw)
  have hv : f.args[index]? = some f.args[index] := List.getElem?_eq_getElem (hargs ▸ hi)
  have harg : (s.advance.frames.top?.bind fun f => f.args[index]?) = some f.args[index] := by
    rw [Pile.top?, State.advance_items hf]
    exact hv
  refine ⟨_, hv, ?_⟩
  have hprint : ∀ ty, Op.loadArg index ≠ .print ty := by
    rintro ty ⟨⟩
  rw [step_eq_exec hf hat hprint, exec, harg]
  rfl

/-- A unit that is called has been entered, with exactly the arguments it takes. -/
theorem State.AtCall.entered {low : State} (h : s.AtCall p op id args low)
    (hs : s.Formed p limit) (hrun : step p limit s = .running s') :
    ∃ v, p.unit? id = some v ∧ v.arity = args.length ∧ s' = low.pushFrame id v args := by
  rw [h.step_eq hs] at hrun
  split at hrun
  · cases hrun
  · cases hv : p.unit? id with
    | none =>
      rw [hv] at hrun
      cases hrun
    | some v =>
      simp only [hv] at hrun
      split at hrun
      · rename_i harity
        cases hrun
        exact ⟨v, rfl, harity, rfl⟩
      · cases hrun

/-- The entry unit is not looked at if there is no room for its frame. -/
theorem start_overflow_iff {sink : Sink} {n : Nat} :
    (State.initial p sink).enter p limit p.entry [] = .error (.stackOverflow n) ↔
      n = limit ∧ limit = 0 := by
  constructor
  · intro h
    rcases State.enter_error h with ho | ⟨hn, hfull⟩
    · cases ho
    · cases hn
      exact ⟨rfl, Nat.le_zero.mp hfull⟩
  · rintro ⟨rfl, rfl⟩
    exact if_pos (Nat.zero_le _)

/-! ## 3. Every run of every bytecode -/

/-- **A run of any bytecode keeps its state in order,** however malformed the bytecode is. A run
    overflows before its first frame if there is no room for any, whether there is an entry unit or
    not. In every state that it comes to there are no more frames than the limit, each of them of
    a unit that exists and with as many arguments and locals as this one has, and as many cells
    as the program has globals. So the unit of the frame on top is found, and an argument below
    its arity is loaded. A step overflows exactly if it calls a unit while there are as many frames
    as may be, before anything else is asked about the unit. Otherwise the unit has to exist, and
    it is entered with exactly as many arguments as it takes, also where it is called as a
    value. -/
theorem reachable_formed (p : Bytecode) (limit : Nat) (sink : Sink) :
    (∀ n, (State.initial p sink).enter p limit p.entry [] = .error (.stackOverflow n) ↔
      n = limit ∧ limit = 0) ∧
    ∀ s, Reachable p limit sink s → s.Formed p limit ∧
      (∀ f rest, s.frames.items = f :: rest → ∃ u, p.unit? f.unit = some u) ∧
      (∀ f rest u index, s.frames.items = f :: rest → f.At p u (.loadArg index) →
        index < u.arity →
          ∃ v, f.args[index]? = some v ∧ step p limit s = .running (s.advance.push v)) ∧
      (∀ n sink', step p limit s = .faulted (.stackOverflow n) sink' ↔
        (n = limit ∧ sink' = s.sink) ∧ s.frames.items.length = limit ∧
          ∃ op id args low, s.AtCall p op id args low) ∧
      (∀ op id args low, s.AtCall p op id args low → s.frames.items.length ≠ limit →
        step p limit s = match p.unit? id with
          | none => .faulted .unresolvedCallable s.sink
          | some v =>
            if v.arity = args.length then .running (low.pushFrame id v args)
            else .faulted (.arityMismatch v.arity args.length) s.sink) ∧
      ∀ arity returns id args low s', s.AtCall p (.callIndirect arity returns) id args low →
        step p limit s = .running s' →
          ∃ v, p.unit? id = some v ∧ v.arity = arity ∧ args.length = arity ∧
            s' = low.pushFrame id v args := by
  refine ⟨fun n => start_overflow_iff, fun s h => ?_⟩
  have hs := h.formed
  refine ⟨hs, fun f rest hf => ?_, fun f rest u index hf hat hi => step_loadArg_formed hs hf hat hi,
    fun n sink' => step_overflow_iff hs, fun op id args low hcall hroom => ?_,
    fun arity returns id args low s' hcall hrun => ?_⟩
  · obtain ⟨u, hu, -⟩ := hs.frames f (hf ▸ List.mem_cons_self)
    exact ⟨u, hu⟩
  · rw [hcall.step_eq hs, if_neg hroom]
  · obtain ⟨v, hv, harity, hs'⟩ := hcall.entered hs hrun
    obtain ⟨f, rest, u, -, -, hc⟩ := hcall
    cases hc with
    | indirect _ => exact ⟨v, hv, harity, rfl, hs'⟩

/-- An entry unit that calls a value with an argument, and the unit that takes it, which calls itself
    without one. -/
def wrongArity : Bytecode where
  units := #[
    ⟨0, "<entry>", 0, 0, false, #[.pushUnit 1, .pushInt 7, .callIndirect 1 false, .retVoid], #[]⟩,
    ⟨1, "takesOne", 1, 0, false, #[.loadArg 0, .pop, .pushUnit 1, .callIndirect 0 false, .retVoid],
      #[]⟩]
  globals := #[]
  entry := 0

/-- The argument is there, and the call without one is refused for its arity, but not before there
    is room for a frame. -/
theorem wrongArity_formed :
    let calling : State :=
      .of [.int 7, .callable (.unit 1 "takesOne")] [⟨0, 2, [], #[], 0⟩] #[] .unbounded
    let called : State := .of [] [⟨1, 0, [.int 7], #[], 0⟩, ⟨0, 3, [], #[], 0⟩] #[] .unbounded
    let refused : State := .of [.callable (.unit 1 "takesOne")]
      [⟨1, 3, [.int 7], #[], 0⟩, ⟨0, 3, [], #[], 0⟩] #[] .unbounded
    (∀ n, (State.initial wrongArity .unbounded).enter wrongArity 2 0 [] ≠
        .error (.stackOverflow n)) ∧
      Reachable wrongArity 2 .unbounded calling ∧ Reachable wrongArity 2 .unbounded called ∧
      called.Formed wrongArity 2 ∧
      (∃ u, wrongArity.unit? 1 = some u ∧ u.arity = 1) ∧
      step wrongArity 2 called = .running (called.advance.push (.int 7)) ∧
      Reachable wrongArity 2 .unbounded refused ∧ Reachable wrongArity 3 .unbounded refused ∧
      step wrongArity 2 refused = .faulted (.stackOverflow 2) .unbounded ∧
      step wrongArity 3 refused = .faulted (.arityMismatch 1 0) .unbounded := by
  intro calling called refused
  have h₁ : Reachable wrongArity 2 .unbounded calling := .next (.next (.start rfl) rfl) rfl
  have h₂ : Reachable wrongArity 2 .unbounded called := .next h₁ rfl
  have h₃ : Reachable wrongArity 2 .unbounded refused := .next (.next (.next h₂ rfl) rfl) rfl
  have h₄ : Reachable wrongArity 3 .unbounded refused :=
    .next (.next (.next (.next (.next (.next (.start rfl) rfl) rfl) rfl) rfl) rfl) rfl
  have hfirst : calling.AtCall wrongArity (.callIndirect 1 false) 1 [.int 7]
      { calling.advance with stack := .empty } :=
    ⟨_, _, _, rfl, ⟨rfl, rfl⟩, @Op.Calls.indirect _ 1 "takesOne" [.int 7] false .empty rfl⟩
  have hsecond : refused.AtCall wrongArity (.callIndirect 0 false) 1 []
      { refused.advance with stack := .empty } :=
    ⟨_, _, _, rfl, ⟨rfl, rfl⟩, @Op.Calls.indirect _ 1 "takesOne" [] false .empty rfl⟩
  obtain ⟨hstart, hrun⟩ := reachable_formed wrongArity 2 .unbounded
  obtain ⟨-, -, -, -, -, hentered⟩ := hrun _ h₁
  obtain ⟨u, hu, harity, -⟩ := hentered _ _ _ _ _ _ hfirst rfl
  obtain ⟨hformed, -, hload, -⟩ := hrun _ h₂
  obtain ⟨v, hv, hloaded⟩ := hload _ _ _ 0 rfl ⟨rfl, rfl⟩ (by decide)
  cases hv
  obtain ⟨-, -, -, hoverflow, -⟩ := hrun _ h₃
  obtain ⟨-, -, -, -, houtcome, -⟩ := (reachable_formed wrongArity 3 .unbounded).2 _ h₄
  exact ⟨fun n hn => absurd ((hstart n).mp hn).2 (by decide), h₁, h₂, hformed, ⟨u, hu, harity⟩,
    hloaded, h₃, h₄, (hoverflow _ _).mpr ⟨⟨rfl, rfl⟩, rfl, _, _, _, _, hsecond⟩,
    houtcome _ _ _ _ hsecond (by decide)⟩

end Stackling
