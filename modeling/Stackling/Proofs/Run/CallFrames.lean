import Stackling.Proofs.Code.Linked
import Stackling.Proofs.Run.TypeSoundness

/-
  File:     Stackling/Proofs/Run/CallFrames.lean
  Subject:  Calls leave their callers alone.

  The machine does not look where the operands of a frame begin: it pops whatever is on the
  stack. In the code of an accepted program an instruction finds all its operands in its own
  frame. So a call, with all that it calls, works above the operands that its caller has left,
  and when its frame is popped, they are there as before, under the result if there is one.

  * `Op.Calls.enters`   -- what the step of a call does;
  * `Shelters`          -- a call in work, above the operands and the frames of its callers;
  * `Shelters.step`     -- a step keeps them, or pops the frame of the call;
  * `Shelters.steps`    -- the same for all steps until the frame is popped;
  * `call_keeps_caller` -- what a call does to its caller, from its first step to its last.
-/
namespace Stackling

variable {p : Program} {types : TypeTable} {code : Bytecode} {limit : Nat} {s s' t t' : State}
  {id : UnitId}

/-! ## 1. The step of a call -/

theorem Outcome.ofResult_running {sink : Sink} {r : Except Fault State} :
    Outcome.ofResult sink r = .running s ↔ r = .ok s := by
  cases r with
  | ok s₁ =>
    exact ⟨fun h => congrArg _ (Outcome.running.inj h), fun h => congrArg _ (Except.ok.inj h)⟩
  | error e => exact ⟨nofun, nofun⟩

theorem Op.Calls.advance {low : State} {op : Op} {args : List Value} (h : op.Calls s id args low) :
    op.Calls s.advance id args low.advance := by
  cases h with
  | direct hs => exact .direct hs
  | indirect hs => exact .indirect hs

/-- **A call pops its operands and pushes a frame:** the frame has the arguments, it begins above
    the operands that are left, and below it is the frame of the caller, which has moved on. -/
theorem Op.Calls.enters {low : State} {op : Op} {args : List Value} {f : Frame}
    {below : List Frame} {u : CodeUnit} (h : op.Calls s id args low)
    (hf : s.frames.items = f :: below) (hat : f.At code u op)
    (hs : Stackling.step code limit s = .running s') :
    ∃ w, code.unit? id = some w ∧ s'.stack.items = low.stack.items ∧
      s'.frames.items = ⟨id, 0, args, Array.replicate w.locals .void, low.stack.items.length⟩ ::
        f.moved :: below := by
  rw [h.advance.step_eq hf hat, Outcome.ofResult_running] at hs
  obtain ⟨-, w, hw, -, rfl⟩ := State.enter_inv hs
  have hlow : low.frames.items = f :: below := by rw [h.spec.2, hf]
  refine ⟨w, hw, rfl, ?_⟩
  rw [Pile.items_push, State.advance_items hlow, Pile.size_eq]
  rfl

/-! ## 2. A call in work -/

/-- **A call of the unit `id` is in work** above the operands and the frames of its callers: its
    frame stands on theirs, and no frame above it begins lower. -/
def Shelters (id : UnitId) (lower : List Value) (callers : List Frame) (s : State) : Prop :=
  ∃ top above g, s.stack.items = top ++ lower ∧ s.frames.items = above ++ g :: callers ∧
    g.unit = id ∧ g.base = lower.length ∧ ∀ h ∈ above, lower.length ≤ h.base

/-- The frame of a call of the unit `id` has been popped, by the instruction that leaves the unit
    with a value or by the one that leaves it without. -/
inductive Popped (code : Bytecode) (id : UnitId) (lower : List Value) (callers : List Frame)
    (s : State) : Prop
  | value {u v} (hu : code.unit? id = some u) (hop : .ret ∈ u.ops)
      (hstack : s.stack.items = v :: lower) (hframes : s.frames.items = callers)
  | nothing {u} (hu : code.unit? id = some u) (hop : .retVoid ∈ u.ops)
      (hstack : s.stack.items = lower) (hframes : s.frames.items = callers)

variable {lower : List Value} {callers : List Frame}

/-- Operands that lie below others of which there are no fewer are their lowest. -/
theorem exists_of_append_eq {α : Type} {xs ys top lower : List α} (h : xs ++ ys = top ++ lower)
    (hle : lower.length ≤ ys.length) : ∃ more, ys = more ++ lower := by
  obtain ⟨more, hmore⟩ := List.suffix_of_suffix_length_le ⟨top, h.symm⟩ ⟨xs, rfl⟩ hle
  exact ⟨more, hmore.symm⟩

/-- **A step keeps what lies below a call,** or it pops the frame of the call. -/
theorem Shelters.step (hp : ProgramPlaced p types code) (ht : StateTyped p types code s)
    (h : Shelters id lower callers s) (hs : Stackling.step code limit s = .running s') :
    Shelters id lower callers s' ∨ Popped code id lower callers s' := by
  obtain ⟨top, above, g, hstack, hframes, rfl, hg, habove⟩ := h
  cases above with
  | nil =>
    -- the frame of the call is on top: it begins where the operands of its caller end
    obtain ⟨vs, bottom, hsplit, hbase, hframed⟩ := ht.framed hp hs hframes
    obtain ⟨-, rfl⟩ := List.append_inj' (hsplit.symm.trans hstack) (hbase.symm.trans hg)
    cases hframed with
    | goes hunit hbase' =>
      exact .inl ⟨_, [], _, rfl, rfl, hunit, hbase'.trans hg, nofun⟩
    | enters hbase' =>
      refine .inl ⟨_, [_], g.moved, rfl, rfl, rfl, hg, fun h hmem => ?_⟩
      obtain rfl := List.mem_singleton.mp hmem
      rw [hbase', List.length_append]
      exact Nat.le_add_left _ _
    | returns hat => exact .inr (.value hat.unit (Array.mem_of_getElem? hat.op) rfl rfl)
    | ends hat => exact .inr (.nothing hat.unit (Array.mem_of_getElem? hat.op) rfl rfl)
  | cons f above =>
    -- another frame is on top, and it begins no lower
    obtain ⟨hle, habove⟩ := List.forall_mem_cons.mp habove
    obtain ⟨vs, bottom, hsplit, hbase, hframed⟩ := ht.framed hp hs hframes
    obtain ⟨more, rfl⟩ := exists_of_append_eq (hsplit.symm.trans hstack) (hbase ▸ hle)
    cases hframed with
    | @goes f' vs' _ _ _ hbase' =>
      refine .inl ⟨vs' ++ more, f' :: above, g, (List.append_assoc ..).symm, rfl, rfl, hg, ?_⟩
      exact List.forall_mem_cons.mpr ⟨hbase' ▸ hle, habove⟩
    | @enters g' vs' _ _ hbase' =>
      refine .inl ⟨vs' ++ more, g' :: f.moved :: above, g, (List.append_assoc ..).symm, rfl, rfl,
        hg, List.forall_mem_cons.mpr ⟨?_, List.forall_mem_cons.mpr ⟨hle, habove⟩⟩⟩
      rw [hbase', ← List.append_assoc, List.length_append]
      exact Nat.le_add_left _ _
    | @returns _ v => exact .inl ⟨v :: more, above, g, rfl, rfl, rfl, hg, habove⟩
    | ends => exact .inl ⟨more, above, g, rfl, rfl, rfl, hg, habove⟩

/-! ## 3. From the first step of a call to its last -/

/-- Steps lead from one state of a run to others. -/
theorem Reachable.steps {sink : Sink} (hr : Reachable code limit sink s) {n : Nat}
    (hrun : steps code limit n s = .running t) : Reachable code limit sink t := by
  induction n generalizing t with
  | zero =>
    cases hrun
    exact hr
  | succ n ih =>
    obtain ⟨t₀, hn, hstep⟩ := steps_succ_inv hrun
    exact (ih hn).next hstep

/-- **As long as the frame of a call has not been popped,** what lies below it stays. -/
theorem Shelters.steps {sink : Sink} (hp : ProgramPlaced p types code)
    (hr : Reachable code limit sink s) (h : Shelters id lower callers s) {n : Nat}
    (hrun : steps code limit n s = .running t)
    (hkeeps : Keeps code limit (callers.length + 1) n s) : Shelters id lower callers t := by
  induction n generalizing t with
  | zero =>
    cases hrun
    exact h
  | succ n ih =>
    obtain ⟨t₀, hn, hstep⟩ := steps_succ_inv hrun
    have h₀ := ih hn fun m hm => hkeeps m (Nat.le_succ_of_le hm)
    refine (h₀.step hp ((hr.steps hn).typed hp) hstep).resolve_right fun hpopped => ?_
    have hdeep := hkeeps (n + 1) (Nat.le_refl _) t hrun
    rw [Pile.size_eq] at hdeep
    cases hpopped with
    | value _ _ _ hframes | nothing _ _ _ hframes =>
      rw [hframes] at hdeep
      exact Nat.not_succ_le_self _ hdeep

/-- **Calls do not disturb their caller.** In every run of a compiled text, from the step that
    executes a call of a unit until the step that pops the frame it pushed, the operands below
    those of the call stay, and so do the frame of the caller, with its arguments, its locals and
    the offset at which it goes on, and all frames below. When the frame is popped, these operands
    are what is on the stack, under exactly one value if the unit returns a value. -/
theorem call_keeps_caller {source : String} {options : Options}
    (hc : compile source options = .ok code) {sink : Sink} (hr : Reachable code limit sink s)
    {f : Frame} {below : List Frame} {u : CodeUnit} {op : Op} {args : List Value} {low : State}
    (hf : s.frames.items = f :: below) (hat : f.At code u op) (hcall : op.Calls s id args low)
    (hs : step code limit s = .running s') :
    ∃ w, code.unit? id = some w ∧ s'.stack.items = low.stack.items ∧
      s'.frames.items = ⟨id, 0, args, Array.replicate w.locals .void, low.stack.items.length⟩ ::
        f.moved :: below ∧
      ∀ n t, steps code limit n s' = .running t → Keeps code limit s'.frames.size n s' →
        (∃ top above g, t.stack.items = top ++ low.stack.items ∧
          t.frames.items = above ++ g :: f.moved :: below ∧ g.unit = id) ∧
        ∀ t', step code limit t = .running t' → t'.frames.size < s'.frames.size →
          t'.frames.items = f.moved :: below ∧
            if w.returns then ∃ v, t'.stack.items = v :: low.stack.items
            else t'.stack.items = low.stack.items := by
  obtain ⟨p, types, hp, ht, hg⟩ := compile_inv hc
  have hcompiled := Compiled.of_stages hp ht hg
  obtain ⟨w, hw, hstack, hframes⟩ := hcall.enters hf hat hs
  refine ⟨w, hw, hstack, hframes, fun n t hrun hkeeps => ?_⟩
  have hsize : s'.frames.size = (f.moved :: below).length + 1 := by
    rw [Pile.size_eq, hframes, List.length_cons]
  have hshelters : Shelters id low.stack.items (f.moved :: below) s' :=
    ⟨[], [], _, hstack, hframes, rfl, rfl, nofun⟩
  have hin := hshelters.steps hcompiled.placed (hr.next hs) hrun (hsize ▸ hkeeps)
  constructor
  · obtain ⟨top, above, g, htop, habove, hunit, -, -⟩ := hin
    exact ⟨top, above, g, htop, habove, hunit⟩
  · intro t' hstep hshort
    have htyped := ((hr.next hs).steps hrun).typed hcompiled.placed
    rcases hin.step hcompiled.placed htyped hstep with hstill | hpopped
    · obtain ⟨-, above, g, -, habove, -⟩ := hstill
      rw [hsize, Pile.size_eq, habove, List.length_append, List.length_cons] at hshort
      omega
    · have hleaves := hcompiled.leaves hw
      cases hpopped with
      | @value u' v hu hop hstack' hframes' =>
        obtain rfl : w = u' := Option.some.inj (hw.symm.trans hu)
        rw [hleaves.value .ret hop (.inl rfl)]
        exact ⟨hframes', v, hstack'⟩
      | @nothing u' hu hop hstack' hframes' =>
        obtain rfl : w = u' := Option.some.inj (hw.symm.trans hu)
        rw [hleaves.nothing .retVoid hop rfl]
        exact ⟨hframes', hstack'⟩

/-- Whether steps lead to a state that passes a test. -/
def Outcome.any (o : Outcome) (test : State → Bool) : Bool :=
  match o with
  | .running s => test s
  | _ => false

theorem Outcome.exists_of_any {o : Outcome} {test : State → Bool} (h : o.any test = true) :
    ∃ s, o = .running s ∧ test s = true := by
  cases o with
  | running s => exact ⟨s, rfl, h⟩
  | halted | faulted => cases h

/-- Whether a state is before a direct call that leaves operands below its arguments. -/
def State.callsAbove (code : Bytecode) (s : State) : Bool :=
  match s.frames.items with
  | [] => false
  | f :: _ =>
    match (code.unit? f.unit).bind fun u => u.ops[f.next]? with
    | some (.call _ arity _) => arity < s.stack.items.length
    | _ => false

theorem State.callsAbove_inv (h : s.callsAbove code = true) :
    ∃ f below u op id args low, s.frames.items = f :: below ∧ f.At code u op ∧
      op.Calls s id args low ∧ low.stack.items ≠ [] := by
  unfold State.callsAbove at h
  split at h
  · cases h
  · rename_i f below hframes
    split at h
    · rename_i id arity returns hop
      obtain ⟨u, hu, hop⟩ := Option.bind_eq_some_iff.mp hop
      have hlt := of_decide_eq_true h
      obtain ⟨args, rest, hsplit, rfl⟩ : ∃ args rest : List Value,
          s.stack.items = args.reverse ++ rest ∧ args.length = arity := by
        refine ⟨(s.stack.items.take arity).reverse, s.stack.items.drop arity, ?_, ?_⟩
        · rw [List.reverse_reverse, List.take_append_drop]
        · rw [List.length_reverse, List.length_take, Nat.min_eq_left (Nat.le_of_lt hlt)]
      have hcall : (Op.call id args.length returns).Calls s id args
          { s with stack := .ofList rest } := .direct hsplit
      refine ⟨f, below, u, _, id, args, _, hframes, ⟨hu, hop⟩, hcall, fun hnil => ?_⟩
      rw [Pile.items_ofList] at hnil
      rw [hsplit, hnil, List.append_nil, List.length_reverse] at hlt
      exact Nat.lt_irrefl _ hlt
    · cases h

/-- A call of a function that calls another one, while an operand waits for the result. -/
def waitingSource : String :=
  "fn one(n: int): int \x7b return n \x7d fn two(n: int): int \x7b return one(n) + one(n) \x7d " ++
    "fn main() \x7b print(1 + two(2)) \x7d"

/-- When its frame is popped, the operand is under the result. -/
theorem waiting_keeps_caller : ∃ code s s' f below low,
    compile waitingSource ⟨"waiting", 5, false⟩ = .ok code ∧ Reachable code 5 .unbounded s ∧
    s.frames.items = f :: below ∧ step code 5 s = .running s' ∧ low ≠ [] ∧
    ∀ n t t', steps code 5 n s' = .running t → Keeps code 5 s'.frames.size n s' →
      step code 5 t = .running t' → t'.frames.size < s'.frames.size →
      t'.frames.items = f.moved :: below ∧ ∃ more, t'.stack.items = more ++ low := by
  have hok : (compile waitingSource ⟨"waiting", 5, false⟩).toOption.any fun code =>
      ((State.initial code .unbounded).enter code 5 code.entry []).toOption.any fun s =>
        (steps code 5 5 s).any fun t => (step code 5 t).any fun _ => t.callsAbove code := by
    decide +kernel
  obtain ⟨code, hcode, hok⟩ := exists_of_any hok
  obtain ⟨s₀, hstart, hok⟩ := exists_of_any hok
  obtain ⟨s, hrun, hok⟩ := Outcome.exists_of_any hok
  obtain ⟨s', hstep, hok⟩ := Outcome.exists_of_any hok
  obtain ⟨f, below, u, op, id, args, low, hf, hat, hcall, hlow⟩ := State.callsAbove_inv hok
  have hr := (Reachable.start hstart).steps hrun
  obtain ⟨w, -, -, -, hkeeps⟩ := call_keeps_caller hcode hr hf hat hcall hstep
  refine ⟨code, s, s', f, below, low.stack.items, hcode, hr, hf, hstep, hlow,
    fun n t t' hn hdeep ht hshort => ?_⟩
  obtain ⟨hframes, hstack⟩ := (hkeeps n t hn hdeep).2 t' ht hshort
  refine ⟨hframes, ?_⟩
  split at hstack
  · obtain ⟨v, hv⟩ := hstack
    exact ⟨[v], hv⟩
  · exact ⟨[], hstack⟩

end Stackling
