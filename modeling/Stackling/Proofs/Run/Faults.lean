import Stackling.Proofs.Run.Motion

/-
  File:     Stackling/Proofs/Run/Faults.lean
  Subject:  Which instruction raises which fault.

  A cell that holds nothing is the fault of a load, too many frames are that of a call, and a sink
  that takes no more that of a print. All other faults are about operands and names.

  * `Fault.isOrdinary`   -- a fault of no special instruction;
  * `Ordinary`          -- a computation raises only such faults;
  * `Op.Faults`       -- the faults of an instruction;
  * `exec_faults`, `step_faults` -- there are no others.
-/
namespace Stackling

/-- Whether a fault is about operands and names alone. -/
def Fault.isOrdinary : Fault → Bool
  | uninitializedGlobal _ | stackOverflow _ | output _ => false
  | _ => true

/-- **A computation raises only faults about operands and names.** -/
def Ordinary {α : Type} (m : Except Fault α) : Prop := ∀ f, m = .error f → f.isOrdinary = true

namespace Ordinary

variable {α β : Type} {s : State} {u : CodeUnit}

theorem ok (a : α) : Ordinary (.ok a : Except Fault α) := nofun

theorem error {f : Fault} (h : f.isOrdinary = true) : Ordinary (.error f : Except Fault α) := by
  rintro _ ⟨⟩
  exact h

/-- One computation after the other. -/
theorem bind {m : Except Fault α} {k : α → Except Fault β} (hm : Ordinary m)
    (hk : ∀ a, Ordinary (k a)) : Ordinary (m >>= k) := by
  cases m with
  | ok a => exact hk a
  | error f => exact error (hm f rfl)

theorem ite {c : Prop} [Decidable c] {m m' : Except Fault α} (h : Ordinary m) (h' : Ordinary m') :
    Ordinary (if c then m else m') := by
  split
  · exact h
  · exact h'

theorem pop : Ordinary (s.pop u) := by
  unfold State.pop
  split
  · exact ok _
  · exact error rfl

theorem popMany (n : Nat) : Ordinary (s.popMany u n) := by
  unfold State.popMany
  split
  · exact ok _
  · exact error rfl

theorem popInt : Ordinary (s.popInt u) := by
  refine bind pop fun a => ?_
  split
  · exact ok _
  · exact error rfl

theorem popArray : Ordinary (s.popArray u) := by
  refine bind pop fun a => ?_
  split
  · exact ok _
  · exact error rfl

theorem popHash : Ordinary (s.popHash u) := by
  refine bind pop fun a => ?_
  split
  · exact ok _
  · exact error rfl

theorem popKey : Ordinary (s.popKey u) := by
  refine bind pop fun ⟨v, _⟩ => ?_
  cases hk : v.key? with
  | some key =>
    simp only [hk]
    exact ok _
  | none =>
    simp only [hk]
    exact error rfl

theorem jump (l : Label) : Ordinary (s.jump u l) := by
  unfold State.jump
  split
  · exact ok _
  · exact error rfl

theorem compareValues (c : Comparison) (kind : OperandKind) (left right : Value) :
    Ordinary (compareValues c kind left right) := by
  unfold Stackling.compareValues
  split
  · exact ok _
  · exact ok _
  · exact ok _
  · split
    · exact ok _
    · exact ok _
    · exact error rfl
  · exact error rfl

theorem apply (b : Builtin) (args : List Value) : Ordinary (b.apply args) := by
  unfold Builtin.apply
  split
  · exact ok _
  · exact ok _
  · split
    · exact ok _
    · exact error rfl
  · split
    · exact ok _
    · exact error rfl
  · exact ok _
  · exact ok _
  all_goals exact error rfl

end Ordinary

/-- **The faults of an instruction.** -/
inductive Op.Faults (p : Bytecode) (limit : Nat) (s : State) : Op → Fault → Prop
  | ordinary {op f} (h : f.isOrdinary = true) : Faults p limit s op f
  | unset {cell name} (h : ∀ v, s.globals[cell]? ≠ some (some v)) :
      Faults p limit s (.loadGlobal cell) (.uninitializedGlobal name)
  | overflow {op} (hop : (∃ id arity returns, op = .call id arity returns) ∨
      ∃ arity returns, op = .callIndirect arity returns) (h : limit ≤ s.frames.size) :
      Faults p limit s op (.stackOverflow limit)
  | refused {ty message} : Faults p limit s (.print ty) (.output message)

variable {p : Bytecode} {limit : Nat} {u : CodeUnit} {s s' : State} {op : Op} {f : Fault}

/-- A call is refused for its unit, or for want of frames. -/
theorem State.enter_error {id : UnitId} {args : List Value}
    (h : s.enter p limit id args = .error f) :
    f.isOrdinary = true ∨ f = .stackOverflow limit ∧ limit ≤ s.frames.size := by
  unfold enter at h
  split at h
  · cases h
    exact .inr ⟨rfl, ‹_›⟩
  · split at h
    · cases h
      exact .inl rfl
    · split at h <;> cases h
      exact .inl rfl

/-- **Where one computation goes on after the other,** one of them has failed. -/
theorem except_bind_eq_error {α β : Type} {m : Except Fault α} {k : α → Except Fault β}
    (h : (m >>= k) = .error f) : m = .error f ∨ ∃ a, m = .ok a ∧ k a = .error f := by
  cases m with
  | error e =>
    cases h
    exact .inl rfl
  | ok a => exact .inr ⟨a, rfl, h⟩

/-- **An instruction raises no other faults.** -/
theorem exec_faults (h : exec p limit u s op = .error f) : op.Faults p limit s f := by
  -- most instructions pop some operands, and compute a value from them
  have pops₁ : ∀ {α : Type} {m : Except Fault α} {k : α → Except Fault State}, Ordinary m →
      (∀ a, Ordinary (k a)) → (m >>= k) = .error f → op.Faults p limit s f :=
    fun hm hk he => .ordinary (hm.bind hk f he)
  have pops₂ : ∀ {α β : Type} {m : Except Fault (α × State)}
      {m' : α × State → Except Fault (β × State)}
      {k : α × State → β × State → Except Fault State}, Ordinary m → (∀ x, Ordinary (m' x)) →
      (∀ x y, Ordinary (k x y)) → (m >>= fun x => m' x >>= k x) = .error f →
      op.Faults p limit s f :=
    fun hm hm' hk => pops₁ hm fun x => (hm' x).bind (hk x)
  cases op with
  | pushInt | pushChar | pushText | pushBuiltin | loadLocal | newArray | newHash | retVoid =>
    cases h
  | pushUnit | loadArg =>
    simp only [exec] at h
    split at h <;> cases h
    exact .ordinary rfl
  | loadGlobal cell =>
    simp only [exec] at h
    split at h <;> cases h
    rename_i hnot
    exact .unset hnot
  | storeLocal | storeGlobal | pop | print | ret => exact pops₁ .pop (fun _ => .ok _) h
  | addInt | subInt | mulInt => exact pops₂ .popInt (fun _ => .popInt) (fun _ _ => .ok _) h
  | divInt =>
    refine pops₂ .popInt (fun _ => .popInt) (fun x y => ?_) h
    simp only
    split
    · exact .error rfl
    · exact .ok _
  | concat =>
    refine pops₂ .pop (fun _ => .pop) (fun x y => ?_) h
    simp only
    split
    · exact .ok _
    · exact .error rfl
    · exact .error rfl
  | compare c kind =>
    exact pops₂ .pop (fun _ => .pop)
      (fun x y => (Ordinary.compareValues c kind y.1 x.1).bind fun _ => .ok _) h
  | intToBool | not => exact pops₁ .popInt (fun _ => .ok _) h
  | jump l => exact .ordinary (Ordinary.jump l f h)
  | jumpIf l =>
    refine pops₁ .popInt (fun x => ?_) h
    simp only
    split
    · exact .ok _
    · exact .jump l
  | setElement index =>
    refine pops₂ .pop (fun _ => .popArray) (fun x y => ?_) h
    simp only
    split
    · exact .ok _
    · exact .error rfl
  | insertEntry =>
    exact pops₂ .pop (fun _ => .popKey) (fun _ _ => Ordinary.popHash.bind fun _ => .ok _) h
  | indexArray =>
    refine pops₂ .popInt (fun _ => .popArray) (fun x y => ?_) h
    simp only
    split
    · exact .ok _
    · exact .error rfl
  | indexHash =>
    refine pops₂ .popKey (fun _ => .popHash) (fun x y => ?_) h
    simp only
    split
    · exact .ok _
    · exact .error rfl
  | call id arity returns =>
    rcases except_bind_eq_error h with h | ⟨⟨args, s₁⟩, ha, h⟩
    · exact .ordinary (Ordinary.popMany _ f h)
    · rw [(State.popMany_inv ha).2.2] at h
      rcases State.enter_error h with hordinary | ⟨rfl, hfull⟩
      · exact .ordinary hordinary
      · exact .overflow (.inl ⟨_, _, _, rfl⟩) hfull
  | callIndirect arity returns =>
    rcases except_bind_eq_error h with h | ⟨⟨args, s₁⟩, ha, h⟩
    · exact .ordinary (Ordinary.popMany _ f h)
    · rcases except_bind_eq_error h with h | ⟨⟨v, s₂⟩, hv, h⟩
      · exact .ordinary (Ordinary.pop f h)
      · have hframes : s₂.frames = s.frames := by
          have h₁ := congrArg State.frames (State.popMany_inv ha).2.2
          have h₂ := congrArg State.frames (State.pop_inv hv)
          exact h₂.symm.trans h₁
        split at h
        · rename_i heq
          cases heq
          rcases State.enter_error h with hordinary | ⟨rfl, hfull⟩
          · exact .ordinary hordinary
          · exact .overflow (.inr ⟨_, _, rfl⟩) (hframes ▸ hfull)
        · rename_i heq
          cases heq
          exact .ordinary ((Ordinary.apply _ _).bind (fun _ => .ok _) f h)
        · cases h
          exact .ordinary rfl
  | callBuiltin b =>
    exact pops₁ (.popMany _) (fun x => (Ordinary.apply b x.1).bind fun _ => .ok _) h
  | missingReturn =>
    cases h
    exact .ordinary rfl

/-- **A step raises the fault of the instruction** that the frame on top stands before, or one
    about names. -/
theorem step_faults {sink : Sink} (h : step p limit s = .faulted f sink) :
    f.isOrdinary = true ∨ ∃ frame rest u op, s.frames.items = frame :: rest ∧ frame.At p u op ∧
      op.Faults p limit s f := by
  obtain ⟨stack, ⟨frames, size, hsize⟩, globals, sink'⟩ := s
  cases frames with
  | nil => cases h
  | cons frame rest =>
    simp only [step, Pile.top?, List.head?_cons] at h
    cases hu : p.unit? frame.unit with
    | none =>
      rw [hu] at h
      cases h
      exact .inl rfl
    | some u =>
      simp only [hu] at h
      cases hop : u.ops[frame.next]? with
      | none =>
        rw [hop] at h
        cases h
        exact .inl rfl
      | some op =>
        simp only [hop] at h
        refine .inr ⟨frame, rest, u, op, rfl, ⟨hu, hop⟩, ?_⟩
        split at h
        · unfold printTop at h
          split at h
          · rename_i hp
            cases h
            exact .ordinary (Ordinary.pop _ hp)
          · split at h <;> cases h
            exact .refused
        · rename_i hprint
          split at h <;> cases h
          rename_i hx
          -- the frame on top has moved on, and the others and the cells are the same
          cases exec_faults hx with
          | ordinary hordinary => exact .ordinary hordinary
          | unset hnot => exact .unset hnot
          | overflow hcall hfull => exact .overflow hcall hfull
          | refused => exact (hprint _ rfl).elim

end Stackling
