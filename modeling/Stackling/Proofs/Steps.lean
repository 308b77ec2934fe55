import Stackling.Typing.Analysis

/-
  File:     Stackling/Proofs/Steps.lean
  Subject:  Steps that change a state and may fail.

  The analysis of a program and the generation of its code are sequences of such steps. Each
  lemma reads the success of a sequence as the success of its parts, or the other way round.
-/
namespace Stackling

variable {σ ε α β : Type}

/-- A sequence succeeds exactly if both of its parts do, one after the other. -/
theorem bind_eq_ok {m : StateT σ (Except ε) α} {f : α → StateT σ (Except ε) β} {s : σ}
    {r : β × σ} : (m >>= f) s = .ok r ↔ ∃ x s', m s = .ok (x, s') ∧ f x s' = .ok r := by
  show StateT.bind m f s = .ok r ↔ _
  unfold StateT.bind
  constructor
  · intro h
    cases hm : m s with
    | error e => rw [hm] at h; cases h
    | ok p => rw [hm] at h; exact ⟨p.1, p.2, rfl, h⟩
  · rintro ⟨x, s', hm, hf⟩
    rw [hm]
    exact hf

/-- So does a sequence of steps without a state. -/
theorem except_bind_eq_ok {m : Except ε α} {f : α → Except ε β} {r : β} :
    (m >>= f) = .ok r ↔ ∃ x, m = .ok x ∧ f x = .ok r := by
  cases m with
  | error e => exact ⟨nofun, nofun⟩
  | ok x => exact ⟨fun h => ⟨x, rfl, h⟩, fun ⟨_, h, hf⟩ => by cases h; exact hf⟩

/-- A sequence goes on where its first part has ended. -/
theorem bind_of_ok {m : StateT σ (Except ε) α} {f : α → StateT σ (Except ε) β} {s s' : σ} {x : α}
    (h : m s = .ok (x, s')) : (m >>= f) s = f x s' := by
  show StateT.bind m f s = _
  unfold StateT.bind
  rw [h]
  rfl

/-- A value needs no step. -/
theorem pure_eq_ok {x y : α} {s s' : σ} :
    (pure x : StateT σ (Except ε) α) s = .ok (y, s') ↔ x = y ∧ s = s' := by
  show Except.ok (x, s) = .ok (y, s') ↔ _
  simp

@[simp] theorem pure_ok {x : α} {s : σ} : (pure x : StateT σ (Except ε) α) s = .ok (x, s) := rfl

@[simp] theorem get_ok {s : σ} : (get : StateT σ (Except ε) σ) s = .ok (s, s) := rfl

@[simp] theorem set_ok {s t : σ} : (set t : StateT σ (Except ε) PUnit) s = .ok (⟨⟩, t) := rfl

@[simp] theorem modify_ok {f : σ → σ} {s : σ} :
    (modify f : StateT σ (Except ε) PUnit) s = .ok (⟨⟩, f s) := rfl

/-- A result that may fail changes no state. -/
theorem lift_eq_ok {m : Except ε α} {x : α} {s s' : σ} :
    (liftM m : StateT σ (Except ε) α) s = .ok (x, s') ↔ m = .ok x ∧ s = s' := by
  cases m with
  | error e => exact ⟨nofun, nofun⟩
  | ok y =>
    show Except.ok (y, s) = .ok (x, s') ↔ _
    simp

/-- What does not fail has a result. -/
theorem exists_eq_ok {m : Except ε α} (h : m.isOk = true) : ∃ x, m = .ok x := by
  cases m with
  | error e => cases h
  | ok x => exact ⟨x, rfl⟩

/-- What passes a test is a result. -/
theorem exists_of_any {m : Except ε α} {test : α → Bool} (h : m.toOption.any test = true) :
    ∃ x, m = .ok x ∧ test x = true := by
  cases m with
  | error e => cases h
  | ok x => exact ⟨x, rfl, h⟩

/-- A failure is no success. -/
theorem throw_ne_ok {e : ε} {s : σ} {r : α × σ} :
    (throw e : StateT σ (Except ε) α) s ≠ .ok r := nofun

/-- What goes on only if nothing is thrown. -/
theorem unless_throw_eq_ok {c : Prop} [Decidable c] {e : ε} {k : β → StateT σ (Except ε) α}
    {m : StateT σ (Except ε) α} {s : σ} {r : α × σ} :
    (if c then throw e >>= k else m) s = .ok r ↔ ¬ c ∧ m s = .ok r := by
  by_cases hc : c
  · rw [if_pos hc]
    refine ⟨fun h => ?_, fun h => absurd hc h.1⟩
    obtain ⟨x, s', hthrow, -⟩ := bind_eq_ok.mp h
    exact absurd hthrow throw_ne_ok
  · rw [if_neg hc]
    exact ⟨fun h => ⟨hc, h⟩, And.right⟩

/-- Dropping the result of a step keeps its success. -/
theorem discard_eq_ok {m : StateT σ (Except ε) α} {s s' : σ} {u : PUnit} :
    discard m s = .ok (u, s') ↔ ∃ x, m s = .ok (x, s') := by
  show StateT.map (Function.const α PUnit.unit) m s = .ok (u, s') ↔ _
  unfold StateT.map
  constructor
  · intro h
    cases hm : m s with
    | error e => rw [hm] at h; cases h
    | ok p =>
      rw [hm] at h
      cases h
      exact ⟨p.1, rfl⟩
  · rintro ⟨x, hm⟩
    rw [hm]
    rfl

end Stackling
