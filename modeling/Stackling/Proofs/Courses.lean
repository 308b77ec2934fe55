/-
  File:     Stackling/Proofs/Courses.lean
  Subject:  Computations that call themselves without a bound.

  A computation is written down as what it does up to its first call and, for every result of that,
  what it does next. What a call does is a computation again. Such a family has a meaning without
  any measure: the calls may nest up to some depth, and the result is the one that is reached at
  some depth, and then at any greater one. Where calls nest for ever, there is none.

  * `Course`, `Course.answered` -- a computation, and its result where the calls are answered;
  * `Course.nested`             -- the answer to a call in which calls nest up to some depth;
  * `Course.result`             -- the result with no bound on the depth;
  * `result_bind`, `result_call` -- of a sequence, and of a call, which does what its body does.
-/
namespace Stackling

/-- **The course of a computation:** it has ended, or it waits for the result of a call. -/
inductive Course {Call : Type} (Result : Call → Type) (α : Type)
  | ended (x : α)
  | waits (call : Call) (next : Result call → Course Result α)

namespace Course

variable {Call : Type} {Result : Call → Type} {α β : Type}

/-! ## 1. Sequences -/

/-- One computation after another. -/
protected def bind (f : α → Course Result β) : Course Result α → Course Result β
  | ended x => f x
  | waits call next => waits call fun r => (next r).bind f

instance : Monad (Course Result) where
  pure := ended
  bind m f := m.bind f

theorem ended_bind (x : α) (f : α → Course Result β) : ended x >>= f = f x := rfl

theorem waits_bind (call : Call) (next : Result call → Course Result α)
    (f : α → Course Result β) : waits call next >>= f = waits call fun r => next r >>= f := rfl

instance : LawfulMonad (Course Result) :=
  .mk' _
    (fun m => by
      induction m with
      | ended x => rfl
      | waits call next ih => exact congrArg (waits call) (funext ih))
    (fun _ _ => rfl)
    (fun m f g => by
      induction m with
      | ended x => rfl
      | waits call next ih => exact congrArg (waits call) (funext ih))

/-! ## 2. Answers -/

/-- The result of a computation whose calls are answered. -/
def answered (answer : (call : Call) → Option (Result call)) : Course Result α → Option α
  | ended x => some x
  | waits call next => (answer call).bind fun r => (next r).answered answer

variable {answer answer' : (call : Call) → Option (Result call)}

theorem answered_bind (m : Course Result α) (f : α → Course Result β) :
    (m >>= f).answered answer = (m.answered answer).bind fun x => (f x).answered answer := by
  induction m with
  | ended x => rfl
  | waits call next ih =>
    rw [waits_bind, answered, answered, Option.bind_assoc]
    exact congrArg (answer call).bind (funext ih)

/-- **With more answers,** a result stays what it is. -/
theorem answered_mono (h : ∀ call r, answer call = some r → answer' call = some r)
    {m : Course Result α} {x : α} (hx : m.answered answer = some x) :
    m.answered answer' = some x := by
  induction m with
  | ended y => exact hx
  | waits call next ih =>
    rw [answered, Option.bind_eq_some_iff] at hx ⊢
    obtain ⟨r, hr, hx⟩ := hx
    exact ⟨r, h call r hr, ih r hx⟩

/-! ## 3. Calls that nest -/

variable (body : (call : Call) → Course Result (Result call))

/-- **The answer to a call** in which calls nest up to the depth. -/
def nested : Nat → (call : Call) → Option (Result call)
  | 0, _ => none
  | depth + 1, call => (body call).answered (nested depth)

theorem nested_succ {depth : Nat} {call : Call} {r : Result call}
    (h : nested body depth call = some r) : nested body (depth + 1) call = some r := by
  induction depth generalizing call with
  | zero => cases h
  | succ depth ih => exact answered_mono (fun _ _ => ih) h

theorem nested_mono {depth depth' : Nat} (hle : depth ≤ depth') {call : Call} {r : Result call}
    (h : nested body depth call = some r) : nested body depth' call = some r := by
  induction hle with
  | refl => exact h
  | step _ ih => exact nested_succ body ih

variable {body} {m : Course Result α} {x y : α} {depth depth' : Nat}

/-- A result that is reached at some depth is reached at any greater one. -/
theorem answered_nested_mono (hle : depth ≤ depth')
    (h : m.answered (nested body depth) = some x) : m.answered (nested body depth') = some x :=
  answered_mono (fun _ _ => nested_mono body hle) h

/-- **There is one result only,** whatever the depth. -/
theorem answered_nested_eq (h : m.answered (nested body depth) = some x)
    (h' : m.answered (nested body depth') = some y) : x = y := by
  have hx := answered_nested_mono (Nat.le_max_left depth depth') h
  have hy := answered_nested_mono (Nat.le_max_right depth depth') h'
  exact Option.some.inj (hx.symm.trans hy)

/-! ## 4. Results -/

open Classical in
/-- **The result of a computation,** if it comes to an end: that at any depth that is enough. -/
noncomputable def result (body : (call : Call) → Course Result (Result call))
    (m : Course Result α) : Option α :=
  if h : ∃ x depth, m.answered (nested body depth) = some x then some h.choose else none

theorem result_eq_some_iff :
    m.result body = some x ↔ ∃ depth, m.answered (nested body depth) = some x := by
  unfold result
  constructor
  · intro h
    split at h
    · rename_i hends
      cases h
      exact hends.choose_spec
    · cases h
  · rintro ⟨depth, hx⟩
    have hends : ∃ y depth, m.answered (nested body depth) = some y := ⟨x, depth, hx⟩
    rw [dif_pos hends]
    obtain ⟨depth', hy⟩ := hends.choose_spec
    exact congrArg some (answered_nested_eq hy hx)

theorem result_ended (x : α) : (ended x : Course Result α).result body = some x :=
  result_eq_some_iff.mpr ⟨0, rfl⟩

/-- **The result of a sequence.** -/
theorem result_bind (m : Course Result α) (f : α → Course Result β) :
    (m >>= f).result body = (m.result body).bind fun x => (f x).result body := by
  refine Option.ext fun y => ?_
  rw [Option.bind_eq_some_iff, result_eq_some_iff]
  constructor
  · rintro ⟨depth, h⟩
    rw [answered_bind, Option.bind_eq_some_iff] at h
    obtain ⟨x, hx, hy⟩ := h
    exact ⟨x, result_eq_some_iff.mpr ⟨depth, hx⟩, result_eq_some_iff.mpr ⟨depth, hy⟩⟩
  · rintro ⟨x, hx, hy⟩
    obtain ⟨depth, hx⟩ := result_eq_some_iff.mp hx
    obtain ⟨depth', hy⟩ := result_eq_some_iff.mp hy
    refine ⟨max depth depth', ?_⟩
    rw [answered_bind, Option.bind_eq_some_iff]
    exact ⟨x, answered_nested_mono (Nat.le_max_left _ _) hx,
      answered_nested_mono (Nat.le_max_right _ _) hy⟩

/-- **A call does what its body does.** -/
theorem result_call (call : Call) :
    (waits call ended : Course Result (Result call)).result body =
      (body call).result body := by
  refine Option.ext fun r => ?_
  rw [result_eq_some_iff, result_eq_some_iff]
  have hanswer : ∀ depth, (waits call ended : Course Result (Result call)).answered
      (nested body depth) = nested body depth call := fun depth => Option.bind_fun_some _
  constructor
  · rintro ⟨depth, h⟩
    rw [hanswer] at h
    cases depth with
    | zero => cases h
    | succ depth => exact ⟨depth, h⟩
  · rintro ⟨depth, h⟩
    exact ⟨depth + 1, (hanswer _).trans h⟩

end Course

end Stackling
