import Mathlib.Algebra.Group.Nat.Defs
import Stackling.Proofs.Run.Operators
import Stackling.Proofs.Typing.Analysed

/-
  File:     Stackling/Proofs/Run/Builtins.lean
  Subject:  Built-in functions do what their types say.

  The type of a direct call is computed from the types of the arguments, and its result from the
  arguments, by two functions that do not know of each other. They agree for every type of items
  and every length. Only an item of an empty array is missing.

  * `Builtin.LacksItem`      -- an item of an empty array is asked for;
  * `Builtin.apply_own`      -- no other fault is the program's own doing;
  * `Builtin.Typed.promised` -- the result has its type, if there is one;
  * `Builtin.keeps_promise`  -- the types of built-ins, and how their results belong together.
-/
namespace Stackling

namespace Builtin

variable {b : Builtin} {args : List Value} {types : List Ty} {ty : Ty} {p : Program} {f : Fault}

/-! ## 1. Results and faults -/

/-- **The first or last item of an empty array** is asked for. -/
def LacksItem (b : Builtin) (args : List Value) : Prop :=
  (b = .first ∨ b = .last) ∧ args = [.array []]

theorem LacksItem.apply_eq (h : b.LacksItem args) : b.apply args = .error (.emptyArray b.name) := by
  obtain ⟨rfl | rfl, rfl⟩ := h <;> rfl

/-- A fault that is the program's own doing is that of an empty array. -/
theorem apply_own (h : b.apply args = .error f) (hf : f.isOwn = true) : b.LacksItem args := by
  unfold apply at h
  split at h
  case h_3 items =>
    cases items with
    | nil => exact ⟨.inl rfl, rfl⟩
    | cons v rest => cases h
  case h_4 items =>
    cases hl : items.getLast? with
    | none => exact ⟨.inr rfl, by rw [List.getLast?_eq_none_iff.mp hl]⟩
    | some v =>
      rw [hl] at h
      cases h
  all_goals
    cases h
    all_goals cases hf

/-- **A built-in on arguments of its types** gives a result of its type, or an item is lacking. -/
theorem Typed.promised (h : b.Typed types ty) (ha : List.Forall₂ (Value.Of p) args types) :
    (b.LacksItem args ∧ b.apply args = .error (.emptyArray b.name)) ∨
      ¬ b.LacksItem args ∧ ∃ v, b.apply args = .ok v ∧ v.Of p ty := by
  obtain ⟨-, hy⟩ := h.yields ha
  cases hr : b.apply args with
  | ok v =>
    rw [hr] at hy
    refine .inr ⟨fun hl => ?_, v, rfl, hy⟩
    rw [hl.apply_eq] at hr
    cases hr
  | error f =>
    rw [hr] at hy
    have hl := apply_own hr hy
    exact .inl ⟨hl, hr.symm.trans hl.apply_eq⟩

/-- **The signature is a type of direct calls.** -/
theorem checkCall_params (b : Builtin) : b.checkCall b.params = .ok b.returns :=
  checkCall_eq_ok_iff.mpr b.typed_signature

/-! ## 2. Results that belong together -/

theorem apply_push (items : List Value) (x : Value) :
    push.apply [.array items, x] = .ok (.array (items ++ [x])) := rfl

theorem apply_len_array (items : List Value) :
    len.apply [.array items] = .ok (.int (Int64.ofNat items.length)) := rfl

theorem apply_len_text (s : String) :
    len.apply [.text s] = .ok (.int (Int64.ofNat s.length)) := rfl

theorem apply_rest (items : List Value) :
    rest.apply [.array items] = .ok (.array items.tail) := rfl

/-- One more item adds one to the length, -/
theorem apply_len_push (items : List Value) (x : Value) :
    len.apply [.array (items ++ [x])] = .ok (.int (Int64.ofNat items.length + 1)) := by
  rw [apply_len_array, List.length_append, Int64.ofNat_add]
  rfl

/-- it is the last one, -/
theorem apply_last_push (items : List Value) (x : Value) :
    last.apply [.array (items ++ [x])] = .ok x := by
  rw [apply, List.getLast?_concat]

/-- and taking away the first item does not matter to it. -/
theorem apply_rest_push {items : List Value} (x : Value) (h : items ≠ []) :
    rest.apply [.array (items ++ [x])] = push.apply [.array items.tail, x] := by
  rw [apply_rest, apply_push, List.tail_append_of_ne_nil h]

/-- Two texts are together as long as both of them. -/
theorem apply_len_append (s t : String) :
    len.apply [.text (s ++ t)] = .ok (.int (Int64.ofNat s.length + Int64.ofNat t.length)) := by
  rw [apply_len_text, String.length_append, Int64.ofNat_add]

/-- Two texts are put together. -/
theorem gives_concat (code : Bytecode) (s t : String) :
    Op.concat.Gives code [.text t, .text s] (.ok (.text (s ++ t))) := fun _ _ _ _ _ _ => rfl

/-- Numbers that are added below `2 ^ 63` do not wrap around. -/
theorem toInt_ofNat_add {m n : Nat} (h : m + n < 2 ^ 63) :
    (Int64.ofNat m + Int64.ofNat n).toInt = (m + n : Nat) := by
  rw [← Int64.ofNat_add]
  exact Int64.toInt_ofNat_of_lt h

/-- **The types of the built-ins are kept,** and their results belong together.
    A direct call that has a type gives a value of that type for all arguments of the types it
    was checked with, unless the first or the last item of an empty array is asked for, and then
    the fault tells so. Its signature is one of the types a built-in has in direct calls.
    A pushed item makes an array longer by one, and is its last one; pushing it before or after the
    first item is taken away is the same; and the first item with the rest of an array is the
    array. Two texts together are as long as both of them. -/
theorem keeps_promise :
    (∀ (p : Program) (b : Builtin) (types : List Ty) (ty : Ty) (args : List Value),
      b.checkCall types = .ok ty → List.Forall₂ (Value.Of p) args types →
        (b.LacksItem args ∧ b.apply args = .error (.emptyArray b.name)) ∨
          ¬ b.LacksItem args ∧ ∃ v, b.apply args = .ok v ∧ v.Of p ty) ∧
      (∀ b : Builtin, b.signature = .fn b.params b.returns ∧
        b.checkCall b.params = .ok b.returns) ∧
      (∀ (items : List Value) (x : Value), ∃ pushed n,
        push.apply [.array items, x] = .ok pushed ∧
        len.apply [.array items] = .ok (.int n) ∧ len.apply [pushed] = .ok (.int (n + 1)) ∧
        (items.length < 2 ^ 63 → n.toInt = items.length) ∧
        (items.length + 1 < 2 ^ 63 → (n + 1).toInt = n.toInt + 1) ∧
        last.apply [pushed] = .ok x ∧
        (items ≠ [] → ∃ v tail,
          first.apply [.array items] = .ok v ∧ rest.apply [.array items] = .ok (.array tail) ∧
          items = v :: tail ∧ rest.apply [pushed] = push.apply [.array tail, x])) ∧
      ∀ (code : Bytecode) (s t : String), ∃ joined m n,
        Op.concat.Gives code [.text t, .text s] (.ok joined) ∧
        len.apply [.text s] = .ok (.int m) ∧ len.apply [.text t] = .ok (.int n) ∧
        len.apply [joined] = .ok (.int (m + n)) ∧
        (s.length + t.length < 2 ^ 63 →
          m.toInt = s.length ∧ n.toInt = t.length ∧ (m + n).toInt = m.toInt + n.toInt) := by
  refine ⟨fun p b types ty args h ha => (checkCall_eq_ok_iff.mp h).promised ha,
    fun b => ⟨rfl, b.checkCall_params⟩, fun items x => ?_, fun code s t => ?_⟩
  · refine ⟨_, _, apply_push items x, apply_len_array items, apply_len_push items x,
      Int64.toInt_ofNat_of_lt, fun hlt => ?_, apply_last_push items x, fun hne => ?_⟩
    · rw [Int64.toInt_ofNat_of_lt (Nat.lt_of_succ_lt hlt)]
      exact toInt_ofNat_add hlt
    · cases items with
      | nil => exact absurd rfl hne
      | cons v tail => exact ⟨v, tail, rfl, rfl, rfl, apply_rest_push x hne⟩
  · refine ⟨_, _, _, gives_concat code s t, apply_len_text s, apply_len_text t,
      apply_len_append s t, fun hlt => ?_⟩
    have hs : (Int64.ofNat s.length).toInt = s.length :=
      Int64.toInt_ofNat_of_lt (Nat.lt_of_le_of_lt (Nat.le_add_right _ _) hlt)
    have ht : (Int64.ofNat t.length).toInt = t.length :=
      Int64.toInt_ofNat_of_lt (Nat.lt_of_le_of_lt (Nat.le_add_left _ _) hlt)
    refine ⟨hs, ht, ?_⟩
    rw [toInt_ofNat_add hlt, hs, ht]
    exact Int.natCast_add _ _

/-- The first item of an array of texts, with items and without any, one more item pushed to it, and
    two texts put together. -/
theorem texts_keep_promise :
    let p : Program := ⟨[], [], .mk [] .blank, .blank⟩
    first.checkCall [.array .string] = .ok .string ∧
      first.apply [.array []] = .error (.emptyArray "first") ∧
      (∃ v, first.apply [.array [.text "a", .text "b"]] = .ok v ∧ v.Of p .string) ∧
      (∃ pushed n, push.apply [.array [.text "a", .text "b"], .text "c"] = .ok pushed ∧
        len.apply [pushed] = .ok (.int n) ∧ n.toInt = 3 ∧
        rest.apply [pushed] = push.apply [.array [.text "b"], .text "c"]) ∧
      ∃ joined m n, Op.concat.Gives ⟨#[], #[], 0⟩ [.text "cd", .text "ab"] (.ok joined) ∧
        len.apply [joined] = .ok (.int (m + n)) ∧ (m + n).toInt = 4 := by
  intro p
  obtain ⟨htyped, -, hpush, hjoin⟩ := keeps_promise
  have hnone : List.Forall₂ (Value.Of p) [.array []] [.array .string] :=
    .cons (.array (List.forall_mem_nil _)) .nil
  have hsome : List.Forall₂ (Value.Of p) [.array [.text "a", .text "b"]] [.array .string] :=
    .cons (.array (List.forall_mem_cons.mpr ⟨.text, List.forall_mem_singleton.mpr .text⟩)) .nil
  have hempty : first.apply [.array []] = .error (.emptyArray "first") := by
    obtain ⟨-, h⟩ | ⟨hl, -⟩ := htyped p first _ _ _ rfl hnone
    · exact h
    · exact absurd ⟨.inl rfl, rfl⟩ hl
  have hitem : ∃ v, first.apply [.array [.text "a", .text "b"]] = .ok v ∧ v.Of p .string := by
    obtain ⟨hl, -⟩ | ⟨-, h⟩ := htyped p first _ _ _ rfl hsome
    · cases hl.2
    · exact h
  obtain ⟨pushed, n, hp, -, hlen, hn, hsucc, -, hrest⟩ := hpush [.text "a", .text "b"] (.text "c")
  obtain ⟨_, _, -, hr, hcons, hrest⟩ := hrest (List.cons_ne_nil _ _)
  obtain ⟨joined, m, k, hgives, -, -, hjoined, hsum⟩ := hjoin ⟨#[], #[], 0⟩ "ab" "cd"
  obtain ⟨hm, hk, hsum⟩ := hsum (by decide)
  cases hcons
  refine ⟨rfl, hempty, hitem, ⟨pushed, n + 1, hp, hlen, ?_, hrest⟩,
    joined, m, k, hgives, hjoined, ?_⟩
  · rw [hsucc (by decide), hn (by decide)]
    rfl
  · rw [hsum, hm, hk]
    rfl

end Builtin

end Stackling
