import Stackling.Text.Decimal
import Stackling.Token.Scan

/-
  File:     Stackling/Proofs/Text/Decimal.lean
  Subject:  A number is read back from its digits.

  * `toDigits_induct`      -- the digits of a number are one digit, or one behind those of another;
  * `toDigits_injective`   -- different numbers have different digits;
  * `readNat?_repr`        -- the digits of a number are read as the number;
  * `readDecimal?_decimal` -- the same for an integer that is not negative.
-/
namespace Stackling.Text

/-! ## 1. Digits -/

/-- **What holds of one digit,** and of a digit behind the digits of a number of which it holds,
    holds of the digits of every number. -/
theorem toDigits_induct {b : Nat} (hb : 1 < b) {motive : Nat → List Char → Prop}
    (one : ∀ n < b, motive n [n.digitChar])
    (more : ∀ n, motive (n / b) (Nat.toDigits b (n / b)) →
      motive n (Nat.toDigits b (n / b) ++ [(n % b).digitChar])) (n : Nat) :
    motive n (Nat.toDigits b n) := by
  induction n using Nat.strongRecOn with
  | ind n ih =>
    rcases Nat.lt_or_ge n b with hlt | hge
    · rw [Nat.toDigits_of_lt_base hlt]
      exact one n hlt
    · rw [Nat.toDigits_of_base_le hb hge]
      exact more n (ih (n / b) (Nat.div_lt_self (by omega) hb))

/-- What holds of every digit holds of those of a number. -/
theorem forall_mem_toDigits {b : Nat} (hb : 1 < b) {P : Char → Prop}
    (hP : ∀ d < b, P d.digitChar) (n : Nat) : ∀ c ∈ Nat.toDigits b n, P c := by
  refine toDigits_induct hb (motive := fun _ ds => ∀ c ∈ ds, P c) (fun d hd => ?_)
    (fun m ih => ?_) n
  · exact List.forall_mem_singleton.mpr (hP d hd)
  · have hlow : m % b < b := Nat.mod_lt m (by omega)
    exact List.forall_mem_append.mpr ⟨ih, List.forall_mem_singleton.mpr (hP _ hlow)⟩

theorem digitChar_injective : ∀ m < 16, ∀ n < 16, Nat.digitChar m = Nat.digitChar n → m = n := by
  decide

/-- **Different numbers have different digits,** to any base up to 16. -/
theorem toDigits_injective {b : Nat} (hb : 1 < b) (hb16 : b ≤ 16) :
    Function.Injective (Nat.toDigits b) := by
  suffices h : ∀ m n, Nat.toDigits b m = Nat.toDigits b n → m = n from @h
  refine toDigits_induct hb (motive := fun m ds => ∀ n, ds = Nat.toDigits b n → m = n)
    (fun m hm n h => ?_) (fun m ih n h => ?_)
  · rcases Nat.lt_or_ge n b with hn | hn
    · rw [Nat.toDigits_of_lt_base hn] at h
      exact digitChar_injective m (by omega) n (by omega) (List.head_eq_of_cons_eq h)
    · rw [Nat.toDigits_of_base_le hb hn, ← List.nil_append [m.digitChar]] at h
      exact absurd (List.append_inj' h rfl).1.symm Nat.toDigits_ne_nil
  · rcases Nat.lt_or_ge n b with hn | hn
    · rw [Nat.toDigits_of_lt_base hn, ← List.nil_append [n.digitChar]] at h
      exact absurd (List.append_inj' h rfl).1 Nat.toDigits_ne_nil
    · rw [Nat.toDigits_of_base_le hb hn] at h
      obtain ⟨hhigh, hlow⟩ := List.append_inj' h rfl
      have hm : m % b < b := Nat.mod_lt m (by omega)
      have hn : n % b < b := Nat.mod_lt n (by omega)
      have hmod := digitChar_injective _ (by omega) _ (by omega) (List.head_eq_of_cons_eq hlow)
      have hdiv := ih (n / b) hhigh
      rw [← Nat.div_add_mod m b, ← Nat.div_add_mod n b, hmod, hdiv]

/-- The character of a digit is read as the digit. -/
theorem digit?_digitChar : ∀ d < 10, digit? (Nat.digitChar d) = some d := by decide

theorem isDigit_digitChar : ∀ d < 10, isDigit (Nat.digitChar d) = true := by decide

/-- Only digits stand in the text of a number. -/
theorem isDigit_of_mem_toDigits {n : Nat} {c : Char} (h : c ∈ Nat.toDigits 10 n) :
    isDigit c = true :=
  forall_mem_toDigits (by decide) (P := fun c => isDigit c = true) isDigit_digitChar n c h

/-- The text of a number starts with a digit. -/
theorem exists_digit (n : Nat) : ∃ c cs, n.repr.toList = c :: cs ∧ isDigit c = true := by
  rw [Nat.toList_repr]
  obtain ⟨c, cs, hcs⟩ := List.exists_cons_of_ne_nil (Nat.toDigits_ne_nil (n := n) (b := 10))
  exact ⟨c, cs, hcs, isDigit_of_mem_toDigits (hcs ▸ List.mem_cons_self)⟩

/-! ## 2. Numbers -/

theorem readDigits?_append (value : Nat) (cs ds : List Char) :
    readDigits? value (cs ++ ds) = (readDigits? value cs).bind fun n => readDigits? n ds := by
  induction cs generalizing value with
  | nil => rfl
  | cons c cs ih =>
    rw [List.cons_append, readDigits?, readDigits?]
    cases digit? c with
    | none => rfl
    | some d => exact ih _

/-- **The digits of a number are read as the number.** -/
theorem readDigits?_toDigits (n : Nat) : readDigits? 0 (Nat.toDigits 10 n) = some n := by
  refine toDigits_induct (by decide) (motive := fun n ds => readDigits? 0 ds = some n)
    (fun d hd => ?_) (fun m ih => ?_) n
  · rw [readDigits?, digit?_digitChar d hd]
    simp [readDigits?]
  · have hmod : m % 10 < 10 := Nat.mod_lt m (by decide)
    rw [readDigits?_append, ih]
    show readDigits? (m / 10) _ = _
    rw [readDigits?, digit?_digitChar _ hmod]
    show some (10 * (m / 10) + m % 10) = some m
    rw [Nat.div_add_mod]

/-- **The text of a number is read as the number.** -/
theorem readNat?_repr (n : Nat) : readNat? n.repr.toList = some n := by
  obtain ⟨c, cs, hcs, -⟩ := exists_digit n
  have hread := readDigits?_toDigits n
  rw [← Nat.toList_repr, hcs] at hread
  rw [hcs]
  exact hread

/-- An integer that is not negative is written as a number. -/
theorem exists_decimal {value : Int64} (h : 0 ≤ value.toInt) :
    ∃ n : Nat, value.toInt = n ∧ decimal value = n.repr := by
  obtain ⟨n, hn⟩ := Int.eq_ofNat_of_zero_le h
  refine ⟨n, hn, ?_⟩
  rw [decimal, hn]
  rfl

/-- **An integer that is not negative is read back from its digits.** -/
theorem readDecimal?_decimal {value : Int64} (h : 0 ≤ value.toInt) :
    readDecimal? (decimal value).toList = some value := by
  obtain ⟨n, hn, hd⟩ := exists_decimal h
  obtain ⟨c, cs, hcs, hc⟩ := exists_digit n
  have hread := readNat?_repr n
  have hsign : c ≠ '-' ∧ c ≠ '+' := by
    constructor <;> rintro rfl <;> revert hc <;> decide
  have hrange : Int64.minValue.toInt ≤ value.toInt ∧ value.toInt ≤ Int64.maxValue.toInt :=
    ⟨Int64.minValue_le_toInt value, Int64.toInt_le value⟩
  rw [hcs] at hread
  rw [hd, hcs]
  unfold readDecimal?
  split
  · rename_i heq
    exact absurd (List.cons.inj heq).1 hsign.1
  · rename_i heq
    exact absurd (List.cons.inj heq).1 hsign.2
  · rw [hread]
    show (if _ ∧ _ then some (Int64.ofInt n) else none) = _
    rw [← hn, if_pos hrange, Int64.ofInt_toInt]

end Stackling.Text
