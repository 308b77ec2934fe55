import Stackling.Proofs.Text.Decimal
import Stackling.Proofs.Text.Quoted
import Stackling.Value.Text

/-
  File:     Stackling/Proofs/Text/Delimited.lean
  Subject:  Texts that end by themselves.

  In a row of texts without anything between them, it can still be clear where each of them ends:
  a number goes on as long as there are digits, a quoted text up to its quote, and a bracket up to
  the one that closes it. Then the row tells what every text stands for.

  * `Delimited`           -- such texts, and what they stand for;
  * `Delimited.number`    -- numbers, if no digit follows;
  * `Delimited.quoted`    -- texts in quotes, whatever is in them;
  * `Delimited.pair`      -- two such texts with a colon between them;
  * `Delimited.bracketed` -- a list of them in brackets, of any length.
-/
namespace Stackling.Text

variable {α β : Type} {rest rest' : List Char}

/-! ## 1. Texts that end by themselves -/

/-- The characters that end a list. -/
def isClosing (c : Char) : Bool := c == ']' || c == '\x7d'

theorem isDigit_of_isClosing {c : Char} (h : isClosing c = true) : isDigit c = false := by
  simp only [isClosing, Bool.or_eq_true, beq_iff_eq] at h
  rcases h with rfl | rfl <;> decide

/-- **Texts that end by themselves,** if no digit follows them: what a text stands for and where
    it ends is clear from the characters. None of them could be the end of a list. -/
structure Delimited (S : α → Prop) (write : α → List Char) : Prop where
  start {x : α} : S x → ∃ c cs, write x = c :: cs ∧ isClosing c = false
  cut {x y : α} {rest rest' : List Char} : S x → S y → EndsRun isDigit rest →
    EndsRun isDigit rest' → write x ++ rest = write y ++ rest' → x = y ∧ rest = rest'

namespace Delimited

variable {S : α → Prop} {T : β → Prop} {write : α → List Char} {write' : β → List Char}

/-- The same texts may stand for something else. -/
theorem map (h : Delimited S write) (g : α → β)
    (hg : ∀ y, T y → ∃ x, S x ∧ g x = y ∧ write' y = write x) : Delimited T write' where
  start {y} hy := by
    obtain ⟨x, hx, -, hw⟩ := hg y hy
    rw [hw]
    exact h.start hx
  cut {y z rest rest'} hy hz hrest hrest' heq := by
    obtain ⟨x, hx, rfl, hw⟩ := hg y hy
    obtain ⟨x', hx', rfl, hw'⟩ := hg z hz
    rw [hw, hw'] at heq
    obtain ⟨rfl, hrests⟩ := h.cut hx hx' hrest hrest' heq
    exact ⟨rfl, hrests⟩

/-- **A text stands for one thing.** -/
theorem injective (h : Delimited S write) {x y : α} (hx : S x) (hy : S y)
    (heq : write x = write y) : x = y := by
  have hnil : EndsRun isDigit [] := nofun
  exact (h.cut hx hy hnil hnil (congrArg (· ++ []) heq)).1

/-- A text does not start with the end of a list. -/
theorem ne_close (h : Delimited S write) {x : α} (hx : S x) {close : Char}
    (hclose : isClosing close = true) (cs ds : List Char) : write x ++ cs ≠ close :: ds := by
  obtain ⟨c, run, hw, hc⟩ := h.start hx
  rw [hw]
  intro heq
  obtain rfl := (List.cons.inj heq).1
  rw [hc] at hclose
  cases hclose

/-! ## 2. Numbers and truth values -/

/-- Digits end where no digit follows. -/
theorem digits {m n : Nat} (hrest : EndsRun isDigit rest) (hrest' : EndsRun isDigit rest')
    (h : m.repr.toList ++ rest = n.repr.toList ++ rest') : m = n ∧ rest = rest' := by
  rw [Nat.toList_repr, Nat.toList_repr] at h
  obtain ⟨hdigits, hrests⟩ := hrest.cut hrest' (fun _ => isDigit_of_mem_toDigits)
    (fun _ => isDigit_of_mem_toDigits) h
  exact ⟨toDigits_injective (by decide) (by decide) hdigits, hrests⟩

/-- An integer is written as the digits of a number, with a minus if it is negative. -/
theorem decimal_cases (n : Int64) : (∃ m : Nat, n.toInt = m ∧ decimal n = m.repr) ∨
    ∃ m : Nat, n.toInt = -m ∧ (decimal n).toList = '-' :: m.repr.toList := by
  rcases Int.lt_or_le n.toInt 0 with hneg | hpos
  · obtain ⟨m, hm⟩ := Int.eq_negSucc_of_lt_zero hneg
    refine .inr ⟨m + 1, hm, ?_⟩
    rw [decimal, hm]
    exact String.toList_append
  · exact .inl (exists_decimal hpos)

/-- The digits of a number do not start with a minus. -/
theorem digits_ne_minus {m : Nat} {cs : List Char} : m.repr.toList ++ rest ≠ '-' :: cs := by
  obtain ⟨c, run, hdigits, hc⟩ := exists_digit m
  rw [hdigits]
  intro heq
  obtain rfl := (List.cons.inj heq).1
  revert hc
  decide

/-- **Numbers.** -/
theorem number : Delimited (fun _ : Int64 => True) fun n => (decimal n).toList where
  start {n} _ := by
    rcases decimal_cases n with ⟨m, -, hm⟩ | ⟨m, -, hm⟩
    · obtain ⟨c, run, hdigits, hc⟩ := exists_digit m
      rw [hm]
      refine ⟨c, run, hdigits, Bool.eq_false_iff.mpr fun hclose => ?_⟩
      rw [isDigit_of_isClosing hclose] at hc
      cases hc
    · exact ⟨_, _, hm, by decide⟩
  cut {n n' rest rest'} _ _ hrest hrest' h := by
    rcases decimal_cases n with ⟨m, hn, hm⟩ | ⟨m, hn, hm⟩ <;>
      rcases decimal_cases n' with ⟨m', hn', hm'⟩ | ⟨m', hn', hm'⟩ <;> rw [hm, hm'] at h
    · obtain ⟨rfl, hrests⟩ := digits hrest hrest' h
      exact ⟨Int64.toInt_inj.mp (hn.trans hn'.symm), hrests⟩
    · exact absurd h digits_ne_minus
    · exact absurd h.symm digits_ne_minus
    · obtain ⟨rfl, hrests⟩ := digits hrest hrest' (List.cons.inj h).2
      exact ⟨Int64.toInt_inj.mp (hn.trans hn'.symm), hrests⟩

/-- Truth values. -/
theorem truth : Delimited (fun _ : Bool => True) fun b =>
    (if b then "true" else "false").toList where
  start {b} _ := by
    cases b
    · exact ⟨_, _, rfl, by decide⟩
    · exact ⟨_, _, rfl, by decide⟩
  cut {b b' rest rest'} _ _ _ _ h := by
    cases b <;> cases b' <;> simp at h ⊢ <;> exact h

/-! ## 3. Quoted texts -/

/-- A character that is not legible is written by its number. -/
theorem escaped_hidden {quote c : Char} (hq : IsQuote quote) (hc : ¬ Legible c) :
    escaped quote c = '\\' :: 'u' :: '\x7b' :: (hexDigits c.toNat ++ ['\x7d']) := by
  obtain ⟨hshort, hhidden⟩ := not_or.mp hc
  simp only [List.mem_cons, List.not_mem_nil, or_false, not_or] at hshort
  obtain ⟨h0, ht, hr, hn⟩ := hshort
  have hplain : ¬ (c = '\\' ∨ c = quote) := by
    rintro (rfl | rfl)
    · exact hhidden (by decide)
    · rcases hq with rfl | rfl <;> exact hhidden (by decide)
  rw [Bool.not_eq_false] at hhidden
  rw [escaped, if_neg h0, if_neg ht, if_neg hr, if_neg hn, if_neg hplain, if_pos hhidden]
  rfl

/-- **What stands between quotes for a character:** a short escape, its number, or itself. -/
theorem escaped_forms {quote : Char} (hq : IsQuote quote) (c : Char) :
    (∃ e, escaped quote c = ['\\', e] ∧ e ≠ 'u' ∧ shortEscape? e = some c) ∨
      escaped quote c = '\\' :: 'u' :: '\x7b' :: (hexDigits c.toNat ++ ['\x7d']) ∨
      escaped quote c = [c] ∧ c ≠ '\\' ∧ c ≠ quote := by
  by_cases hc : Legible c
  · rcases escaped_cases hq hc with ⟨e, he, -, -, hs⟩ | ⟨he, hquote, hb⟩
    · refine .inl ⟨e, he, ?_, hs⟩
      rintro rfl
      cases hs
    · exact .inr (.inr ⟨he, hb, hquote⟩)
  · exact .inr (.inl (escaped_hidden hq hc))

/-- No character is written with a quote at its start. -/
theorem escaped_ne_quote {quote : Char} (hq : IsQuote quote) (c : Char) (cs ds : List Char) :
    escaped quote c ++ cs ≠ quote :: ds := by
  have hb : '\\' ≠ quote := by rcases hq with rfl | rfl <;> decide
  intro heq
  rcases escaped_forms hq c with ⟨e, he, -⟩ | he | ⟨he, -, hquote⟩ <;> rw [he] at heq
  · exact hb (List.cons.inj heq).1
  · exact hb (List.cons.inj heq).1
  · exact hquote (List.cons.inj heq).1

/-- A brace is no digit. -/
theorem hexDigits_ne_brace (n : Nat) : ∀ c ∈ hexDigits n, (c != '\x7d') = true :=
  forall_mem_toDigits (by decide) (P := fun c => (c != '\x7d') = true) (by decide) n

/-- **Escapes end by themselves.** -/
theorem escaped_cut {quote : Char} (hq : IsQuote quote) {c d : Char}
    (h : escaped quote c ++ rest = escaped quote d ++ rest') : c = d ∧ rest = rest' := by
  rcases escaped_forms hq c with ⟨e, he, hu, hs⟩ | he | ⟨he, hb, -⟩ <;>
    rcases escaped_forms hq d with ⟨e', he', hu', hs'⟩ | he' | ⟨he', hb', -⟩ <;>
    rw [he, he'] at h
  · obtain ⟨rfl, hrests⟩ := List.cons.inj (List.cons.inj h).2
    exact ⟨Option.some.inj (hs.symm.trans hs'), hrests⟩
  · exact absurd (List.cons.inj (List.cons.inj h).2).1 hu
  · exact absurd (List.cons.inj h).1.symm hb'
  · exact absurd (List.cons.inj (List.cons.inj h).2).1.symm hu'
  · have hdigits : hexDigits c.toNat ++ '\x7d' :: rest = hexDigits d.toNat ++ '\x7d' :: rest' := by
      simpa using h
    have hend (cs : List Char) : EndsRun (· != '\x7d') ('\x7d' :: cs) := by
      rintro _ ⟨⟩
      rfl
    obtain ⟨hnumbers, hrests⟩ := (hend rest).cut (hend rest') (hexDigits_ne_brace _)
      (hexDigits_ne_brace _) hdigits
    exact ⟨Char.toNat_inj.mp (toDigits_injective (by decide) (by decide) hnumbers),
      (List.cons.inj hrests).2⟩
  · exact absurd (List.cons.inj h).1.symm hb'
  · exact absurd (List.cons.inj h).1 hb
  · exact absurd (List.cons.inj h).1 hb
  · exact List.cons.inj h

/-- What stands between quotes ends at the quote. -/
theorem body_cut {quote : Char} (hq : IsQuote quote) {cs ds : List Char}
    (h : cs.flatMap (escaped quote) ++ quote :: rest =
      ds.flatMap (escaped quote) ++ quote :: rest') : cs = ds ∧ rest = rest' := by
  induction cs generalizing ds with
  | nil =>
    cases ds with
    | nil => exact ⟨rfl, (List.cons.inj h).2⟩
    | cons d ds =>
      rw [List.flatMap_cons, List.append_assoc] at h
      exact absurd h.symm (escaped_ne_quote hq d _ _)
  | cons c cs ih =>
    rw [List.flatMap_cons, List.append_assoc] at h
    cases ds with
    | nil => exact absurd h (escaped_ne_quote hq c _ _)
    | cons d ds =>
      rw [List.flatMap_cons, List.append_assoc] at h
      obtain ⟨rfl, htail⟩ := escaped_cut hq h
      obtain ⟨rfl, hrests⟩ := ih htail
      exact ⟨rfl, hrests⟩

/-- **Texts in quotes,** whatever is in them. -/
theorem quoted {quote : Char} (hq : IsQuote quote) :
    Delimited (fun _ : List Char => True) (quotedWith quote) where
  start _ := ⟨quote, _, rfl, by rcases hq with rfl | rfl <;> decide⟩
  cut {cs ds rest rest'} _ _ _ _ h := by
    simp only [quotedWith, List.cons_append, List.append_assoc, List.nil_append, List.cons.injEq,
      true_and] at h
    exact body_cut hq h

/-! ## 4. Pairs and lists -/

/-- **Two texts with a colon between them.** -/
theorem pair (h : Delimited S write) (h' : Delimited T write') :
    Delimited (fun e : α × β => S e.1 ∧ T e.2)
      fun e => write e.1 ++ ':' :: ' ' :: write' e.2 where
  start {e} he := by
    obtain ⟨c, cs, hw, hc⟩ := h.start he.1
    exact ⟨c, _, by rw [hw]; rfl, hc⟩
  cut {e f rest rest'} he hf hrest hrest' heq := by
    have hcolon (cs : List Char) : EndsRun isDigit (':' :: cs) := by
      rintro _ ⟨⟩
      rfl
    rw [List.append_assoc, List.append_assoc] at heq
    obtain ⟨hfirst, htail⟩ := h.cut he.1 hf.1 (hcolon _) (hcolon _) heq
    obtain ⟨hsecond, hrests⟩ := h'.cut he.2 hf.2 hrest hrest'
      (List.cons.inj (List.cons.inj htail).2).2
    exact ⟨Prod.ext hfirst hsecond, hrests⟩

/-- The items behind the first one, each behind a comma, and the end of the list. -/
def behind (write : α → List Char) (close : Char) : List α → List Char
  | [] => [close]
  | x :: xs => ',' :: ' ' :: (write x ++ behind write close xs)

/-- The items, with commas between them, and the end of the list. -/
def listed (write : α → List Char) (close : Char) : List α → List Char
  | [] => [close]
  | x :: xs => write x ++ behind write close xs

/-- Texts with commas between them, up to the end of the list. -/
theorem intercalate_close (write : α → String) (close : Char) (xs : List α) :
    (", ".intercalate (xs.map write)).toList ++ [close] =
      listed (fun x => (write x).toList) close xs := by
  cases xs with
  | nil => rfl
  | cons x xs =>
    induction xs generalizing x with
    | nil => rw [List.map_singleton, String.intercalate_singleton]; rfl
    | cons y ys ih =>
      rw [List.map_cons, List.map_cons, String.intercalate_cons_cons, String.toList_append,
        String.toList_append, List.append_assoc, List.append_assoc, ← List.map_cons, ih y]
      rfl

section Lists

variable {close : Char} (hclose : isClosing close = true)
include hclose

/-- What is behind an item is no digit. -/
theorem endsRun_behind (xs : List α) (rest : List Char) :
    EndsRun isDigit (behind write close xs ++ rest) := by
  cases xs with
  | nil =>
    rintro _ ⟨⟩
    exact isDigit_of_isClosing hclose
  | cons =>
    rintro _ ⟨⟩
    decide

/-- A comma is not the end of a list. -/
theorem comma_ne (cs ds : List Char) : ',' :: cs ≠ close :: ds := by
  intro heq
  obtain rfl := (List.cons.inj heq).1
  revert hclose
  decide

/-- **The items behind the first one** end at the end of the list. -/
theorem behind_cut (h : Delimited S write) {xs ys : List α} (hxs : ∀ x ∈ xs, S x)
    (hys : ∀ y ∈ ys, S y) (heq : behind write close xs ++ rest = behind write close ys ++ rest') :
    xs = ys ∧ rest = rest' := by
  induction xs generalizing ys with
  | nil =>
    cases ys with
    | nil => exact ⟨rfl, (List.cons.inj heq).2⟩
    | cons y ys => exact absurd heq.symm (comma_ne hclose _ _)
  | cons x xs ih =>
    cases ys with
    | nil => exact absurd heq (comma_ne hclose _ _)
    | cons y ys =>
      obtain ⟨hx, hothers⟩ := List.forall_mem_cons.mp hxs
      obtain ⟨hy, hothers'⟩ := List.forall_mem_cons.mp hys
      simp only [behind, List.cons_append, List.append_assoc, List.cons.injEq, true_and] at heq
      obtain ⟨rfl, htail⟩ := h.cut hx hy (endsRun_behind hclose _ _) (endsRun_behind hclose _ _)
        heq
      obtain ⟨rfl, hrests⟩ := ih hothers hothers' htail
      exact ⟨rfl, hrests⟩

/-- **Lists in brackets.** -/
theorem bracketed (h : Delimited S write) {first : Char} (hfirst : isClosing first = false) :
    Delimited (fun xs => ∀ x ∈ xs, S x) fun xs => first :: listed write close xs where
  start _ := ⟨first, _, rfl, hfirst⟩
  cut {xs ys rest rest'} hxs hys _ _ heq := by
    rw [List.cons_append, List.cons_append] at heq
    have hitems := (List.cons.inj heq).2
    cases xs with
    | nil =>
      cases ys with
      | nil => exact ⟨rfl, (List.cons.inj hitems).2⟩
      | cons y ys =>
        rw [listed, listed, List.append_assoc] at hitems
        exact absurd hitems.symm (h.ne_close (hys y List.mem_cons_self) hclose _ _)
    | cons x xs =>
      obtain ⟨hx, hothers⟩ := List.forall_mem_cons.mp hxs
      cases ys with
      | nil =>
        rw [listed, listed, List.append_assoc] at hitems
        exact absurd hitems (h.ne_close hx hclose _ _)
      | cons y ys =>
        obtain ⟨hy, hothers'⟩ := List.forall_mem_cons.mp hys
        rw [listed, listed, List.append_assoc, List.append_assoc] at hitems
        obtain ⟨rfl, htail⟩ := h.cut hx hy (endsRun_behind hclose _ _)
          (endsRun_behind hclose _ _) hitems
        obtain ⟨rfl, hrests⟩ := behind_cut hclose h hothers hothers' htail
        exact ⟨rfl, hrests⟩

end Lists

end Delimited

end Stackling.Text
