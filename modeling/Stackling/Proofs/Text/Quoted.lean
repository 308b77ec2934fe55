import Stackling.Proofs.Token.Written
import Stackling.Text.Quoted

/-
  File:     Stackling/Proofs/Text/Quoted.lean
  Subject:  Quoted text is read back.

  What stands between quotes is a literal of the language, as long as no character has to be
  written by its number: such an escape is none of the language.

  * `Legible`            -- the characters that stand between quotes raw or with a short escape;
  * `quotedBody_escaped` -- they may stand between the quotes of a literal;
  * `unescape_escaped`   -- the literal stands for them.
-/
namespace Stackling.Text

/-- A character that is quoted without its number: it is not hidden, or has a short escape. -/
def Legible (c : Char) : Prop := c ∈ ['\x00', '\t', '\r', '\n'] ∨ isHidden c = false

variable {quote : Char}

/-- **A legible character between quotes** is a short escape, or stands for itself. -/
theorem escaped_cases (hq : IsQuote quote) {c : Char} (hc : Legible c) :
    (∃ d, escaped quote c = ['\\', d] ∧ d ≠ 'x' ∧ d ≠ '\n' ∧ shortEscape? d = some c) ∨
      escaped quote c = [c] ∧ c ≠ quote ∧ c ≠ '\\' := by
  unfold escaped
  by_cases h0 : c = '\x00'
  · subst h0
    exact .inl ⟨'0', rfl, by decide, by decide, rfl⟩
  by_cases ht : c = '\t'
  · subst ht
    exact .inl ⟨'t', rfl, by decide, by decide, rfl⟩
  by_cases hr : c = '\r'
  · subst hr
    exact .inl ⟨'r', rfl, by decide, by decide, rfl⟩
  by_cases hn : c = '\n'
  · subst hn
    exact .inl ⟨'n', rfl, by decide, by decide, rfl⟩
  rw [if_neg h0, if_neg ht, if_neg hr, if_neg hn]
  by_cases hb : c = '\\' ∨ c = quote
  · rw [if_pos hb]
    refine .inl ⟨c, rfl, ?_⟩
    rcases hb with rfl | rfl
    · decide
    · rcases hq with rfl | rfl <;> decide
  · have hshown : isHidden c = false := by
      rcases hc with hc | hc
      · simp [h0, ht, hr, hn] at hc
      · exact hc
    rw [if_neg hb, hshown]
    exact .inr ⟨rfl, (not_or.mp hb).2, (not_or.mp hb).1⟩

/-- **Legible text may stand between quotes.** -/
theorem quotedBody_escaped (hq : IsQuote quote) {cs : List Char} (hcs : ∀ c ∈ cs, Legible c) :
    QuotedBody quote (cs.flatMap (escaped quote)) := by
  induction cs with
  | nil => exact .nil
  | cons c cs ih =>
    obtain ⟨hc, hcs⟩ := List.forall_mem_cons.mp hcs
    rw [List.flatMap_cons]
    rcases escaped_cases hq hc with ⟨d, he, -, hn, -⟩ | ⟨he, hquote, hb⟩
    · rw [he]
      exact .escape hn (ih hcs)
    · rw [he]
      exact .plain hquote hb (ih hcs)

/-- **What stands between the quotes is the text.** -/
theorem unescape_escaped (hq : IsQuote quote) {cs : List Char} (hcs : ∀ c ∈ cs, Legible c) :
    unescape (cs.flatMap (escaped quote)) = cs := by
  induction cs with
  | nil => rfl
  | cons c cs ih =>
    obtain ⟨hc, hcs⟩ := List.forall_mem_cons.mp hcs
    rw [List.flatMap_cons]
    rcases escaped_cases hq hc with ⟨d, he, hx, -, hd⟩ | ⟨he, -, hb⟩
    · rw [he]
      show unescape ('\\' :: d :: cs.flatMap (escaped quote)) = c :: cs
      rw [unescape_short hx hd, ih hcs]
    · rw [he]
      show unescape (c :: cs.flatMap (escaped quote)) = c :: cs
      rw [unescape_plain hb, ih hcs]

end Stackling.Text
