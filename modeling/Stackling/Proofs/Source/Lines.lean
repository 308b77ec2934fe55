import Mathlib.Data.List.DropRight
import Stackling.Proofs.Token.Written
import Stackling.Source.Line

/-
  File:     Stackling/Proofs/Source/Lines.lean
  Subject:  The line that holds a place in a text.

  A place cuts a text in two. Its line is what stands behind the last newline of the part before
  it, with the first line of the part after it.

  * `openLine`     -- the last line of a text, which no newline ends;
  * `firstLine`    -- the first line of a text, with the newline that ends it;
  * `lines_induct` -- induction on the lines of a text;
  * `lineAt_cut`   -- the line found at a place is the line that holds it.

  The end of a text whose last line has no newline is left out: there `lineAt` finds an empty
  line below the last one.
-/
namespace Stackling

variable {c : Char} {l cs before after : List Char}

/-! ## 1. Parts of lines -/

/-- What stands behind the last newline of a text, or all of it if there is no newline. -/
def openLine (cs : List Char) : List Char := cs.rtakeWhile (· != '\n')

/-- The first line of a text, with its newline if there is one. -/
def firstLine (cs : List Char) : List Char :=
  cs.takeWhile (· != '\n') ++ (cs.dropWhile (· != '\n')).take 1

/-- The characters of a line are no newlines. -/
theorem ne_newline (h : '\n' ∉ l) : ∀ c ∈ l, (c != '\n') = true := fun _ hc =>
  bne_iff_ne.mpr fun heq => h (heq ▸ hc)

/-- Before a newline, a line ends. -/
theorem endsRun_newline (cs : List Char) : EndsRun (· != '\n') ('\n' :: cs) := fun c hc => by
  obtain rfl := Option.some.inj hc
  rfl

theorem not_mem_openLine (cs : List Char) : '\n' ∉ openLine cs := fun h =>
  absurd (List.mem_rtakeWhile_imp h) (by decide)

theorem openLine_eq_self (h : '\n' ∉ l) : openLine l = l :=
  List.rtakeWhile_eq_self_iff.mpr (ne_newline h)

/-- A run of characters ends before one that does not belong to it, whatever follows. -/
theorem takeWhile_stop {test : Char → Bool} (hc : test c = false) (ds : List Char) :
    (cs ++ c :: ds).takeWhile test = cs.takeWhile test := by
  have hstop : (c :: ds).takeWhile test = [] := List.takeWhile_cons_of_neg (by simp [hc])
  rw [List.takeWhile_append, hstop, List.append_nil]
  split
  · rename_i hall
    exact ((List.takeWhile_prefix test).eq_of_length hall).symm
  · rfl

/-- **What stands above the last newline** is not on the last line. -/
theorem openLine_append (l cs : List Char) : openLine (l ++ '\n' :: cs) = openLine cs := by
  have hreverse : (l ++ '\n' :: cs).reverse = cs.reverse ++ '\n' :: l.reverse := by simp
  rw [openLine, openLine, List.rtakeWhile, List.rtakeWhile, hreverse,
    takeWhile_stop (by decide)]

theorem firstLine_eq_self (h : '\n' ∉ l) : firstLine l = l := by
  have hends : EndsRun (· != '\n') [] := nofun
  obtain ⟨htake, hdrop⟩ := hends.run (ne_newline h)
  rw [List.append_nil] at htake hdrop
  rw [firstLine, htake, hdrop]
  exact List.append_nil l

theorem firstLine_append (h : '\n' ∉ l) (cs : List Char) :
    firstLine (l ++ '\n' :: cs) = l ++ ['\n'] := by
  obtain ⟨htake, hdrop⟩ := (endsRun_newline cs).run (ne_newline h)
  rw [firstLine, htake, hdrop]
  rfl

/-- A line goes on with a character that is no newline. -/
theorem firstLine_cons (hc : c ≠ '\n') (cs : List Char) :
    firstLine (c :: cs) = c :: firstLine cs := by
  have htest : (c != '\n') = true := bne_iff_ne.mpr hc
  rw [firstLine, List.takeWhile_cons_of_pos (p := (· != '\n')) htest,
    List.dropWhile_cons_of_pos (p := (· != '\n')) htest]
  rfl

/-- A line is characters that are no newlines, and its newline if it has one. -/
theorem firstLine_cases (cs : List Char) :
    ∃ l tail, firstLine cs = l ++ tail ∧ '\n' ∉ l ∧ (tail = [] ∨ tail = ['\n']) := by
  by_cases h : '\n' ∈ cs
  · obtain ⟨l, rest, rfl, hl⟩ := List.eq_append_cons_of_mem h
    exact ⟨l, ['\n'], firstLine_append hl rest, hl, .inr rfl⟩
  · exact ⟨cs, [], (firstLine_eq_self h).trans (List.append_nil cs).symm, h, .inl rfl⟩

theorem newlines_eq_zero (h : '\n' ∉ l) : newlines l = 0 := by
  induction l with
  | nil => rfl
  | cons c l ih =>
    obtain ⟨hc, hl⟩ := not_or.mp (List.mem_cons.not.mp h)
    rw [newlines, if_neg (Ne.symm hc), ih hl]

/-! ## 2. Texts line by line -/

/-- **Induction on the lines of a text:** no newline is in it, or a line with its newline stands
    before the rest. -/
@[elab_as_elim]
theorem lines_induct {motive : List Char → Prop} (last : ∀ l, '\n' ∉ l → motive l)
    (line : ∀ l cs, '\n' ∉ l → motive cs → motive (l ++ '\n' :: cs)) (cs : List Char) :
    motive cs := by
  induction hn : cs.length using Nat.strongRecOn generalizing cs with
  | ind n ih =>
    by_cases h : '\n' ∈ cs
    · obtain ⟨l, rest, rfl, hl⟩ := List.eq_append_cons_of_mem h
      exact line l rest hl (ih _ (by simp at hn; omega) rest rfl)
    · exact last cs h

/-- The lines of a text behind its first one. -/
theorem splitLines_line (h : '\n' ∉ l) (cs : List Char) :
    splitLines (l ++ '\n' :: cs) = (l ++ ['\n']) :: splitLines cs := by
  induction l with
  | nil => rfl
  | cons c l ih =>
    obtain ⟨hc, hl⟩ := not_or.mp (List.mem_cons.not.mp h)
    rw [List.cons_append, splitLines, if_neg (Ne.symm hc), ih hl]
    rfl

/-- A text without a newline is one line. -/
theorem splitLines_last (h : '\n' ∉ l) (hne : l ≠ []) : splitLines l = [l] := by
  induction l with
  | nil => exact absurd rfl hne
  | cons c l ih =>
    obtain ⟨hc, hl⟩ := not_or.mp (List.mem_cons.not.mp h)
    rw [splitLines, if_neg (Ne.symm hc)]
    by_cases hnil : l = []
    · rw [hnil]
      rfl
    · rw [ih hl hnil]

/-! ## 3. The line at a place -/

/-- A place on the first of some lines. -/
theorem locate_here {n column : Nat} (h : column < byteLength l) (ls : List (List Char)) :
    locate n column (l :: ls) = ⟨n, l, column⟩ := if_pos h

/-- A place below the first of some lines. -/
theorem locate_below (n column : Nat) (l : List Char) (ls : List (List Char)) :
    locate n (byteLength l + column) (l :: ls) = locate (n + 1) column ls := by
  rw [locate, if_neg (by omega), Nat.add_sub_cancel_left]

/-- What stands before a place takes less than the text, if anything follows. -/
theorem byteLength_lt (hne : after ≠ []) (before : List Char) :
    byteLength before < byteLength (before ++ after) := by
  have hpos := List.length_pos_iff.mpr hne
  have hle := length_le_byteLength after
  rw [byteLength_append]
  omega

/-- **A place on the first line of a text.** -/
theorem locate_first (hbefore : '\n' ∉ before) (hend : after = [] → before = []) (n : Nat) :
    locate n (byteLength before) (splitLines (before ++ after)) =
      ⟨n, before ++ firstLine after, byteLength before⟩ := by
  by_cases hne : after = []
  · rw [hend hne, hne]
    rfl
  by_cases h : '\n' ∈ after
  · obtain ⟨l, cs, rfl, hl⟩ := List.eq_append_cons_of_mem h
    have hline : '\n' ∉ before ++ l := fun h => (List.mem_append.mp h).elim hbefore hl
    rw [← List.append_assoc, splitLines_line hline, firstLine_append hl, List.append_assoc,
      locate_here (byteLength_lt (by simp) before)]
  · have hline : '\n' ∉ before ++ after := fun hmem => (List.mem_append.mp hmem).elim hbefore h
    rw [splitLines_last hline (by simp [hne]), firstLine_eq_self h,
      locate_here (byteLength_lt hne before)]

/-- **The line that a place is found on** has a number that counts the newlines before the place,
    and holds what stands around it. -/
theorem locate_cut (hend : after = [] → openLine before = []) (n : Nat) :
    locate n (byteLength before) (splitLines (before ++ after)) =
      ⟨n + newlines before, openLine before ++ firstLine after, byteLength (openLine before)⟩ := by
  -- the lines before the place are passed one after the other
  induction before using lines_induct generalizing n with
  | last l hl =>
    rw [openLine_eq_self hl] at hend
    rw [openLine_eq_self hl, newlines_eq_zero hl, locate_first hl hend]
    rfl
  | line l cs hl ih =>
    rw [openLine_append] at hend
    have hbytes : byteLength (l ++ '\n' :: cs) = byteLength (l ++ ['\n']) + byteLength cs := by
      rw [← byteLength_append, List.append_assoc, List.singleton_append]
    have hnewlines : newlines (l ++ '\n' :: cs) = 1 + newlines cs := by
      rw [newlines_append, newlines_eq_zero hl, newlines, if_pos rfl, Nat.zero_add]
    rw [List.append_assoc, List.cons_append, splitLines_line hl, hbytes, locate_below,
      ih hend, openLine_append, hnewlines, Nat.add_assoc]

/-- **The line at a place** is the one that holds it. -/
theorem lineAt_cut (hend : after = [] → openLine before = []) :
    lineAt (before ++ after) (byteLength before) = some ⟨1 + newlines before,
      openLine before ++ firstLine after, byteLength (openLine before)⟩ := by
  have hle : ¬ byteLength (before ++ after) < byteLength before := by
    rw [byteLength_append]
    omega
  rw [lineAt, if_neg hle, locate_cut hend]

end Stackling
