import Stackling.Proofs.Source.Lines
import Stackling.Proofs.Syntax.Places
import Stackling.Proofs.Text.Decimal
import Stackling.Syntax.Report

/-
  File:     Stackling/Proofs/Syntax/Reports.lean
  Subject:  What the report of an error shows of its text.

  An error stands where a word starts, or at the end of the text. So its character is neither in
  the indentation of its line nor in the blanks at the end of it, and is on the quoted line. The
  column of a place counts bytes and the padding before a caret counts characters: the caret is
  under the character if all of the line before it is written in one byte a character.

  * `readText_error_word` -- an error stands where a word starts;
  * `Shows`               -- the last two lines of a report;
  * `line_shown`          -- a report quotes the line of its place under the right number;
  * `Pointer`             -- the quoted line and the caret below it, cut at the place;
  * `caret_shown`         -- when the caret is under the character.
-/
namespace Stackling

open Text

variable {source : String} {p q : Position} {tokens : List Token} {c : Char}
  {cs before after : List Char}

/-! ## 1. Where errors stand -/

/-- **Where a word starts:** the place `q` in a text that starts at `p` has no blank behind it. The
    end of the text is such a place. -/
def WordAt (p : Position) (cs : List Char) (q : Position) : Prop :=
  ∃ before after, cs = before ++ after ∧ q = p.pastAll before ∧ EndsRun isBlank after

namespace WordAt

theorem here (h : EndsRun isBlank cs) : WordAt p cs p := ⟨[], cs, rfl, rfl, h⟩

theorem behind (part : List Char) (h : WordAt (p.pastAll part) cs q) :
    WordAt p (part ++ cs) q := by
  obtain ⟨before, after, rfl, rfl, hends⟩ := h
  refine ⟨part ++ before, after, (List.append_assoc ..).symm, ?_, hends⟩
  exact (Position.pastAll_append ..).symm

end WordAt

/-- **Every token starts where a word does.** -/
theorem readFrom_word (h : readFrom p cs = .ok tokens) :
    ∀ t ∈ tokens, WordAt p cs t.span.start := by
  induction cs using words_induct generalizing p tokens with
  | nil =>
    cases h
    exact List.forall_mem_singleton.mpr (.here nofun)
  | blank c cs hblank ih =>
    rw [readFrom_blank hblank] at h
    exact fun t ht => (ih h t ht).behind [c]
  | token c run rest kind value hblank hscan ih =>
    obtain ⟨tail, hrest, rfl⟩ := readFrom_token_ok hscan h
    refine List.forall_mem_cons.mpr ⟨.here fun d hd => ?_, fun t ht => ?_⟩
    · obtain rfl := Option.some.inj hd
      exact hblank
    · exact (ih hrest t ht).behind (c :: run)
  | comment c run rest _ hscan ih =>
    rw [readFrom_skip hscan] at h
    exact fun t ht => (ih h t ht).behind (c :: run)
  | fault c cs cause hscan =>
    rw [readFrom_fault hscan] at h
    cases h

/-- No blank is faulty. -/
theorem Faulty.endsRun {cause : SyntaxCause} (h : Faulty cs cause) : EndsRun isBlank cs := by
  intro d hd
  cases h with
  | @unrecognised c cs hno =>
    obtain rfl := Option.some.inj hd
    refine Bool.eq_false_iff.mpr fun hblank => ?_
    exact (hno [c] cs rfl).2 (.blank (List.forall_mem_singleton.mpr hblank))
  | badCharacter =>
    obtain rfl := Option.some.inj hd
    rfl

/-- **An error stands where a word starts.** -/
theorem readText_error_word {e : SyntaxError} (h : readText source = .error e) :
    WordAt .origin source.toList e.place := by
  rw [readText] at h
  cases htext : tokenize source with
  | error e' =>
    rw [htext] at h
    cases h
    obtain ⟨before, after, hcut, hplace, -, hfault⟩ := readFrom_stops htext
    exact ⟨before, after, hcut, hplace, hfault.endsRun⟩
  | ok tokens =>
    rw [htext] at h
    obtain ⟨a, ha, hplace⟩ := parse_error_place h
    have hmem := mem_of_mem_upToEnd ha
    rw [closed_tokenize htext] at hmem
    rw [hplace]
    exact readFrom_word htext a hmem

/-! ## 2. Quoted lines -/

/-- A blank or a tab. -/
def isIndent (c : Char) : Bool := c == ' ' || c == '\t'

theorem indent_or_tab (h : c ∈ cs.takeWhile isIndent) : c = ' ' ∨ c = '\t' := by
  simpa [isIndent] using List.mem_takeWhile_imp h

theorem isBlank_of_isIndent (h : isIndent c = true) : isBlank c = true := by
  simp only [isIndent, Bool.or_eq_true, beq_iff_eq] at h
  rcases h with rfl | rfl <;> rfl

theorem indentation_eq (cs : List Char) : indentation cs = (cs.takeWhile isIndent).length := rfl

/-- **A line without its indentation.** -/
theorem drop_indentation (cs ds : List Char) :
    (cs ++ ds).drop (indentation cs) = cs.dropWhile isIndent ++ ds := by
  have hcut : cs ++ ds = cs.takeWhile isIndent ++ (cs.dropWhile isIndent ++ ds) := by
    rw [← List.append_assoc, List.takeWhile_append_dropWhile]
  rw [hcut, indentation_eq, List.drop_left]

/-- Blanks behind a text are cut off. -/
theorem dropBlankEnd_append_blank {ds : List Char} (h : ∀ d ∈ ds, isBlank d = true) :
    dropBlankEnd (cs ++ ds) = dropBlankEnd cs := by
  have hds : ∀ d ∈ ds.reverse, isBlank d = true := fun d hd => h d (List.mem_reverse.mp hd)
  rw [dropBlankEnd, List.reverse_append, List.dropWhile_append_of_pos hds]
  rfl

/-- A character that is no blank is not cut off, nor is what stands before it. -/
theorem dropBlankEnd_append_cons (hc : isBlank c = false) (cs ds : List Char) :
    dropBlankEnd (cs ++ c :: ds) = cs ++ c :: dropBlankEnd ds := by
  have hstop : (c :: cs.reverse).dropWhile isBlank = c :: cs.reverse :=
    List.dropWhile_cons_of_neg (by simp [hc])
  have hreverse : (cs ++ c :: ds).reverse = ds.reverse ++ c :: cs.reverse := by simp
  rw [dropBlankEnd, dropBlankEnd, hreverse, List.dropWhile_append, hstop]
  split
  · rename_i hall
    rw [List.isEmpty_iff.mp hall]
    simp
  · simp

theorem mem_of_mem_dropBlankEnd (h : c ∈ dropBlankEnd cs) : c ∈ cs :=
  (List.rdropWhile_prefix isBlank cs).mem h

namespace Line

/-- What is shown of a line: no indentation, and no blanks at its end. -/
def shown (l : Line) : List Char := dropBlankEnd (l.text.drop (indentation l.text))

/-- The line of a report that shows a line of the text. -/
def quoted (l : Line) : String := toString l.number ++ " | " ++ String.ofList l.shown

/-- What stands before the caret. -/
def pad (l : Line) : List Char :=
  List.replicate ((toString l.number).length + 1) ' ' ++ '|' :: ' ' ::
    List.replicate (l.column - indentation l.text) '-'

theorem render_eq (l : Line) : ∃ gutter,
    l.render = gutter ++ "\n" ++ l.quoted ++ "\n" ++ (String.ofList l.pad ++ "^") ++ "\n" := by
  have hbar : "|".length = 1 := rfl
  refine ⟨padLeft ' ' ((toString l.number).length + 2) "|", ?_⟩
  rw [← String.toList_inj]
  simp [render, quoted, pad, shown, padLeft, caret, hbar]

/-- No character before the caret is one, nor a newline. -/
theorem mem_pad {l : Line} (h : c ∈ l.pad) : c = ' ' ∨ c = '|' ∨ c = '-' := by
  simp only [pad, List.mem_append, List.mem_cons, List.mem_replicate] at h
  rcases h with ⟨-, h⟩ | h | h | ⟨-, h⟩
  · exact .inl h
  · exact .inr (.inl h)
  · exact .inl h
  · exact .inr (.inr h)

theorem length_pad (l : Line) : l.pad.length =
    (toString l.number ++ " | ").length + (l.column - indentation l.text) := by
  have hbar : " | ".length = 3 := rfl
  rw [pad, List.length_append, List.length_cons, List.length_cons, List.length_replicate,
    List.length_replicate, String.length_append, hbar]
  omega

/-- A line is shown without newlines. -/
theorem not_mem_shown {l : Line} (h : l.text = openLine before ++ firstLine after) :
    '\n' ∉ l.shown := by
  obtain ⟨line, tail, hfirst, hline, htail⟩ := firstLine_cases after
  have hopen : '\n' ∉ openLine before ++ line := fun hmem =>
    (List.mem_append.mp hmem).elim (not_mem_openLine before) hline
  have hblank : ∀ n, ∀ d ∈ tail.drop n, isBlank d = true := by
    intro n d hd
    rcases htail with rfl | rfl
    · cases List.mem_of_mem_drop hd
    · rw [List.mem_singleton.mp (List.mem_of_mem_drop hd)]
      rfl
  intro hmem
  rw [shown, h, hfirst, ← List.append_assoc, List.drop_append,
    dropBlankEnd_append_blank (hblank _)] at hmem
  exact hopen (List.mem_of_mem_drop (mem_of_mem_dropBlankEnd hmem))

end Line

/-! ## 3. What a report shows -/

/-- **The last two lines of a report:** one that quotes a line of the text, and one with a caret. -/
structure Shows (report quoted pointer : String) : Prop where
  ends : ∃ head, report = head ++ "\n" ++ quoted ++ "\n" ++ pointer ++ "\n"
  quoted : '\n' ∉ quoted.toList
  pointer : '\n' ∉ pointer.toList

/-- A number is written without newlines. -/
theorem not_mem_number (n : Nat) : '\n' ∉ (toString n).toList := by
  intro h
  have hdigit := isDigit_of_mem_toDigits (Nat.toList_repr ▸ h : '\n' ∈ Nat.toDigits 10 n)
  cases hdigit

/-- The quoted line stands at the end of a report. -/
theorem SyntaxError.render_eq {e : SyntaxError} {l : Line} (file : String)
    (hplace : lineAt source.toList e.place.offset = some l) :
    ∃ head, e.render file source = head ++ "\n" ++ l.render := by
  simp only [render, hplace]
  exact ⟨_, rfl⟩

/-- **A report shows the line of its place,** and a caret below it. -/
theorem SyntaxError.render_shows {e : SyntaxError} {l : Line} (file : String)
    (hplace : lineAt source.toList e.place.offset = some l) (hline : '\n' ∉ l.shown) :
    Shows (e.render file source) l.quoted (String.ofList l.pad ++ "^") := by
  obtain ⟨head, hreport⟩ := e.render_eq file hplace
  obtain ⟨gutter, hrender⟩ := l.render_eq
  refine ⟨⟨head ++ "\n" ++ gutter, ?_⟩, ?_, ?_⟩
  · rw [hreport, hrender]
    simp only [String.append_assoc]
  · have hnumber := not_mem_number l.number
    rw [Line.quoted, String.toList_append, String.toList_append, String.toList_ofList (l := l.shown)]
    simp only [List.mem_append, not_or]
    exact ⟨⟨hnumber, by decide⟩, hline⟩
  · have hpad : '\n' ∉ l.pad := fun h => by
      rcases Line.mem_pad h with h | h | h <;> cases h
    simp [hpad]

/-- The line at the place of an error that is not at the end of an open line. -/
theorem readText_error_line {e : SyntaxError} (h : readText source = .error e)
    (hend : e.place.offset = byteLength source.toList → openLine source.toList = []) :
    ∃ before after, source.toList = before ++ after ∧ e.place.offset = byteLength before ∧
      EndsRun isBlank after ∧ lineAt source.toList e.place.offset = some ⟨e.place.line,
        openLine before ++ firstLine after, byteLength (openLine before)⟩ := by
  obtain ⟨before, after, hcut, hplace, hword⟩ := readText_error_word h
  have hoffset : e.place.offset = byteLength before := by
    rw [hplace, Position.pastAll_offset]
    exact Nat.zero_add _
  have hnumber : e.place.line = 1 + newlines before := by
    rw [hplace]
    exact Position.pastAll_line .origin before
  have hopen : after = [] → openLine before = [] := by
    rintro rfl
    rw [List.append_nil] at hcut
    rw [hcut] at hend
    exact hend hoffset
  refine ⟨before, after, hcut, hoffset, hword, ?_⟩
  rw [hcut, hoffset, hnumber, lineAt_cut hopen]

/-- **The line at a place is found, and a report shows its number.** Past the end of a text there
    is no line. Anywhere else its number counts the newlines before the place, and its text is what
    stands around the place up to the newlines, the second of them included; a report quotes it
    under the line number of its error. The end of a text whose last line has no newline is left
    out. -/
theorem line_shown (file source : String) :
    (∀ offset, lineAt source.toList offset = none ↔ byteLength source.toList < offset) ∧
    (∀ before after, source.toList = before ++ after → (after = [] → openLine before = []) →
      lineAt source.toList (byteLength before) = some ⟨1 + newlines before,
        openLine before ++ firstLine after, byteLength (openLine before)⟩) ∧
    ∀ e, readText source = .error e →
      (e.place.offset = byteLength source.toList → openLine source.toList = []) →
      ∃ shown pointer, Shows (e.render file source)
        (toString e.place.line ++ " | " ++ shown) pointer := by
  refine ⟨lineAt_eq_none_iff source.toList, fun before after hcut hend => ?_, fun e h hend => ?_⟩
  · rw [hcut]
    exact lineAt_cut hend
  · obtain ⟨before, after, -, -, -, hline⟩ := readText_error_line h hend
    have hshows := e.render_shows file hline (Line.not_mem_shown rfl)
    rw [Line.quoted] at hshows
    exact ⟨_, _, hshows⟩

/-- A bracket on the second line is found there, and reported under it. -/
theorem line_shown_second :
    lineAt "\n)".toList 1 = some ⟨2, [')'], 0⟩ ∧ ∃ e, readText "\n)" = .error e ∧
      ∃ shown pointer, Shows (e.render "main" "\n)") (toString 2 ++ " | " ++ shown) pointer := by
  obtain ⟨-, hline, hshows⟩ := line_shown "main" "\n)"
  exact ⟨hline ['\n'] [')'] rfl nofun, _, rfl, hshows _ rfl (by decide)⟩

/-- At the end of an open line a second line is found, and the report of an error on the first
    line quotes it. -/
theorem line_shown_open :
    lineAt ['l', 'e', 't'] 3 = some ⟨2, [], 0⟩ ∧
      ∃ e, readText "let" = .error e ∧ e.place = ⟨3, 1⟩ ∧
        e.render "main" "let" = "Error: UnexpectedTokenDetailed (Unexpected token: `EOF`, " ++
          "expected identifier during variable declaration)\n-> main\n  |\n2 | \n  | ^\n" :=
  ⟨rfl, _, rfl, rfl, by decide⟩

/-! ## 4. What the caret points at -/

/-- Every character takes one byte exactly if there are as many bytes as characters. -/
theorem byteLength_eq_length_iff :
    byteLength cs = cs.length ↔ ∀ d ∈ cs, d.utf8Size = 1 := by
  induction cs with
  | nil => simp [byteLength]
  | cons c cs ih =>
    have hpos := c.utf8Size_pos
    have hle := length_le_byteLength cs
    rw [List.forall_mem_cons, ← ih, byteLength, List.length_cons]
    omega

/-- **A report that points at a place** shows, above its last line, the line of the text with the
    place, without its indentation and behind its number; the last line ends with a caret. -/
structure Pointer (source report : String) (p : Position) where
  before : List Char
  here : Char
  after : List Char
  /-- what is cut off the line -/
  indent : List Char
  /-- what stands on the line before the place -/
  line : List Char
  /-- what stands before the caret -/
  pad : List Char
  cut : source.toList = before ++ here :: after
  offset : p.offset = byteLength before
  unindented : openLine before = indent ++ line
  blank : ∀ d ∈ indent, d = ' ' ∨ d = '\t'
  clear : '^' ∉ pad
  shows : Shows report
    (toString p.line ++ " | " ++ String.ofList (line ++ here :: dropBlankEnd (firstLine after)))
    (String.ofList pad ++ "^")

/-- The characters before that of the place on the quoted line. -/
def Pointer.column {report : String} (k : Pointer source report p) : Nat :=
  (toString p.line ++ " | ").length + k.line.length

/-- The indentation of a line ends before a character that is no blank. -/
theorem indentation_append_cons (hc : isBlank c = false) (cs ds : List Char) :
    indentation (cs ++ c :: ds) = indentation cs := by
  have hstop : isIndent c = false :=
    Bool.eq_false_iff.mpr fun h => Bool.eq_false_iff.mp hc (isBlank_of_isIndent h)
  rw [indentation_eq, indentation_eq, takeWhile_stop hstop]

/-- **A line is shown around a character that is no blank.** -/
theorem Line.shown_cut {l : Line} (hc : isBlank c = false) {first rest : List Char}
    (h : l.text = first ++ c :: rest) :
    l.shown = first.dropWhile isIndent ++ c :: dropBlankEnd rest := by
  rw [shown, h, indentation_append_cons hc, drop_indentation, dropBlankEnd_append_cons hc]

/-- **The caret is too far to the right** by the bytes before the place that are more than its
    characters. -/
theorem Line.pad_cut {l : Line} (hc : isBlank c = false) {first rest : List Char}
    (h : l.text = first ++ c :: rest) (hcolumn : l.column = byteLength first) :
    l.pad.length = (toString l.number ++ " | ").length + (first.dropWhile isIndent).length +
      (byteLength first - first.length) := by
  have hparts : (first.takeWhile isIndent ++ first.dropWhile isIndent).length = first.length :=
    congrArg List.length List.takeWhile_append_dropWhile
  have hle := length_le_byteLength first
  rw [List.length_append, ← indentation_eq] at hparts
  rw [length_pad, h, indentation_append_cons hc, hcolumn]
  omega

/-- **The caret is under the character of the error** exactly if every character before it on its
    line takes one byte. -/
theorem caret_shown {e : SyntaxError} (file : String) (h : readText source = .error e)
    (hplace : e.place.offset < byteLength source.toList) :
    ∃ k : Pointer source (e.render file source) e.place,
      k.pad.length = k.column ↔ ∀ d ∈ openLine k.before, d.utf8Size = 1 := by
  have hend : e.place.offset = byteLength source.toList → openLine source.toList = [] :=
    fun heq => absurd heq (Nat.ne_of_lt hplace)
  obtain ⟨before, after, hcut, hoffset, hword, hline⟩ := readText_error_line h hend
  cases after with
  | nil =>
    rw [hoffset, hcut, List.append_nil] at hplace
    exact absurd hplace (Nat.lt_irrefl _)
  | cons c after =>
    -- the character is no blank, so neither the indentation nor the end that is cut off holds it
    have hblank : isBlank c = false := hword c rfl
    have hnewline : c ≠ '\n' := by
      rintro rfl
      cases hblank
    have hshows := e.render_shows file hline (Line.not_mem_shown rfl)
    rw [firstLine_cons hnewline, Line.quoted, Line.shown_cut hblank rfl] at hshows
    refine ⟨⟨before, c, after, (openLine before).takeWhile isIndent,
      (openLine before).dropWhile isIndent, _, hcut, hoffset, ?_, ?_, ?_, hshows⟩, ?_⟩
    · exact List.takeWhile_append_dropWhile.symm
    · exact fun d => indent_or_tab
    · intro hmem
      rcases Line.mem_pad hmem with h | h | h <;> cases h
    · have hle := length_le_byteLength (openLine before)
      rw [← byteLength_eq_length_iff, Line.pad_cut hblank rfl rfl, Pointer.column]
      dsimp only
      omega

/-- Behind a tab and a word, the caret is under the sign. -/
theorem caret_shown_tab : ∃ e, readText "\tlet #" = .error e ∧
    ∃ k : Pointer "\tlet #" (e.render "main" "\tlet #") e.place, k.pad.length = k.column := by
  have hbytes : ∀ d ∈ "\tlet #".toList, d.utf8Size = 1 :=
    byteLength_eq_length_iff.mp (by decide)
  obtain ⟨e, hread, hplace⟩ : ∃ e, readText "\tlet #" = .error e ∧
      e.place.offset < byteLength "\tlet #".toList := ⟨_, rfl, by decide⟩
  obtain ⟨k, hcaret⟩ := caret_shown "main" hread hplace
  refine ⟨e, hread, k, hcaret.mpr fun d hd => hbytes d ?_⟩
  rw [k.cut]
  exact List.mem_append_left _ ((List.rtakeWhile_suffix _ _).mem hd)

/-- Behind a character of two bytes, the caret is one character to the right of the sign. -/
theorem caret_shown_accent :
    ∃ e, readText "/*é*/ #" = .error e ∧ e.place = ⟨7, 1⟩ ∧
      e.render "main" "/*é*/ #" = "Error: UnrecognisedToken\n-> main\n  |\n" ++
        "1 | /*é*/ #" ++ "\n" ++ "  | -------^" ++ "\n" ∧
      "1 | /*é*/ #".toList.idxOf '#' = 10 ∧ "  | -------^".toList.idxOf '^' = 11 :=
  ⟨_, rfl, rfl, by decide, by decide, by decide⟩

end Stackling
