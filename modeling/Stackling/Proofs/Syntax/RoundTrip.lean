import Stackling.Proofs.Syntax.Phrases
import Stackling.Syntax.TopLevel

/-
  File:     Stackling/Proofs/Syntax/RoundTrip.lean
  Subject:  Programs that are written are read back.

  Every program whose names are no keywords, whose numbers are not negative and none of whose
  functions is called `main` has a text, and the text is read as the program: apart from the
  places and the numbers of the expressions, nothing is lost and nothing is added.

  * `Items.Give`          -- the parts of a program among the items at top level;
  * `item_step`           -- one item more;
  * `readProgram_reads`   -- a program is read from its words;
  * `lined_placed`        -- what follows a return in a text stands on its line;
  * `readText_render`     -- the text of a program is read as the program.
-/
namespace Stackling

open Parse

variable {ws ws' rest : List Word}

/-! ## 1. Functions and `main` -/

/-- The budget is enough for every phrase that the stream starts with. -/
theorem Stream.Shows.budget {s : Stream} (h : s.Shows (ws ++ rest)) :
    8 * ws.length < s.budget := by
  have hsize := h.size
  rw [List.length_append] at hsize
  rw [Stream.budget]
  omega

section Items

variable (enclose : Bool)

theorem readBlock_reads {b : Block} (h : b.Writable) (rest : List Word) :
    Reads readBlock (b.words enclose) rest fun x => x.bare = b.bare :=
  Reads.look fun _ hs => block_reads enclose b h _ (Nat.le_of_lt hs.budget) rest

/-- **A function is read.** -/
theorem readFunction_reads {f : FunctionDecl} (h : f.Writable) (rest : List Word) :
    Reads readFunction (f.words enclose) rest fun x => x.bare = f.bare := by
  refine Reads.token rfl fun opening _ => Reads.token rfl fun name hname => ?_
  refine Reads.bind (readParams_reads f.params _) fun ps hps => Reads.tokenOr rfl fun _ _ => ?_
  refine Reads.bind (readType_reads f.returns _) fun t ht => ?_
  refine (readBlock_reads enclose h.body rest).last fun b hb => .pure ?_
  have hvalue : name.value = f.name := congrArg Word.value hname
  rw [FunctionDecl.bare, FunctionDecl.bare, hvalue, hps, ht, hb]

/-- The words of the declaration of `main` with the block `ws`. -/
def mainWith (ws : List Word) : List Word :=
  .of .fnWord :: .name "main" :: (paramWords [] ++ ws)

/-- The words of `main`. -/
def mainWords (main : Block) : List Word := mainWith (main.words enclose)

omit enclose in
/-- **The declaration of `main` is read,** if its block is. -/
theorem readMain_as {post : Block → Prop} (hstart : firstKind ws = .openCurly)
    (h : Reads readBlock ws rest post) : Reads readMain (mainWith ws) rest post := by
  refine Reads.token rfl fun _ _ => Reads.token rfl fun _ _ => Reads.token rfl fun _ _ => ?_
  refine Reads.look fun s hs => ?_
  dsimp only
  rw [if_neg (not_not.mpr (show s.kind = .closeParen from hs.kind))]
  have hne : ws ≠ [] := by
    rintro rfl
    cases hstart
  have hnext : firstKind (ws ++ rest) ≠ .colon := by
    rw [firstKind_append hne, hstart]
    decide
  refine Reads.skip (Reads.after (.eatsNot hnext) fun found hfound => ?_)
  rw [hfound]
  exact h

/-! ## 2. Items -/

/-- **The parts of a program** among the items at top level. -/
structure Items.Give (items : List Item) (functions : List FunctionDecl) (globals : List Stmt)
    (main : Block) : Prop where
  functions : (items.filterMap Item.function?).map FunctionDecl.bare =
    functions.map FunctionDecl.bare
  globals : (items.filterMap Item.global?).map Stmt.bare = globals.map Stmt.bare
  main : (items.findSome? Item.main?).map Block.bare = some main.bare

/-- A function is an item. -/
theorem function_item {f : FunctionDecl} (h : f.Writable) (seen : Bool) (rest : List Word) :
    Reads (readItem seen) (f.words enclose) rest fun item =>
      ∃ g, item = .function g ∧ g.bare = f.bare := by
  refine Reads.look fun s hs => ?_
  have hkind : s.kind = .fnWord := hs.kind
  have hpeek : s.peek.word = .name f.name := hs.peek
  have hfunction : s.atFunction = true := by
    rw [Stream.atFunction, hkind, show s.peek.kind = .identifier from congrArg Word.kind hpeek]
    rfl
  have hmain : ¬ s.atMain = true := by
    rw [Stream.atMain, hfunction, show s.peek.value = f.name from congrArg Word.value hpeek]
    exact fun hm => h.notMain (by simpa using hm)
  rw [if_neg hmain, if_pos hfunction]
  exact (readFunction_reads enclose h rest).last fun g hg => .pure ⟨g, rfl, hg⟩

/-- A statement and its semicolon are an item. -/
theorem global_item {stmt : Stmt} (h : stmt.Writable) (seen : Bool) (rest : List Word) :
    Reads (readItem seen) (stmt.words enclose ++ [Word.of .semicolon]) rest fun item =>
      ∃ x, item = .global x ∧ x.bare = stmt.bare := by
  have hstart := stmt.words_start enclose
  refine Reads.look fun s hs => ?_
  have hkind : s.kind ≠ .fnWord := by
    rw [hs.kind, List.append_assoc, firstKind_append (ne_nil_of_start hstart)]
    exact ne_of_mem_of_not_mem hstart (by decide)
  have hfunction : ¬ s.atFunction = true := fun h =>
    hkind (beq_iff_eq.mp (Bool.and_eq_true_iff.mp h).1)
  have hmain : ¬ s.atMain = true := fun h => hfunction (Bool.and_eq_true_iff.mp h).1
  rw [if_neg hmain, if_neg hfunction]
  refine Reads.last (Reads.look fun s hs => ?_) fun x hx => .pure ⟨x, rfl, hx⟩
  have hbudget := hs.budget
  rw [List.length_append, List.length_singleton] at hbudget
  exact (stmt_reads enclose stmt h).withSemicolon hstart (by omega) rest

omit enclose in
/-- **The declaration of `main` is an item.** -/
theorem main_as {post : Block → Prop} (hstart : firstKind ws = .openCurly)
    (h : Reads readBlock ws rest post) :
    Reads (readItem false) (mainWith ws) rest fun item => ∃ x, item = .main x ∧ post x := by
  refine Reads.look fun s hs => ?_
  have hkind : s.kind = .fnWord := hs.kind
  have hpeek : s.peek.word = .name "main" := hs.peek
  have hmain : s.atMain = true := by
    rw [Stream.atMain, Stream.atFunction, hkind,
      show s.peek.kind = .identifier from congrArg Word.kind hpeek,
      show s.peek.value = "main" from congrArg Word.value hpeek]
    rfl
  rw [if_pos hmain]
  exact (readMain_as hstart h).last fun x hx => .pure ⟨x, rfl, hx⟩

theorem main_item {main : Block} (h : main.Writable) (rest : List Word) :
    Reads (readItem false) (mainWords enclose main) rest fun item =>
      ∃ x, item = .main x ∧ x.bare = main.bare :=
  main_as (main.words_start enclose) (readBlock_reads enclose h rest)

/-- The kinds that stand at the start of an item, or at the end of the text. -/
def itemStarts : List TokenKind := .endOfText :: .fnWord :: stmtStarts

/-- **One item more.** -/
theorem item_step {seen : Bool} {fuel : Nat} {p : Item → Prop} {post : List Item → Prop}
    (hitem : Reads (readItem seen) ws (ws' ++ rest) p) (hstart : firstKind ws ≠ .endOfText)
    (hnext : firstKind (ws' ++ rest) ∈ itemStarts) (hfuel : (ws ++ ws').length < fuel)
    (hitems : ∀ item, p item → ∀ fuel, ws'.length < fuel →
      Reads (itemsOf fuel (seen || item.main?.isSome)) ws' rest fun items => post (item :: items)) :
    Reads (itemsOf fuel seen) (ws ++ ws') rest post := by
  have hne : ws ≠ [] := by
    rintro rfl
    exact hstart rfl
  obtain ⟨fuel, rfl⟩ := Nat.exists_eq_add_one_of_ne_zero (Nat.ne_zero_of_lt hfuel)
  have hlength := List.length_pos_iff.mpr hne
  rw [List.length_append] at hfuel
  have hsemicolon : firstKind (ws' ++ rest) ≠ .semicolon :=
    ne_of_mem_of_not_mem hnext (by decide)
  rw [itemsOf]
  refine Reads.look fun s hs => ?_
  have htokens : s.hasTokens = true := by
    rw [Stream.hasTokens, hs.kind, List.append_assoc, firstKind_append hne]
    exact bne_iff_ne.mpr hstart
  rw [htokens]
  refine Reads.bind hitem fun item hp => ?_
  refine Reads.after (Reads.eatsNot hsemicolon).discard fun _ _ => ?_
  exact (hitems item hp fuel (by omega)).last fun items hitems => .pure hitems

/-- The text has ended. -/
theorem items_end {fuel : Nat} (hfuel : 0 < fuel) (seen : Bool) :
    Reads (itemsOf fuel seen) [] [] fun items => items = [] := by
  obtain ⟨fuel, rfl⟩ := Nat.exists_eq_add_one_of_ne_zero (Nat.ne_of_gt hfuel)
  rw [itemsOf]
  refine Reads.look fun s hs => ?_
  have htokens : s.hasTokens = false := by
    rw [Stream.hasTokens, hs.kind]
    rfl
  rw [htokens]
  exact .pure rfl

/-- **`main` stands last.** -/
theorem items_main {main : Block} (h : main.Writable) {fuel : Nat}
    (hfuel : (mainWords enclose main).length < fuel) :
    Reads (itemsOf fuel false) (mainWords enclose main) [] fun items =>
      Items.Give items [] [] main := by
  rw [← List.append_nil (mainWords enclose main)] at hfuel ⊢
  refine item_step (main_item enclose h _) nofun (by decide) hfuel ?_
  rintro _ ⟨x, rfl, hx⟩ fuel hfuel
  refine (items_end hfuel _).mono fun items hitems => ?_
  rw [hitems]
  exact ⟨rfl, rfl, congrArg some hx⟩

theorem start_globals (globals : List Stmt) (main : Block) :
    firstKind (stmtWords enclose globals ++ mainWords enclose main ++ rest) ∈ itemStarts := by
  cases globals with
  | nil => exact List.mem_cons_of_mem _ List.mem_cons_self
  | cons stmt globals =>
    have hstart := stmt.words_start enclose
    rw [stmtWords, List.append_assoc, List.append_assoc, firstKind_append (ne_nil_of_start hstart)]
    exact List.mem_cons_of_mem _ (List.mem_cons_of_mem _ hstart)

/-- **The statements at top level** stand in front of it. -/
theorem items_globals {main : Block} (hmain : main.Writable) : (globals : List Stmt) →
    stmtsWritable globals → (fuel : Nat) →
    (stmtWords enclose globals ++ mainWords enclose main).length < fuel →
    Reads (itemsOf fuel false) (stmtWords enclose globals ++ mainWords enclose main) []
      fun items => Items.Give items [] globals main
  | [], _, fuel, hfuel => by
    rw [stmtWords] at hfuel ⊢
    exact items_main enclose hmain hfuel
  | stmt :: globals, h, fuel, hfuel => by
    rw [stmtsWritable] at h
    rw [stmtWords, List.append_cons, List.append_assoc] at hfuel ⊢
    refine item_step (global_item enclose h.1 _ _) ?_ (start_globals enclose globals main)
      hfuel ?_
    · have hstart := stmt.words_start enclose
      rw [firstKind_append (ne_nil_of_start hstart)]
      exact ne_of_mem_of_not_mem hstart (by decide)
    · rintro _ ⟨x, rfl, hx⟩ fuel hfuel
      refine (items_globals hmain globals h.2 fuel hfuel).mono fun items hitems => ?_
      exact ⟨hitems.functions, congrArg₂ List.cons hx hitems.globals, hitems.main⟩

/-- **The functions** stand in front of them. -/
theorem items_functions {functions : List FunctionDecl} {globals : List Stmt} {main : Block}
    (hfunctions : ∀ f ∈ functions, f.Writable) (hglobals : stmtsWritable globals)
    (hmain : main.Writable) {fuel : Nat}
    (hfuel : (functionWords enclose functions ++
      (stmtWords enclose globals ++ mainWords enclose main)).length < fuel) :
    Reads (itemsOf fuel false) (functionWords enclose functions ++
      (stmtWords enclose globals ++ mainWords enclose main)) []
      fun items => Items.Give items functions globals main := by
  induction functions generalizing fuel with
  | nil => exact items_globals enclose hmain globals hglobals fuel hfuel
  | cons f functions ih =>
    obtain ⟨hf, hfs⟩ := List.forall_mem_cons.mp hfunctions
    rw [functionWords, List.append_assoc] at hfuel ⊢
    refine item_step (function_item enclose hf _ _) nofun ?_ hfuel ?_
    · cases functions with
      | nil => exact start_globals enclose globals main
      | cons => exact List.mem_cons_of_mem _ List.mem_cons_self
    · rintro _ ⟨g, rfl, hg⟩ fuel hfuel
      refine (ih hfs hfuel).mono fun items hitems => ?_
      exact ⟨congrArg₂ List.cons hg hitems.functions, hitems.globals, hitems.main⟩

/-! ## 3. Programs -/

omit enclose in
/-- **A program of `main` alone is read,** if the block is. -/
theorem readProgram_main {post : Block → Prop} (hstart : firstKind ws = .openCurly)
    (h : Reads readBlock ws [] post) :
    Reads readProgram (mainWith ws) [] fun p => p.functions = [] ∧ p.globals = [] ∧ post p.main := by
  refine Reads.look fun _ _ => Reads.look fun s hs => ?_
  have hsize := hs.size
  have hfuel : (mainWith ws ++ []).length < s.size + 1 := by omega
  have hitems : Reads (itemsOf (s.size + 1) false) (mainWith ws ++ []) [] fun items =>
      ∃ x, items = [.main x] ∧ post x := by
    refine item_step (main_as hstart h) nofun (by decide) hfuel ?_
    rintro _ ⟨x, rfl, hx⟩ fuel hfuel
    exact (items_end hfuel _).mono fun items hitems => ⟨x, by rw [hitems], hx⟩
  rw [List.append_nil] at hitems
  refine hitems.last ?_
  rintro _ ⟨x, rfl, hx⟩
  exact Reads.look fun _ _ => .pure ⟨rfl, rfl, hx⟩

/-- **A program is read from its words.** -/
theorem readProgram_reads {p : Program} (h : p.Writable) :
    Reads readProgram (p.words enclose) [] fun q => q.bare = p.bare := by
  refine Reads.look fun s _ => Reads.look fun s' hs => ?_
  have hsize := hs.size
  rw [List.append_nil] at hsize
  have hfuel : (p.words enclose).length < s'.size + 1 := by omega
  refine (items_functions enclose h.functions h.globals h.main hfuel).last fun items hitems => ?_
  obtain ⟨main, hmain, hbare⟩ := Option.map_eq_some_iff.mp hitems.main
  refine Reads.look fun s'' _ => ?_
  dsimp only
  rw [hmain]
  refine .pure ?_
  rw [Program.bare, Program.bare, stmtsBare_eq_map, stmtsBare_eq_map, hitems.functions,
    hitems.globals, hbare]

end Items

/-! ## 4. Texts -/

/-- The first token stands where the text starts. -/
theorem placed_start (p : Position) : (ws : List Word) →
    ∃ t ts, placed p ws = t :: ts ∧ t.span.start = p
  | [] => ⟨_, _, rfl, rfl⟩
  | [_] => ⟨_, _, rfl, rfl⟩
  | _ :: _ :: _ => ⟨_, _, rfl, rfl⟩

/-- A word that is a return has no newline. -/
theorem line_of_return {w : Word} (h : w.Writable) (hk : w.kind = .returnWord) (p : Position) :
    (p.pastAll w.lexeme).line = p.line := by
  cases h with
  | fixed htext =>
    cases hk
    cases htext
    rfl
  | identifier | number | text | character => cases hk

/-- **What follows a return stands on its line.** -/
theorem lined_placed (p : Position) : (ws : List Word) → AllWritable ws →
    (placed p ws).IsChain SameLine
  | [], _ => .singleton _
  | [w], h => List.isChain_cons_cons.mpr
      ⟨fun hk => (line_of_return (h w List.mem_cons_self) hk p).symm, .singleton _⟩
  | w :: w' :: ws, h => by
    obtain ⟨hw, hws⟩ := List.forall_mem_cons.mp h
    have ih := lined_placed ((p.pastAll w.lexeme).past ' ') (w' :: ws) hws
    obtain ⟨t, ts, ht, hstart⟩ := placed_start ((p.pastAll w.lexeme).past ' ') (w' :: ws)
    show (_ :: placed _ (w' :: ws)).IsChain SameLine
    rw [ht] at ih ⊢
    refine List.isChain_cons_cons.mpr ⟨fun hk => ?_, ih⟩
    rw [Span.line, Span.line, hstart]
    exact (line_of_return hw hk p).symm

/-- **Reading undoes writing:** the text of a program is read as the program, whether or not
    the parts of statements stand in parentheses. -/
theorem readText_render {p : Program} (h : p.Writable) (enclose : Bool) :
    ∃ q, readText (p.render enclose) = .ok q ∧ q.bare = p.bare := by
  have hwords := Program.words_writable enclose h
  have hshows : (Stream.ofTokens .standard (placed .origin (p.words enclose))).Shows
      (p.words enclose ++ []) := by
    rw [List.append_nil]
    exact Stream.ofTokens_shows (map_word_placed .origin _) (lined_placed .origin _ hwords)
  obtain ⟨q, s, hq, hbare, -⟩ := readProgram_reads enclose h _ hshows
  refine ⟨q, ?_, hbare⟩
  rw [readText, Program.render, tokenize_placed hwords]
  show parse _ = _
  rw [parse, Parse.result, EStateM.run, hq]

/-- A program with a function, a hash and a text at top level, and in `main` a function without
    a name, a branch with a call, a key and a bare return, and a block. -/
def sampleProgram : Program where
  functions := [⟨"inc", [⟨"n", .int, .blank⟩], .int,
    .mk [.returns .blank (some (.binary .blank .add (.name .blank "n") (.int .blank 1)))] .blank,
    .blank⟩]
  globals := [
    .declare .blank true "sizes" (.hash .string .int)
      (.hash .blank [(.text .blank "a\x22\\\n", .int .blank 9223372036854775807)]),
    .declare .blank false "none" (.array .char) (.array .blank [])]
  main := .mk [
    .declare .blank false "f" (.fn [.int] .bool)
      (.fn .blank [⟨"k", .int, .blank⟩] .bool
        (.mk [.returns .blank (some (.binary .blank .lessEqual (.name .blank "k")
          (.int .blank 3)))] .blank)),
    .branch .blank (.call .blank (.name .blank "f") [.call .blank (.name .blank "inc")
        [.index .blank (.name .blank "sizes") (.text .blank "a")]])
      (.mk [.print .blank (.array .blank [.char .blank '\x27', .char .blank '\n'])] .blank)
      (some (.mk [.returns .blank none] .blank)),
    .block (.mk [.expr (.bool .blank false)] .blank)] .blank
  span := .blank

theorem sampleProgram_writable : sampleProgram.Writable where
  functions := by
    intro f hf
    obtain rfl := List.mem_singleton.mp hf
    refine ⟨by decide, by decide, by decide, ?_⟩
    simp only [Block.Writable, stmtsWritable, Stmt.Writable, Expr.Writable]
    decide
  globals := by
    simp only [sampleProgram, stmtsWritable, Stmt.Writable, Expr.Writable, entriesWritable,
      itemsWritable]
    decide
  main := by
    simp only [sampleProgram, Block.Writable, stmtsWritable, Stmt.Writable, Expr.Writable,
      itemsWritable]
    decide

/-- It is read back. -/
theorem sampleProgram_render :
    ∃ q, readText (sampleProgram.render true) = .ok q ∧ q.bare = sampleProgram.bare :=
  readText_render sampleProgram_writable true

end Stackling
