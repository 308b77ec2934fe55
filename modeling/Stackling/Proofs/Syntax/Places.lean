import Stackling.Proofs.Syntax.Bounds
import Stackling.Proofs.Token.Lossless

/-
  File:     Stackling/Proofs/Syntax/Places.lean
  Subject:  The places in a program that was read.

  Every place comes from the end of a token, and a token is cut out of the text between two
  characters. The tokens stand one behind the other in it, and so do the parts of a phrase.

  * `PlaceIn`          -- a place between two characters, under the line that they stand on;
  * `Program.Coherent` -- all stretches of a program lie in its text, and those of the parts of a
                          phrase in its own, in order;
  * `readText_places`  -- what is read from a text is coherent, and so is an error.
-/
namespace Stackling

open Parse

variable {source : String} {tokens : List Token} {p : Position} {cs : List Char}

/-! ## 1. Places in a text -/

/-- **A place in a text:** it stands between two characters, or at an end, and its line is one more
    than the newlines before it. -/
def PlaceIn (source : String) (p : Position) : Prop :=
  ∃ before after, source.toList = before ++ after ∧ p.offset = byteLength before ∧
    p.line = 1 + newlines before

/-- Both ends of a stretch are places in the text. -/
def SpanIn (source : String) (s : Span) : Prop := PlaceIn source s.start ∧ PlaceIn source s.stop

theorem placeIn_of_pastAll {before after : List Char} (h : source.toList = before ++ after) :
    PlaceIn source (Position.origin.pastAll before) := by
  refine ⟨before, after, h, ?_, Position.pastAll_line .origin before⟩
  rw [Position.pastAll_offset]
  exact Nat.zero_add _

namespace Spaced

/-- **The ends of a token are places in the text.** -/
theorem places (h : Spaced p cs tokens) (before : List Char)
    (hp : p = Position.origin.pastAll before) (hsource : source.toList = before ++ cs) :
    ∀ t ∈ tokens, SpanIn source t.span := by
  induction h generalizing before with
  | @finish p gap hg =>
    intro t ht
    rw [List.mem_singleton.mp ht]
    have hend : PlaceIn source (p.pastAll gap) := by
      rw [hp, ← Position.pastAll_append]
      exact placeIn_of_pastAll (hsource.trans (List.append_nil _).symm)
    exact ⟨hend, hend⟩
  | @token p gap lexeme rest kind value tokens hg hne ha hr ih =>
    have hstart : p.pastAll gap = Position.origin.pastAll (before ++ gap) := by
      rw [hp, Position.pastAll_append]
    have hstop : (p.pastAll gap).pastAll lexeme =
        Position.origin.pastAll (before ++ gap ++ lexeme) := by
      rw [Position.pastAll_append _ (before ++ gap) lexeme, hstart]
    have hcut : source.toList = before ++ gap ++ lexeme ++ rest := by
      rw [hsource]
      simp only [List.append_assoc]
    intro t ht
    rcases List.mem_cons.mp ht with rfl | ht
    · refine ⟨?_, ?_⟩
      · show PlaceIn source (p.pastAll gap)
        rw [hstart]
        exact placeIn_of_pastAll (hcut.trans (List.append_assoc _ _ _))
      · show PlaceIn source ((p.pastAll gap).pastAll lexeme)
        rw [hstop]
        exact placeIn_of_pastAll hcut
    · exact ih _ hstop hcut t ht

/-- No token ends before it starts. -/
theorem forward (h : Spaced p cs tokens) :
    ∀ t ∈ tokens, t.span.start.offset ≤ t.span.stop.offset := by
  induction h with
  | finish =>
    intro t ht
    rw [List.mem_singleton.mp ht]
    exact Nat.le_refl _
  | @token p gap lexeme rest kind value tokens hg hne ha hr ih =>
    intro t ht
    rcases List.mem_cons.mp ht with rfl | ht
    · show (p.pastAll gap).offset ≤ ((p.pastAll gap).pastAll lexeme).offset
      rw [Position.pastAll_offset _ lexeme]
      exact Nat.le_add_right _ _
    · exact ih t ht

/-- **The tokens stand one behind the other.** -/
theorem parted (h : Spaced p cs tokens) : Parted (tokens.map Token.span) where
  forward s hs := by
    obtain ⟨t, ht, rfl⟩ := List.mem_map.mp hs
    exact h.forward t ht
  apart := List.pairwise_map.mpr h.ordered

end Spaced

/-- The tokens of a text. -/
theorem tokenize_spaced (h : tokenize source = .ok tokens) :
    Spaced .origin source.toList tokens := readFrom_spaced h

/-- A text is closed by its last token. -/
theorem closed_tokenize (h : tokenize source = .ok tokens) : Stream.closed tokens = tokens := by
  refine Stream.closed_eq_self ?_
  rw [(tokenize_spaced h).closed]
  rfl

/-! ## 2. What stands at top level -/

/-- Behind a declaration of `main`, no other one is read. -/
theorem readItem_main {seen : Bool} {item : Item} {s t : Stream}
    (h : readItem seen s = .ok item t) (hm : item.main?.isSome) : seen = false := by
  unfold readItem at h
  obtain ⟨_, _, ⟨⟩, h⟩ := bind_eq_ok.mp h
  split at h
  · obtain ⟨body, u, -, h⟩ := bind_eq_ok.mp h
    cases seen with
    | false => rfl
    | true =>
      obtain ⟨_, _, hfails, -⟩ := bind_eq_ok.mp h
      exact absurd hfails (failAt_fails _ _ _ _ _)
  split at h
  · obtain ⟨f, u, -, h⟩ := bind_eq_ok.mp h
    cases h
    cases hm
  · obtain ⟨x, u, -, h⟩ := bind_eq_ok.mp h
    cases h
    cases hm

/-- **`main` stands at top level once,** or not at all. -/
theorem itemsOf_main {fuel : Nat} {seen : Bool} {items : List Item} {s t : Stream}
    (h : itemsOf fuel seen s = .ok items t) :
    (items.filterMap Item.main?).length + seen.toNat ≤ 1 := by
  induction fuel generalizing seen items s with
  | zero => exact absurd h (unexpected_fails s items t)
  | succ fuel ih =>
    rw [itemsOf] at h
    obtain ⟨_, _, ⟨⟩, h⟩ := bind_eq_ok.mp h
    split at h
    · cases h
      rw [List.filterMap_nil, List.length_nil, Nat.zero_add]
      exact Bool.toNat_le seen
    · obtain ⟨item, u, hitem, h⟩ := bind_eq_ok.mp h
      obtain ⟨_, v, -, h⟩ := bind_eq_ok.mp h
      obtain ⟨rest, w, hrest, h⟩ := bind_eq_ok.mp h
      cases h
      have hle := ih hrest
      cases hm : item.main? with
      | none =>
        rw [hm, Option.isSome_none, Bool.or_false] at hle
        rwa [List.filterMap_cons_none hm]
      | some body =>
        rw [hm, Option.isSome_some, Bool.or_true] at hle
        rw [List.filterMap_cons_some hm, List.length_cons,
          readItem_main hitem (hm ▸ Option.isSome_some)]
        exact hle

/-- **The items are functions, statements and declarations of `main`,** in some order. -/
theorem items_perm (items : List Item) : (items.map Item.span).Perm
    ((items.filterMap Item.function?).map FunctionDecl.span ++
      ((items.filterMap Item.global?).map Stmt.span ++
        (items.filterMap Item.main?).map Block.span)) := by
  induction items with
  | nil => exact .nil
  | cons item rest ih =>
    cases item with
    | function f => exact ih.cons f.span
    | global s => exact (ih.cons s.span).trans List.perm_middle.symm
    | main body =>
      refine (ih.cons body.span).trans ?_
      rw [← List.append_assoc]
      refine List.perm_middle.symm.trans ?_
      rw [List.append_assoc]
      exact .refl _

/-! ## 3. Programs -/

/-- All phrases in a program. -/
def Program.phrases (p : Program) : List Phrase :=
  p.functions.flatMap FunctionDecl.phrases ++ p.globals.flatMap Stmt.phrases ++ p.main.phrases

/-- **The stretches of a program are coherent:** they lie in its text, those of the parts of a
    phrase lie in its own, one behind the other, and so do the functions, the statements at top
    level and the block of `main` in that of the program. -/
structure Program.Coherent (source : String) (p : Program) : Prop where
  inside : SpanIn source p.span
  places : ∀ n ∈ p.phrases, SpanIn source n.span
  holds : ∀ n ∈ p.phrases, n.span.Holds n.parts
  items : ∃ parts, p.span.Holds parts ∧
    List.Sublist (p.functions.map FunctionDecl.span) parts ∧
    List.Sublist (p.globals.map Stmt.span) parts ∧
    parts.Perm (p.functions.map FunctionDecl.span ++ (p.globals.map Stmt.span ++ [p.main.span]))

/-- A phrase of a program is one of an item. -/
theorem phrases_subset {items : List Item} {p : Program} {n : Phrase}
    (hf : p.functions = items.filterMap Item.function?)
    (hg : p.globals = items.filterMap Item.global?)
    (hm : items.findSome? Item.main? = some p.main) (hn : n ∈ p.phrases) :
    n ∈ items.flatMap Item.phrases := by
  rw [Program.phrases, List.mem_append, List.mem_append, hf, hg] at hn
  rw [List.mem_flatMap]
  rcases hn with (hn | hn) | hn
  · obtain ⟨f, hf, hn⟩ := List.mem_flatMap.mp hn
    obtain ⟨item, hitem, hf⟩ := List.mem_filterMap.mp hf
    cases item <;> cases hf
    exact ⟨_, hitem, hn⟩
  · obtain ⟨x, hx, hn⟩ := List.mem_flatMap.mp hn
    obtain ⟨item, hitem, hx⟩ := List.mem_filterMap.mp hx
    cases item <;> cases hx
    exact ⟨_, hitem, hn⟩
  · obtain ⟨item, hitem, hmain⟩ := List.exists_of_findSome?_eq_some hm
    cases item <;> cases hmain
    exact ⟨_, hitem, hn⟩

/-- Items of one kind stand in the order of all of them. -/
theorem items_sublist {α : Type} {part? : Item → Option α} {span : α → Span}
    (h : ∀ item x, part? item = some x → span x = item.span) (items : List Item) :
    List.Sublist ((items.filterMap part?).map span) (items.map Item.span) := by
  induction items with
  | nil => exact .slnil
  | cons item rest ih =>
    cases hpart : part? item with
    | none =>
      rw [List.filterMap_cons_none hpart]
      exact ih.cons _
    | some x =>
      rw [List.filterMap_cons_some hpart, List.map_cons, List.map_cons, h item x hpart]
      exact ih.cons_cons _

/-- The declaration of `main` that was read is the only one. -/
theorem main_of_itemsOf {fuel : Nat} {items : List Item} {main : Block} {s t : Stream}
    (h : itemsOf fuel false s = .ok items t) (hm : items.findSome? Item.main? = some main) :
    items.filterMap Item.main? = [main] := by
  have hlength := itemsOf_main h
  have hhead : (items.filterMap Item.main?).head? = some main := List.head?_filterMap.trans hm
  obtain ⟨rest, hrest⟩ := List.head?_eq_some_iff.mp hhead
  rw [hrest, List.length_cons] at hlength
  have hnil : rest.length = 0 := Nat.le_zero.mp (Nat.le_of_succ_le_succ hlength)
  rw [hrest, List.length_eq_zero_iff.mp hnil]

/-- The items of a program lie between its first token and the end of the text. -/
theorem Laid.within {ts : List Token} {parts : List Span} {all : List Phrase} {s t : Stream}
    (h : Laid ts parts all) (htaken : Taken ts s t) (hp : Parted (s.left.map Token.span)) :
    Span.Holds ⟨s.place, t.place⟩ parts := by
  have hcut := hp
  rw [htaken.left, List.map_append] at hcut
  have hlast : t.current.span ∈ t.left.map Token.span := List.mem_cons_self
  have hfirst : ∀ a ∈ s.left, s.place.offset ≤ a.span.start.offset := fun a ha =>
    (Parted.first_le hp (List.mem_map_of_mem ha)).1
  refine ⟨hfirst t.current ?_, fun part hpart => ?_, h.parted hcut.of_append.1⟩
  · rw [htaken.left]
    exact List.mem_append_right _ List.mem_cons_self
  · obtain ⟨⟨a, ha, hstart⟩, b, hb, hstop⟩ := h.parts_from part hpart
    rw [hstart, hstop]
    refine ⟨hfirst a ?_, hcut.between (List.mem_map_of_mem hb) hlast⟩
    rw [htaken.left]
    exact List.mem_append_left _ ha

/-- **A program that was read from the tokens of a text is coherent.** -/
theorem readProgram_coherent {p : Program} {s t : Stream}
    (htokens : Spaced .origin source.toList s.left) (hs : s.Whole)
    (h : readProgram s = .ok p t) : p.Coherent source := by
  obtain ⟨ts, items, hitems, htaken, hlaid, hf, hg, hm, hspan⟩ := readProgram_ok hs h
  have hplaces := htokens.places [] rfl rfl
  have hparted := htokens.parted
  have hts : Parted (ts.map Token.span) := by
    rw [htaken.left, List.map_append] at hparted
    exact hparted.of_append.1
  have hmem : ∀ a ∈ ts, a ∈ s.left := fun a ha => by
    rw [htaken.left]
    exact List.mem_append_left _ ha
  have hmain := main_of_itemsOf hitems hm
  refine ⟨?_, fun n hn => ?_, fun n hn => ?_, ?_⟩
  · rw [hspan]
    refine ⟨(hplaces s.current List.mem_cons_self).1, (hplaces t.current ?_).1⟩
    rw [htaken.left]
    exact List.mem_append_right _ List.mem_cons_self
  · obtain ⟨⟨a, ha, hstart⟩, b, hb, hstop⟩ := hlaid.all_from n (phrases_subset hf hg hm hn)
    rw [SpanIn, hstart, hstop]
    exact ⟨(hplaces a (hmem a ha)).1, (hplaces b (hmem b hb)).2⟩
  · exact hlaid.holds hts n (phrases_subset hf hg hm hn)
  · refine ⟨items.map Item.span, ?_, ?_, ?_, ?_⟩
    · rw [hspan]
      exact hlaid.within htaken hparted
    · rw [hf]
      refine items_sublist (fun item f hpart => ?_) items
      cases item <;> cases hpart
      rfl
    · rw [hg]
      refine items_sublist (fun item x hpart => ?_) items
      cases item <;> cases hpart
      rfl
    · have hperm := items_perm items
      rwa [hmain, ← hf, ← hg] at hperm

/-- **The places that are read from a text are coherent.** Those of its tokens and of an error
    stand between two characters of it, under the line they are on, and so do those of a program,
    whose stretches are nested and in order. -/
theorem readText_places (source : String) :
    (∀ tokens, tokenize source = .ok tokens → ∀ t ∈ tokens, SpanIn source t.span) ∧
    (∀ e, readText source = .error e → PlaceIn source e.place) ∧
    ∀ p, readText source = .ok p → p.Coherent source := by
  have htokens : ∀ tokens, tokenize source = .ok tokens →
      Spaced .origin source.toList (Stream.ofTokens .standard tokens).left := fun tokens h => by
    rw [(Stream.ofTokens_closed tokens).2, closed_tokenize h]
    exact tokenize_spaced h
  refine ⟨fun tokens h => (tokenize_spaced h).places [] rfl rfl, fun e h => ?_, fun p h => ?_⟩
  · rw [readText] at h
    cases htext : tokenize source with
    | error e' =>
      rw [htext] at h
      cases h
      obtain ⟨before, after, hcut, hplace, -⟩ := readFrom_stops htext
      rw [hplace]
      exact placeIn_of_pastAll hcut
    | ok tokens =>
      rw [htext] at h
      obtain ⟨a, ha, hplace⟩ := parse_error_place h
      have hmem := mem_of_mem_upToEnd ha
      rw [closed_tokenize htext] at hmem
      rw [hplace]
      exact ((tokenize_spaced htext).places [] rfl rfl a hmem).1
  · rw [readText] at h
    cases htext : tokenize source with
    | error e' =>
      rw [htext] at h
      cases h
    | ok tokens =>
      rw [htext] at h
      obtain ⟨t, hrun⟩ := readProgram_of_ok h
      exact readProgram_coherent (htokens tokens htext) (Stream.ofTokens_closed tokens).1 hrun

/-- The tokens of a program whose block starts on the second line. -/
def lowBlockTokens : List Token :=
  [⟨.fnWord, "fn", ⟨⟨0, 1⟩, ⟨2, 1⟩⟩⟩, ⟨.identifier, "main", ⟨⟨3, 1⟩, ⟨7, 1⟩⟩⟩,
    ⟨.openParen, "(", ⟨⟨7, 1⟩, ⟨8, 1⟩⟩⟩, ⟨.closeParen, ")", ⟨⟨8, 1⟩, ⟨9, 1⟩⟩⟩,
    ⟨.openCurly, "\x7b", ⟨⟨10, 2⟩, ⟨11, 2⟩⟩⟩, ⟨.closeCurly, "\x7d", ⟨⟨11, 2⟩, ⟨12, 2⟩⟩⟩,
    Token.finish ⟨12, 2⟩]

/-- A program of two lines is coherent, and a bracket that opens nothing is on the second line. -/
theorem lowBlock_places :
    (∃ p, readText "fn main()\n\x7b\x7d" = .ok p ∧ p.Coherent "fn main()\n\x7b\x7d") ∧
    ∃ e, readText "\n)" = .error e ∧ PlaceIn "\n)" e.place := by
  have htokens : tokenize "fn main()\n\x7b\x7d" = .ok lowBlockTokens := rfl
  have hread : readText "fn main()\n\x7b\x7d" = parse lowBlockTokens := by
    rw [readText, htokens]
    rfl
  obtain ⟨-, -, hcoherent⟩ := readText_places "fn main()\n\x7b\x7d"
  obtain ⟨-, hplace, -⟩ := readText_places "\n)"
  exact ⟨⟨_, hread, hcoherent _ hread⟩, _, rfl, hplace _ rfl⟩

end Stackling
