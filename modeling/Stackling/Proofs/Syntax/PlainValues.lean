import Stackling.Proofs.Syntax.Spelling
import Stackling.Value.Text

/-
  File:     Stackling/Proofs/Syntax/PlainValues.lean
  Subject:  Values whose printed form is a literal.

  Numbers that are not negative, truth values, characters and texts without escapes by number,
  and arrays and hashes of these are printed as the language writes them.

  * `Ty.Plain`            -- the types of such values;
  * `Value.Plain`         -- the values;
  * `Value.Plain.spelled` -- the text of a value spells the words of a literal;
  * `Value.printing`      -- a program that prints a value;
  * `spells_printing`     -- its words.
-/
namespace Stackling

open Text

/-! ## 1. Plain types and values -/

/-- Arrays and hashes, at any depth, of integers, truth values, characters and strings. -/
inductive Ty.Plain : Ty → Prop
  | int : Plain .int
  | bool : Plain .bool
  | char : Plain .char
  | string : Plain .string
  | array {element : Ty} (he : Plain element) : Plain (.array element)
  | hash {key value : Ty} (hk : key = .int ∨ key = .string) (hv : Plain value) :
      Plain (.hash key value)

/-- **A value of a type,** without negative numbers and without escapes by number. No two
    entries of a hash have the same key. -/
inductive Value.Plain : Value → Ty → Prop
  | int {n : Int64} (h : 0 ≤ n.toInt) : Plain (.int n) .int
  | bool (b : Bool) : Plain (.ofBool b) .bool
  | char {c : Char} (h : Legible c) : Plain (.char c) .char
  | text {s : String} (h : ∀ c ∈ s.toList, Legible c) : Plain (.text s) .string
  | array {items : List Value} {element : Ty} (h : ∀ v ∈ items, Plain v element) :
      Plain (.array items) (.array element)
  | hash {entries : List (HashKey × Value)} {key value : Ty} (hkey : key = .int ∨ key = .string)
      (hd : (entries.map (·.1)).Nodup) (hk : ∀ e ∈ entries, Plain e.1.value key)
      (hv : ∀ e ∈ entries, Plain e.2 value) : Plain (.hash entries) (.hash key value)

/-! ## 2. Values -/

/-- The word of a key. -/
def HashKey.words : HashKey → List Word
  | .int n => [⟨.number, decimal n⟩]
  | .text s => [⟨.text, s⟩]

mutual
/-- The words of a value inside another one. -/
def Value.words : Value → Ty → List Word
  | .int n, .bool => [Word.of (if n = 0 then .falseWord else .trueWord)]
  | .int n, _ => [⟨.number, decimal n⟩]
  | .char c, _ => [⟨.character, String.singleton c⟩]
  | .text s, _ => [⟨.text, s⟩]
  | .array items, .array element =>
    .of .openBracket :: (commaSeparated (valueWords element items) ++ [.of .closeBracket])
  | .hash entries, .hash _ value =>
    .of .openCurly :: (commaSeparated (pairWords value entries) ++ [.of .closeCurly])
  | _, _ => []

/-- The words of the items of an array. -/
def valueWords (element : Ty) : List Value → List (List Word)
  | [] => []
  | v :: rest => v.words element :: valueWords element rest

/-- The words of the entries of a hash. -/
def pairWords (value : Ty) : List (HashKey × Value) → List (List Word)
  | [] => []
  | (k, v) :: rest => (k.words ++ .of .colon :: v.words value) :: pairWords value rest
end

section Keys

variable {key : Ty} (h : key = .int ∨ key = .string) (k : HashKey)
include h

/-- A key has the words of its value, -/
theorem HashKey.words_value : k.value.words key = k.words := by
  rcases h with rfl | rfl <;> cases k <;> rfl

/-- and the text. -/
theorem HashKey.format_value : k.value.formatIn true key = k.format key := by
  rcases h with rfl | rfl <;> cases k <;> rfl

end Keys

/-- The digits of a number that is not negative. -/
theorem spelled_decimal {n : Int64} (h : 0 ≤ n.toInt) :
    Spelled (decimal n).toList [⟨.number, decimal n⟩] := by
  obtain ⟨m, -, hm⟩ := exists_decimal h
  have hdigits : (decimal n).toList = Nat.toDigits 10 m := by rw [hm, Nat.toList_repr]
  refine .digits (hdigits ▸ Nat.toDigits_ne_nil) fun d hd => ?_
  rw [hdigits] at hd
  exact isDigit_of_mem_toDigits hd

theorem spelled_bool (b : Bool) :
    Spelled ((Value.ofBool b).formatIn true .bool).toList ((Value.ofBool b).words .bool) := by
  cases b
  · exact .letters (s := "false") rfl (by decide) (List.all_eq_true.mp (by decide)) (by decide)
  · exact .letters (s := "true") rfl (by decide) (List.all_eq_true.mp (by decide)) (by decide)

/-- The text of a value inside another one spells its words. -/
def Value.SpelledIn (v : Value) (T : Ty) : Prop :=
  Spelled (v.formatIn true T).toList (v.words T)

theorem spelled_items {element : Ty} {items : List Value}
    (h : ∀ v ∈ items, v.SpelledIn element) :
    List.Forall₂ (fun s ws => Spelled s.toList ws) (formatItems element items)
      (valueWords element items) := by
  induction items with
  | nil => exact .nil
  | cons v items ih =>
    obtain ⟨hv, hitems⟩ := List.forall_mem_cons.mp h
    exact .cons hv (ih hitems)

theorem spelled_pairs {key value : Ty} (hkey : key = .int ∨ key = .string)
    {entries : List (HashKey × Value)} (hk : ∀ e ∈ entries, e.1.value.SpelledIn key)
    (hv : ∀ e ∈ entries, e.2.SpelledIn value) :
    List.Forall₂ (fun s ws => Spelled s.toList ws) (formatEntries key value entries)
      (pairWords value entries) := by
  induction entries with
  | nil => exact .nil
  | cons e entries ih =>
    obtain ⟨hke, hk⟩ := List.forall_mem_cons.mp hk
    obtain ⟨hve, hv⟩ := List.forall_mem_cons.mp hv
    refine .cons ?_ (ih hk hv)
    rw [Value.SpelledIn, HashKey.words_value hkey, HashKey.format_value hkey] at hke
    rw [String.toList_append, String.toList_append, List.append_assoc]
    exact hke.joined (k := .colon) (c := ':') (by decide) rfl (by decide) hve

/-- **The text of a plain value spells its words.** -/
theorem Value.Plain.spelled {v : Value} {T : Ty} (h : v.Plain T) : v.SpelledIn T := by
  induction h with
  | int h => exact spelled_decimal h
  | bool b => exact spelled_bool b
  | char h => exact .character h
  | text h => exact .text h
  | array _ ih =>
    rw [SpelledIn, formatIn, words, inBrackets, String.toList_append, String.toList_append]
    exact .enclosed (c := '[') (d := ']') (spelled_items ih) (by decide) rfl (by decide) rfl
      (by decide) (by decide) (by decide)
  | hash hkey _ _ _ ihk ihv =>
    rw [SpelledIn, formatIn, words, inBraces, String.toList_append, String.toList_append]
    exact .enclosed (c := '\x7b') (d := '\x7d') (spelled_pairs hkey ihk ihv) (by decide) rfl
      (by decide) rfl (by decide) (by decide) (by decide)

/-! ## 3. A program around a value -/

/-- The text of a program that declares a value of a type and prints it. -/
def Value.printing (v : Value) (T : Ty) : String :=
  "fn main() \x7b let x: " ++ T.text ++ " = " ++ v.format T ++ "; print(x) \x7d"

/-- The words of a block that declares `x` by the words `ws` and prints it. -/
def printingBlock (t : TypeExpr) (ws : List Word) : List Word :=
  .of .openCurly :: (declarationWords false "x" t ws ++ [.of .semicolon] ++
    (.of .printWord :: grouped [.name "x"]) ++ [.of .closeCurly])

theorem spelled_x : Spelled "x".toList [Word.name "x"] :=
  .name rfl (by decide) nofun (by decide)

variable {rest : List Char} {ws : List Word}

/-- A part behind a blank. -/
theorem Spelled.afterBlank {cs : List Char} {vs : List Word} (h : Spelled cs vs)
    (hrest : EndsRun goesOn rest) (hspells : Spells rest ws) :
    Spells (' ' :: (cs ++ rest)) (vs ++ ws) := by
  obtain ⟨c, run, rfl, hc, -⟩ := h.start
  exact .blank hc (h.spells hrest hspells)

/-- What stands before the type. -/
theorem spells_header (hrest : EndsRun isSignPart rest) (h : Spells rest ws) :
    Spells ("fn main() \x7b let x:".toList ++ rest)
      (.of .fnWord :: .name "main" :: .of .openParen :: .of .closeParen :: .of .openCurly ::
        .of .letWord :: .name "x" :: .of .colon :: ws) := by
  have hcolon := h.sign (k := .colon) (s := ":") (by decide) rfl hrest
  have hx := spelled_x.afterBlank (.cons (by decide) _) hcolon
  have hlet := (spelled_keyword (k := .letWord) (by decide) rfl (by decide)).afterBlank
    (.cons (by decide) _) hx
  have hopen := hlet.sign (k := .openCurly) (s := "\x7b") (by decide) rfl (.cons (by decide) _)
  have hclose := (Spells.blank (by decide) hopen).sign (k := .closeParen) (s := ")") (by decide) rfl
    (.cons (by decide) _)
  have hparen := hclose.sign (k := .openParen) (s := "(") (by decide) rfl (.cons (by decide) _)
  have hmain := (Spelled.name (s := "main") rfl (by decide) (List.all_eq_true.mp (by decide))
    (by decide)).afterBlank (.cons (by decide) _) hparen
  exact (spelled_keyword (k := .fnWord) (by decide) rfl (by decide)).spells
    (.cons (by decide) _) hmain

/-- What stands behind the value. -/
theorem spells_footer : Spells (';' :: " print(x) \x7d".toList)
    (.of .semicolon :: .of .printWord :: (grouped [.name "x"] ++ [.of .closeCurly])) := by
  have hcurly := Spells.nil.sign (k := .closeCurly) (s := "\x7d") (by decide) rfl .nil
  have hclose := (Spells.blank (by decide) hcurly).sign (k := .closeParen) (s := ")") (by decide)
    rfl (.cons (by decide) _)
  have hx := spelled_x.spells (.cons (by decide) _) hclose
  have hopen := hx.sign (k := .openParen) (s := "(") (by decide) rfl (.cons (by decide) _)
  have hprint := (spelled_keyword (k := .printWord) (by decide) rfl (by decide)).afterBlank
    (.cons (by decide) _) hopen
  exact hprint.sign (k := .semicolon) (s := ";") (by decide) rfl (.cons (by decide) _)

/-- **The text of the program spells its words.** -/
theorem spells_printing {v : Value} {T : Ty} {t : TypeExpr} (ht : Spelled T.text.toList t.words)
    (hv : Spelled (v.format T).toList ws) :
    Spells (v.printing T).toList (mainWith (printingBlock t ws)) := by
  have hvalue := hv.afterBlank (.cons (by decide) _) spells_footer
  have hassign : Spells ('=' :: _) _ :=
    hvalue.sign (k := .assignment) (s := "=") (by decide) rfl (.cons (by decide) _)
  have htype := ht.afterBlank (.cons (by decide) _) (Spells.blank (by decide) hassign)
  have hall := spells_header (.cons (by decide) _) htype
  have hheader : "fn main() \x7b let x: ".toList = "fn main() \x7b let x:".toList ++ [' '] := rfl
  have hbetween : " = ".toList = [' ', '=', ' '] := rfl
  have hfooter : "; print(x) \x7d".toList = ';' :: " print(x) \x7d".toList := rfl
  unfold Value.printing mainWith printingBlock declarationWords
  simp only [String.toList_append, List.append_assoc, hheader, hbetween, hfooter,
    List.cons_append, List.nil_append]
  exact hall

end Stackling
