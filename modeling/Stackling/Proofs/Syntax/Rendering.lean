import Stackling.Proofs.Text.Decimal
import Stackling.Proofs.Token.Written
import Stackling.Syntax.Tree

/-
  File:     Stackling/Proofs/Syntax/Rendering.lean
  Subject:  Programs as text.

  A program is written with the functions first, then the statements at top level, then `main`.
  A semicolon stands after every statement, and every part of an expression, every expression
  that is a statement and every returned value stands in parentheses; whether the values of
  declarations, the conditions and the printed values do as well is left open (`enclose`).

  * `Expr.words`, `Stmt.words`, `Program.words` -- the words of a phrase;
  * `Program.render`                            -- the text of a program;
  * `Expr.bare`, `Stmt.bare`, `Program.bare`    -- a phrase without its places and numbers;
  * `Expr.Writable`, `Program.Writable`         -- the programs that can be written;
  * `Program.words_writable`                    -- their words can.
-/
namespace Stackling

/-! ## 1. Words -/

/-- The word of a kind that has only one text. -/
def Word.of (k : TokenKind) : Word := ⟨k, k.text?.getD ""⟩

def Word.name (s : String) : Word := ⟨.identifier, s⟩

/-- Words in parentheses. -/
def grouped (ws : List Word) : List Word := Word.of .openParen :: (ws ++ [Word.of .closeParen])

/-- Some lists of words with a comma between two of them. -/
def commaSeparated : List (List Word) → List Word
  | [] => []
  | [ws] => ws
  | ws :: rest => ws ++ Word.of .comma :: commaSeparated rest

theorem commaSeparated_cons (part part' : List Word) (rest : List (List Word)) :
    commaSeparated (part :: part' :: rest) =
      part ++ Word.of .comma :: commaSeparated (part' :: rest) := rfl

mutual
/-- The words of a type annotation. -/
def TypeExpr.words : TypeExpr → List Word
  | .int => [.name "int"]
  | .string => [.name "string"]
  | .bool => [.name "bool"]
  | .char => [.name "char"]
  | .void => [.name "void"]
  | .array element => .name "array" :: .of .less :: (element.words ++ [.of .greater])
  | .hash key value =>
    .name "hash" :: .of .less :: (key.words ++ .of .comma :: (value.words ++ [.of .greater]))
  | .fn params returns => .of .fnWord :: .of .openParen ::
      (commaSeparated (typeWords params) ++ .of .closeParen :: .of .colon :: returns.words)

def typeWords : List TypeExpr → List (List Word)
  | [] => []
  | t :: rest => t.words :: typeWords rest
end

def Param.words (p : Param) : List Word := .name p.name :: .of .colon :: p.written.words

/-- Parameters in their parentheses. -/
def paramWords (ps : List Param) : List Word := grouped (commaSeparated (ps.map Param.words))

section Phrases

variable (enclose : Bool)

mutual
/-- The words of an expression, without parentheses around it. -/
def Expr.words : Expr → List Word
  | .int _ value => [⟨.number, Text.decimal value⟩]
  | .text _ value => [⟨.text, value⟩]
  | .char _ value => [⟨.character, String.singleton value⟩]
  | .bool _ value => [.of (if value then .trueWord else .falseWord)]
  | .name _ value => [.name value]
  | .binary _ op left right => grouped left.words ++ .of op.kind :: grouped right.words
  | .array _ items =>
    .of .openBracket :: (commaSeparated (itemWords items) ++ [.of .closeBracket])
  | .hash _ entries =>
    .of .openCurly :: (commaSeparated (entryWords entries) ++ [.of .closeCurly])
  | .fn _ params returns body =>
    .of .fnWord :: (paramWords params ++ .of .colon :: (returns.words ++ body.words))
  | .index _ target key =>
    grouped target.words ++ .of .openBracket :: (grouped key.words ++ [.of .closeBracket])
  | .call _ callee args =>
    grouped callee.words ++ .of .openParen ::
      (commaSeparated (itemWords args) ++ [.of .closeParen])

def itemWords : List Expr → List (List Word)
  | [] => []
  | e :: rest => grouped e.words :: itemWords rest

def entryWords : List (Expr × Expr) → List (List Word)
  | [] => []
  | (k, v) :: rest => (grouped k.words ++ .of .colon :: grouped v.words) :: entryWords rest

/-- The words of a statement without the semicolon. -/
def Stmt.words : Stmt → List Word
  | .declare _ constant name written value =>
    .of (if constant then .constWord else .letWord) :: .name name :: .of .colon ::
      (written.words ++ .of .assignment :: if enclose then grouped value.words else value.words)
  | .returns _ none => [.of .returnWord]
  | .returns _ (some value) => .of .returnWord :: grouped value.words
  | .expr value => grouped value.words
  | .branch _ condition yes none =>
    .of .ifWord :: ((if enclose then grouped condition.words else condition.words) ++ yes.words)
  | .branch _ condition yes (some no) =>
    .of .ifWord :: ((if enclose then grouped condition.words else condition.words) ++
      (yes.words ++ .of .elseWord :: no.words))
  | .print _ value =>
    .of .printWord :: grouped (if enclose then grouped value.words else value.words)
  | .block body => body.words

def Block.words : Block → List Word
  | .mk body _ => .of .openCurly :: (stmtWords body ++ [.of .closeCurly])

def stmtWords : List Stmt → List Word
  | [] => []
  | s :: rest => s.words ++ .of .semicolon :: stmtWords rest
end

def FunctionDecl.words (f : FunctionDecl) : List Word :=
  .of .fnWord :: .name f.name :: (paramWords f.params ++ .of .colon ::
    (f.returns.words ++ f.body.words enclose))

def functionWords : List FunctionDecl → List Word
  | [] => []
  | f :: rest => f.words enclose ++ functionWords rest

/-- The words of a program. -/
def Program.words (p : Program) : List Word :=
  functionWords enclose p.functions ++ (stmtWords enclose p.globals ++
    (.of .fnWord :: .name "main" :: (paramWords [] ++ p.main.words enclose)))

/-- The text of a program. -/
def Program.render (p : Program) : String := write (p.words enclose)

end Phrases

/-- A return with its value. -/
example : write ((Stmt.returns .blank (some (.binary ⟨0, .blank⟩ .add (.name ⟨1, .blank⟩ "n")
    (.int ⟨2, .blank⟩ 1)))).words false) =
    "return ( ( n ) + ( 1 ) )" := by decide

/-! ## 2. Phrases without places and numbers -/

def Node.blank : Node := ⟨0, .blank⟩

def Param.bare (p : Param) : Param := { p with span := .blank }

mutual
/-- An expression without places and numbers. -/
def Expr.bare : Expr → Expr
  | .int _ value => .int .blank value
  | .text _ value => .text .blank value
  | .char _ value => .char .blank value
  | .bool _ value => .bool .blank value
  | .name _ value => .name .blank value
  | .binary _ op left right => .binary .blank op left.bare right.bare
  | .array _ items => .array .blank (itemsBare items)
  | .hash _ entries => .hash .blank (entriesBare entries)
  | .fn _ params returns body => .fn .blank (params.map Param.bare) returns body.bare
  | .index _ target key => .index .blank target.bare key.bare
  | .call _ callee args => .call .blank callee.bare (itemsBare args)

def itemsBare : List Expr → List Expr
  | [] => []
  | e :: rest => e.bare :: itemsBare rest

def entriesBare : List (Expr × Expr) → List (Expr × Expr)
  | [] => []
  | (k, v) :: rest => (k.bare, v.bare) :: entriesBare rest

/-- A statement without places and numbers. -/
def Stmt.bare : Stmt → Stmt
  | .declare _ constant name written value => .declare .blank constant name written value.bare
  | .returns _ none => .returns .blank none
  | .returns _ (some value) => .returns .blank (some value.bare)
  | .expr value => .expr value.bare
  | .branch _ condition yes none => .branch .blank condition.bare yes.bare none
  | .branch _ condition yes (some no) => .branch .blank condition.bare yes.bare (some no.bare)
  | .print _ value => .print .blank value.bare
  | .block body => .block body.bare

def Block.bare : Block → Block
  | .mk body _ => .mk (stmtsBare body) .blank

def stmtsBare : List Stmt → List Stmt
  | [] => []
  | s :: rest => s.bare :: stmtsBare rest
end

theorem Stmt.bare_branch (span : Span) (condition : Expr) (yes : Block) (no : Option Block) :
    (Stmt.branch span condition yes no).bare =
      .branch .blank condition.bare yes.bare (no.map Block.bare) := by
  cases no <;> rw [Stmt.bare] <;> rfl

def FunctionDecl.bare (f : FunctionDecl) : FunctionDecl :=
  ⟨f.name, f.params.map Param.bare, f.returns, f.body.bare, .blank⟩

/-- **A program without places and numbers.** -/
def Program.bare (p : Program) : Program :=
  ⟨p.functions.map FunctionDecl.bare, stmtsBare p.globals, p.main.bare, .blank⟩

/-! ## 3. What can be written -/

mutual
/-- **An expression can be written** if its names are no keywords and its numbers are not
    negative. -/
def Expr.Writable : Expr → Prop
  | .int _ value => 0 ≤ value.toInt
  | .text .. | .char .. | .bool .. => True
  | .name _ value => isName value = true
  | .binary _ _ left right => left.Writable ∧ right.Writable
  | .array _ items => itemsWritable items
  | .hash _ entries => entriesWritable entries
  | .fn _ params _ body => (∀ p ∈ params, isName p.name = true) ∧ body.Writable
  | .index _ target key => target.Writable ∧ key.Writable
  | .call _ callee args => callee.Writable ∧ itemsWritable args

def itemsWritable : List Expr → Prop
  | [] => True
  | e :: rest => e.Writable ∧ itemsWritable rest

def entriesWritable : List (Expr × Expr) → Prop
  | [] => True
  | (k, v) :: rest => k.Writable ∧ v.Writable ∧ entriesWritable rest

/-- A statement can be written if the same holds for it. -/
def Stmt.Writable : Stmt → Prop
  | .declare _ _ name _ value => isName name = true ∧ value.Writable
  | .returns _ none => True
  | .returns _ (some value) | .expr value | .print _ value => value.Writable
  | .branch _ condition yes none => condition.Writable ∧ yes.Writable
  | .branch _ condition yes (some no) => condition.Writable ∧ yes.Writable ∧ no.Writable
  | .block body => body.Writable

def Block.Writable : Block → Prop
  | .mk body _ => stmtsWritable body

def stmtsWritable : List Stmt → Prop
  | [] => True
  | s :: rest => s.Writable ∧ stmtsWritable rest
end

/-- A function that is not called `main` can be written. -/
structure FunctionDecl.Writable (f : FunctionDecl) : Prop where
  name : isName f.name = true
  notMain : f.name ≠ "main"
  params : ∀ p ∈ f.params, isName p.name = true
  body : f.body.Writable

/-- **A program can be written.** -/
structure Program.Writable (p : Program) : Prop where
  functions : ∀ f ∈ p.functions, f.Writable
  globals : stmtsWritable p.globals
  main : p.main.Writable

/-! ## 4. The words of a program can be written -/

/-- All of some words can be written. -/
def AllWritable (ws : List Word) : Prop := ∀ w ∈ ws, w.Writable

namespace AllWritable

variable {ws ws' : List Word}

theorem nil : AllWritable [] := nofun

theorem cons {w : Word} (hw : w.Writable) (h : AllWritable ws) : AllWritable (w :: ws) :=
  List.forall_mem_cons.mpr ⟨hw, h⟩

theorem append (h : AllWritable ws) (h' : AllWritable ws') : AllWritable (ws ++ ws') :=
  List.forall_mem_append.mpr ⟨h, h'⟩

/-- A keyword or a sign in front. -/
theorem word {k : TokenKind} (hk : k.text?.isSome = true) (h : AllWritable ws) :
    AllWritable (.of k :: ws) := by
  obtain ⟨s, hs⟩ := Option.isSome_iff_exists.mp hk
  refine cons (.fixed ?_) h
  rw [hs]
  rfl

theorem name {s : String} (hs : isName s = true) (h : AllWritable ws) :
    AllWritable (.name s :: ws) := cons (.identifier hs) h

theorem grouped (h : AllWritable ws) : AllWritable (Stackling.grouped ws) :=
  word rfl (h.append (word rfl nil))

theorem enclosed (h : AllWritable ws) (enclose : Bool) :
    AllWritable (if enclose then Stackling.grouped ws else ws) := by
  cases enclose
  · exact h
  · exact h.grouped

theorem commaSeparated : (parts : List (List Word)) → (∀ part ∈ parts, AllWritable part) →
    AllWritable (Stackling.commaSeparated parts)
  | [], _ => nil
  | [part], h => h part List.mem_cons_self
  | part :: part' :: rest, h =>
    (h part List.mem_cons_self).append (word rfl (commaSeparated (part' :: rest)
      fun q hq => h q (List.mem_cons_of_mem _ hq)))

end AllWritable

mutual
theorem TypeExpr.words_writable : (t : TypeExpr) → AllWritable t.words
  | .int | .string | .bool | .char | .void => by
    rw [TypeExpr.words]
    exact .name (by decide) .nil
  | .array element => by
    rw [TypeExpr.words]
    exact .name (by decide) (.word rfl (element.words_writable.append (.word rfl .nil)))
  | .hash key value => by
    rw [TypeExpr.words]
    exact .name (by decide) (.word rfl (key.words_writable.append
      (.word rfl (value.words_writable.append (.word rfl .nil)))))
  | .fn params returns => by
    rw [TypeExpr.words]
    exact .word rfl (.word rfl ((AllWritable.commaSeparated _ (typeWords_writable params)).append
      (.word rfl (.word rfl returns.words_writable))))

theorem typeWords_writable : (ts : List TypeExpr) → ∀ part ∈ typeWords ts, AllWritable part
  | [] => nofun
  | t :: rest => List.forall_mem_cons.mpr ⟨t.words_writable, typeWords_writable rest⟩
end

theorem paramWords_writable {ps : List Param} (h : ∀ p ∈ ps, isName p.name = true) :
    AllWritable (paramWords ps) := by
  refine .grouped (.commaSeparated _ fun part hpart => ?_)
  obtain ⟨p, hp, rfl⟩ := List.mem_map.mp hpart
  exact .name (h p hp) (.word rfl p.written.words_writable)

variable (enclose : Bool)

mutual
theorem Expr.words_writable : (e : Expr) → e.Writable → AllWritable (e.words enclose)
  | .int _ value, h => by
    rw [Expr.words]
    rw [Expr.Writable] at h
    obtain ⟨n, -, hd⟩ := Text.exists_decimal h
    rw [hd]
    refine .cons (.number ?_ fun c hc => ?_) .nil
    · rw [Nat.toList_repr]
      exact Nat.toDigits_ne_nil
    · rw [Nat.toList_repr] at hc
      exact Text.isDigit_of_mem_toDigits hc
  | .text _ value, _ => by
    rw [Expr.words]
    exact .cons (.text value) .nil
  | .char _ value, _ => by
    rw [Expr.words]
    exact .cons (.character value) .nil
  | .bool _ value, _ => by
    rw [Expr.words]
    cases value <;> exact .word rfl .nil
  | .name _ value, h => by
    rw [Expr.words]
    rw [Expr.Writable] at h
    exact .name h .nil
  | .binary _ op left right, h => by
    rw [Expr.words]
    rw [Expr.Writable] at h
    have hop : op.kind.text?.isSome = true := by rw [op.kind_text?]; rfl
    exact (left.words_writable h.1).grouped.append (.word hop (right.words_writable h.2).grouped)
  | .array _ items, h => by
    rw [Expr.words]
    rw [Expr.Writable] at h
    exact .word rfl ((AllWritable.commaSeparated _ (itemWords_writable items h)).append
      (.word rfl .nil))
  | .hash _ entries, h => by
    rw [Expr.words]
    rw [Expr.Writable] at h
    exact .word rfl ((AllWritable.commaSeparated _ (entryWords_writable entries h)).append
      (.word rfl .nil))
  | .fn _ params returns body, h => by
    rw [Expr.words]
    rw [Expr.Writable] at h
    exact .word rfl ((paramWords_writable h.1).append (.word rfl
      (returns.words_writable.append (body.words_writable h.2))))
  | .index _ target key, h => by
    rw [Expr.words]
    rw [Expr.Writable] at h
    exact (target.words_writable h.1).grouped.append (.word rfl
      ((key.words_writable h.2).grouped.append (.word rfl .nil)))
  | .call _ callee args, h => by
    rw [Expr.words]
    rw [Expr.Writable] at h
    exact (callee.words_writable h.1).grouped.append (.word rfl
      ((AllWritable.commaSeparated _ (itemWords_writable args h.2)).append (.word rfl .nil)))

theorem itemWords_writable : (items : List Expr) → itemsWritable items →
    ∀ part ∈ itemWords enclose items, AllWritable part
  | [], _ => nofun
  | e :: rest, h => by
    rw [itemsWritable] at h
    exact List.forall_mem_cons.mpr
      ⟨(e.words_writable h.1).grouped, itemWords_writable rest h.2⟩

theorem entryWords_writable : (entries : List (Expr × Expr)) → entriesWritable entries →
    ∀ part ∈ entryWords enclose entries, AllWritable part
  | [], _ => nofun
  | (k, v) :: rest, h => by
    rw [entriesWritable] at h
    exact List.forall_mem_cons.mpr
      ⟨(k.words_writable h.1).grouped.append (.word rfl (v.words_writable h.2.1).grouped),
        entryWords_writable rest h.2.2⟩

theorem Stmt.words_writable : (s : Stmt) → s.Writable → AllWritable (s.words enclose)
  | .declare _ constant name written value, h => by
    rw [Stmt.words]
    rw [Stmt.Writable] at h
    have hrest := AllWritable.name h.1 (.word (k := .colon) rfl (written.words_writable.append
      (.word (k := .assignment) rfl ((value.words_writable h.2).enclosed enclose))))
    cases constant <;> exact .word rfl hrest
  | .returns _ none, _ => by
    rw [Stmt.words]
    exact .word rfl .nil
  | .returns _ (some value), h => by
    rw [Stmt.words]
    rw [Stmt.Writable] at h
    exact .word rfl (value.words_writable h).grouped
  | .expr value, h => by
    rw [Stmt.words]
    rw [Stmt.Writable] at h
    exact (value.words_writable h).grouped
  | .branch _ condition yes none, h => by
    rw [Stmt.words]
    rw [Stmt.Writable] at h
    exact .word rfl (((condition.words_writable h.1).enclosed enclose).append
      (yes.words_writable h.2))
  | .branch _ condition yes (some no), h => by
    rw [Stmt.words]
    rw [Stmt.Writable] at h
    exact .word rfl (((condition.words_writable h.1).enclosed enclose).append
      ((yes.words_writable h.2.1).append (.word rfl (no.words_writable h.2.2))))
  | .print _ value, h => by
    rw [Stmt.words]
    rw [Stmt.Writable] at h
    exact .word rfl ((value.words_writable h).enclosed enclose).grouped
  | .block body, h => by
    rw [Stmt.words]
    rw [Stmt.Writable] at h
    exact body.words_writable h

theorem Block.words_writable : (b : Block) → b.Writable → AllWritable (b.words enclose)
  | .mk body _, h => by
    rw [Block.words]
    rw [Block.Writable] at h
    exact .word rfl ((stmtWords_writable body h).append (.word rfl .nil))

theorem stmtWords_writable : (body : List Stmt) → stmtsWritable body →
    AllWritable (stmtWords enclose body)
  | [], _ => by
    rw [stmtWords]
    exact .nil
  | s :: rest, h => by
    rw [stmtWords]
    rw [stmtsWritable] at h
    exact (s.words_writable h.1).append (.word rfl (stmtWords_writable rest h.2))
end

theorem functionWords_writable {fs : List FunctionDecl} (h : ∀ f ∈ fs, f.Writable) :
    AllWritable (functionWords enclose fs) := by
  induction fs with
  | nil => exact .nil
  | cons f fs ih =>
    obtain ⟨hf, hfs⟩ := List.forall_mem_cons.mp h
    exact AllWritable.append (.word rfl (.name hf.name ((paramWords_writable hf.params).append
      (.word rfl (f.returns.words_writable.append (f.body.words_writable enclose hf.body))))))
      (ih hfs)

/-- **The words of a program can be written** if the program can. -/
theorem Program.words_writable {p : Program} (h : p.Writable) :
    AllWritable (p.words enclose) :=
  (functionWords_writable enclose h.functions).append
    ((stmtWords_writable enclose p.globals h.globals).append
      (.word rfl (.name (by decide) ((paramWords_writable (List.forall_mem_nil _)).append
        (p.main.words_writable enclose h.main)))))

end Stackling
