import Stackling.Proofs.Run.Correctness
import Stackling.Proofs.Syntax.PlainValues
import Stackling.Proofs.Syntax.TypeTexts
import Stackling.Proofs.Typing.Acceptance

/-
  File:     Stackling/Proofs/Run/Printed.lean
  Subject:  What is printed is source of the same value.

  The printed form of a plain value is read as an expression that has the value again. Its type
  comes out as it was where that type is expected: an empty literal takes over the expected
  type, at any depth.

  * `Expr.Denotes`         -- an expression that has a value, of a type;
  * `Value.Plain.reads`    -- the words of a value are read as such an expression;
  * `Block.Prints`         -- a block that declares such an expression and prints it;
  * `compile_printing`     -- the program around it is accepted, and prints what it was written as.
-/
namespace Stackling

open Text

variable {v : Value} {T element key value : Ty}

/-! ## 1. Expressions with a value -/

/-- **An expression has the value** in every program, and has the type where it is expected. -/
structure Expr.Denotes (x : Expr) (v : Value) (T : Ty) : Prop where
  typed : ∀ Γ, ∃ rows, ExprTyped Γ (some T) x T rows
  value : ∀ p call env, evalExpr p call env x = pure v

theorem Value.Plain.ne_void (h : v.Plain T) : T ≠ .void := by
  rintro rfl
  cases h

/-- Items after the first one. -/
theorem items_typed {xs : List Expr} {vs : List Value}
    (h : List.Forall₂ (fun x v => x.Denotes v element) xs vs) (Γ : Context) :
    ∃ rows, ItemsTyped Γ element xs rows := by
  induction h with
  | nil => exact ⟨_, .nil⟩
  | cons hx _ ih =>
    obtain ⟨rows, hx⟩ := hx.typed Γ
    obtain ⟨rows', ih⟩ := ih
    exact ⟨_, .cons hx ih⟩

theorem evalAll_items {xs : List Expr} {vs : List Value}
    (h : List.Forall₂ (fun x v => x.Denotes v element) xs vs) (p : Program)
    (call : UnitId → List Value → Eval Value) (env : Env) :
    evalAll p call env xs = pure vs := by
  induction h with
  | nil => rfl
  | cons hx _ ih => rw [evalAll, hx.value, pure_bind, ih, pure_bind]

/-- **An array of expressions with values** has the array of the values. -/
theorem denotes_array {items : List Value} (h : ∀ v ∈ items, v.Plain element) {node : Node}
    {xs : List Expr} (hxs : List.Forall₂ (fun x v => x.Denotes v element) xs items) :
    (Expr.array node xs).Denotes (.array items) (.array element) where
  typed Γ := by
    cases hxs with
    | nil => exact ⟨_, .emptyArray rfl⟩
    | cons hx hxs =>
      obtain ⟨rows, hx⟩ := hx.typed Γ
      obtain ⟨rows', hxs⟩ := items_typed hxs Γ
      exact ⟨_, .array hx (h _ List.mem_cons_self).ne_void hxs⟩
  value p call env := by rw [evalExpr, evalAll_items hxs, pure_bind]

/-- A key and a value with the key and the value of an entry. -/
structure EntryDenotes (key value : Ty) (x : Expr × Expr) (e : HashKey × Value) : Prop where
  key : x.1.Denotes e.1.value key
  value : x.2.Denotes e.2 value

theorem entries_typed {xs : List (Expr × Expr)} {es : List (HashKey × Value)}
    (h : List.Forall₂ (EntryDenotes key value) xs es) (Γ : Context) :
    ∃ rows, EntriesTyped Γ key value xs rows := by
  induction h with
  | nil => exact ⟨_, .nil⟩
  | cons hx _ ih =>
    obtain ⟨rows, hk⟩ := hx.key.typed Γ
    obtain ⟨rows', hv⟩ := hx.value.typed Γ
    obtain ⟨rows'', ih⟩ := ih
    exact ⟨_, .cons hk hv ih⟩

theorem evalEntries_pairs {xs : List (Expr × Expr)} {es before : List (HashKey × Value)}
    (h : List.Forall₂ (EntryDenotes key value) xs es) (hd : ((before ++ es).map (·.1)).Nodup)
    (p : Program) (call : UnitId → List Value → Eval Value) (env : Env) :
    evalEntries p call env before xs = pure (before ++ es) := by
  induction h generalizing before with
  | nil => rw [evalEntries, List.append_nil]
  | @cons x e xs es hx _ ih =>
    have hnew : e.1 ∉ before.map (·.1) := by
      rw [List.map_append, List.map_cons] at hd
      exact fun hm => List.disjoint_of_nodup_append hd hm List.mem_cons_self
    rw [List.append_cons] at hd ⊢
    rw [evalEntries, hx.key.value, pure_bind, hx.value.value, pure_bind, HashKey.key?_value]
    show evalEntries p call env (insertEntry e.1 e.2 before) xs = _
    -- an entry with a new key stands last
    have hlast := insertEntry_append hnew e.2 []
    rw [List.append_nil] at hlast
    rw [hlast]
    exact ih hd

/-- **A hash of expressions with the keys and the values** has the hash of these. -/
theorem denotes_hash (hkey : key = .int ∨ key = .string) {entries : List (HashKey × Value)}
    (hd : (entries.map (·.1)).Nodup) (hv : ∀ e ∈ entries, e.2.Plain value) {node : Node}
    {xs : List (Expr × Expr)} (hxs : List.Forall₂ (EntryDenotes key value) xs entries) :
    (Expr.hash node xs).Denotes (.hash entries) (.hash key value) where
  typed Γ := by
    cases hxs with
    | nil => exact ⟨_, .emptyHash rfl⟩
    | cons hx hxs =>
      obtain ⟨rows, hkx⟩ := hx.key.typed Γ
      obtain ⟨rows', hvx⟩ := hx.value.typed Γ
      obtain ⟨rows'', hxs⟩ := entries_typed hxs Γ
      exact ⟨_, .hash hkx hvx hkey (hv _ List.mem_cons_self).ne_void hxs⟩
  value p call env := by
    have hentries := @evalEntries_pairs key value _ _ [] hxs hd p call env
    rw [evalExpr, hentries, pure_bind, List.nil_append]

/-! ## 2. The words of a value -/

/-- A number, a text, a character or a truth value has the value that its word says. -/
theorem PrimaryWord.denotes {w : Word} {e : Expr} (h : PrimaryWord w e) (he : e.Denotes v T)
    (hw : w.kind ≠ .identifier) : ReadsAs [w] fun x => x.Denotes v T := by
  refine ReadsAs.mono (primary_expr h) fun x hx => ?_
  obtain ⟨htyped, hvalue⟩ := he
  cases h with
  | name => exact absurd rfl hw
  | int | text | char | true | false =>
    cases x <;> cases hx
    refine ⟨fun Γ => ?_, fun p call env => ?_⟩
    · obtain ⟨rows, ht⟩ := htyped Γ
      cases ht
      exact ⟨_, by constructor⟩
    · exact hvalue p call env

theorem reads_bool (b : Bool) :
    ReadsAs ((Value.ofBool b).words .bool) fun x => x.Denotes (.ofBool b) .bool := by
  cases b
  · exact (PrimaryWord.false .blank).denotes ⟨fun _ => ⟨_, .bool⟩, fun _ _ _ => rfl⟩ nofun
  · exact (PrimaryWord.true .blank).denotes ⟨fun _ => ⟨_, .bool⟩, fun _ _ _ => rfl⟩ nofun

/-- A value starts with a word that an expression starts with. -/
theorem Value.Plain.head? (h : v.Plain T) :
    (Grammar.standard.head? (firstKind (v.words T))).isSome = true := by
  cases h with
  | bool b => cases b <;> rfl
  | int | char | text | array | hash => rw [Value.words] <;> first | rfl | rintro ⟨⟩

theorem ne_nil_of_head? {ws : List Word}
    (h : (Grammar.standard.head? (firstKind ws)).isSome = true) : ws ≠ [] := by
  rintro rfl
  cases h

theorem open_of_head? {ws : List Word} {closing : TokenKind}
    (h : (Grammar.standard.head? (firstKind ws)).isSome = true)
    (hc : Grammar.standard.head? closing = none) : firstKind ws ≠ closing := by
  rintro rfl
  rw [hc] at h
  cases h

/-- The words of a value are read as an expression that has it. -/
def Value.ReadBack (v : Value) (T : Ty) : Prop := ReadsAs (v.words T) fun x => x.Denotes v T

theorem reads_items {items : List Value} (h : ∀ v ∈ items, v.Plain element)
    (hr : ∀ v ∈ items, v.ReadBack element) :
    List.Forall₂ (ReadsPart (exprWith · .default) .closeBracket fun x v => x.Denotes v element)
      (valueWords element items) items := by
  induction items with
  | nil => exact .nil
  | cons v items ih =>
    obtain ⟨hv, h⟩ := List.forall_mem_cons.mp h
    obtain ⟨hrv, hr⟩ := List.forall_mem_cons.mp hr
    refine .cons (ReadsAs.part ?_ (ne_nil_of_head? hv.head?) (open_of_head? hv.head? rfl) rfl)
      (ih h hr)
    exact hrv

theorem reads_pairs (hkey : key = .int ∨ key = .string) {entries : List (HashKey × Value)}
    (hk : ∀ e ∈ entries, e.1.value.Plain key) (hrk : ∀ e ∈ entries, e.1.value.ReadBack key)
    (hrv : ∀ e ∈ entries, e.2.ReadBack value) :
    List.Forall₂ (ReadsPart entryWith .closeCurly (EntryDenotes key value))
      (pairWords value entries) entries := by
  induction entries with
  | nil => exact .nil
  | cons e entries ih =>
    obtain ⟨hke, hk⟩ := List.forall_mem_cons.mp hk
    obtain ⟨hrke, hrk⟩ := List.forall_mem_cons.mp hrk
    obtain ⟨hrve, hrv⟩ := List.forall_mem_cons.mp hrv
    have hhead := hke.head?
    rw [HashKey.words_value hkey] at hhead
    rw [Value.ReadBack, HashKey.words_value hkey] at hrke
    exact .cons (entryAs_part hrke hrve (ne_nil_of_head? hhead) (open_of_head? hhead rfl)
      fun _ _ hk hv => ⟨hk, hv⟩) (ih hk hrk hrv)

/-- **The words of a plain value are read as an expression that has the value.** -/
theorem Value.Plain.reads (h : v.Plain T) : v.ReadBack T := by
  induction h with
  | int h => exact (PrimaryWord.int .blank h).denotes ⟨fun _ => ⟨_, .int⟩, fun _ _ _ => rfl⟩ nofun
  | bool b => exact reads_bool b
  | char => exact (PrimaryWord.char .blank _).denotes ⟨fun _ => ⟨_, .char⟩, fun _ _ _ => rfl⟩ nofun
  | text => exact (PrimaryWord.text .blank _).denotes ⟨fun _ => ⟨_, .text⟩, fun _ _ _ => rfl⟩ nofun
  | array h ih =>
    rw [ReadBack, Value.words]
    refine (array_as (reads_items h ih)).mono ?_
    rintro _ ⟨node, xs, rfl, hxs⟩
    exact denotes_array h hxs
  | hash hkey hd hk hv ihk ihv =>
    rw [ReadBack, Value.words]
    refine (hash_as (reads_pairs hkey hk ihk ihv)).mono ?_
    rintro _ ⟨node, xs, rfl, hxs⟩
    exact denotes_hash hkey hd hv hxs

/-! ## 3. The program -/

/-- **A block that declares `x`** with a value and prints it. -/
def Block.Prints (b : Block) (t : TypeExpr) (v : Value) : Prop :=
  ∃ span x span' node span'', x.Denotes v t.toTy ∧
    b = .mk [.declare span false "x" t x, .print span' (.name node "x")] span''

/-- The statement that prints `x` is read. -/
theorem stmts_print {fuel : Nat} (hfuel : 32 ≤ fuel) {rest : List Word}
    (hrest : firstKind rest = .closeCurly) :
    Reads (stmtsWith (fuel + 2)) (Word.of .printWord :: grouped [.name "x"]) rest fun xs =>
      ∃ span node, xs = [.print span (.name node "x")] := by
  have hname : ReadsAs [.name "x"] fun x => x.bare = (Expr.name .blank "x").bare :=
    primary_expr (.name .blank "x")
  have hstmt : Reads (stmtWith (fuel + 1)) (Word.of .printWord :: grouped [.name "x"]) rest _ :=
    bareStmt_as (List.cons_ne_nil _ _) (print_as hname hfuel rest) (by rw [hrest]; decide)
  rw [← List.append_nil (Word.of .printWord :: grouped [.name "x"])]
  refine stmts_step (List.cons_ne_nil _ _) nofun hstmt ?_
  rintro _ ⟨span, x, rfl, hx⟩
  refine (stmts_end hrest).mono fun xs hxs => ?_
  cases x <;> cases hx
  exact ⟨span, _, by rw [hxs]⟩

/-- **The block is read from its words.** -/
theorem readBlock_printing {t : TypeExpr} {ws : List Word}
    (h : ReadsAs ws fun x => x.Denotes v t.toTy) (rest : List Word) :
    Reads readBlock (printingBlock t ws) rest fun b => b.Prints t v := by
  refine Reads.look fun s hs => ?_
  have hbudget := hs.budget
  simp only [printingBlock, List.length_cons, List.length_append, length_grouped,
    List.length_nil] at hbudget
  obtain ⟨fuel, hfuel⟩ := Nat.exists_eq_add_of_le' (by omega : 4 ≤ s.budget)
  have hdeclare : ∀ rest, Reads (stmtWith (fuel + 2))
      (declarationWords false "x" t ws ++ [Word.of .semicolon]) rest fun d =>
        ∃ span x, d = .declare span false "x" t x ∧ x.Denotes v t.toTy := fun rest =>
    stmt_as (List.cons_ne_nil _ _) (declare_as h false "x" t (by omega) (.of rfl rfl))
  have hstmts : Reads (stmtsWith (fuel + 3)) (declarationWords false "x" t ws ++
      [Word.of .semicolon] ++ Word.of .printWord :: grouped [.name "x"])
      (Word.of .closeCurly :: rest) fun xs => ∃ span x span' node, x.Denotes v t.toTy ∧
        xs = [.declare span false "x" t x, .print span' (.name node "x")] := by
    refine stmts_step (List.cons_ne_nil _ _) nofun (hdeclare _) ?_
    rintro _ ⟨span, x, rfl, hx⟩
    refine (stmts_print (by omega) rfl).mono ?_
    rintro _ ⟨span', node, rfl⟩
    exact ⟨span, x, span', node, hx, rfl⟩
  rw [hfuel]
  refine (block_as hstmts).mono ?_
  rintro _ ⟨_, span'', rfl, span, x, span', node, hx, rfl⟩
  exact ⟨span, x, span', node, span'', hx, rfl⟩

/-- A plain type is proper. -/
theorem Ty.Plain.proper (h : T.Plain) : T.Proper ∧ T ≠ .void := by
  induction h with
  | int => exact ⟨.int, by rintro ⟨⟩⟩
  | bool => exact ⟨.bool, by rintro ⟨⟩⟩
  | char => exact ⟨.char, by rintro ⟨⟩⟩
  | string => exact ⟨.string, by rintro ⟨⟩⟩
  | array _ ih => exact ⟨.array ih.1 ih.2, by rintro ⟨⟩⟩
  | hash hk _ ih => exact ⟨.hash hk ih.1 ih.2, by rintro ⟨⟩⟩

section

variable {p : Program} {t : TypeExpr} {types : TypeTable}

/-- **The program is well typed,** and `x` has the declared type where it is printed. -/
theorem Block.Prints.typed (hf : p.functions = []) (hg : p.globals = [])
    (hm : p.main.Prints t v) (ht : t.toTy.Plain) : ∃ rows, ProgramTyped p rows ∧
      ∃ span x span' node span'', x.Denotes v t.toTy ∧ (node.id, t.toTy) ∈ rows ∧
        p.main = .mk [.declare span false "x" t x, .print span' (.name node "x")] span'' := by
  obtain ⟨span, x, span', node, span'', hx, hmain⟩ := hm
  obtain ⟨hproper, hvoid⟩ := ht.proper
  obtain ⟨rows, htyped⟩ := hx.typed ⟨[[]], [], builtinEntries⟩
  have hentries : p.entries = builtinEntries := by
    rw [Program.entries, hf]
    rfl
  have hbody : StmtsTyped ⟨[[]], [], builtinEntries⟩ (some .void) p.main.body
      ⟨[[("x", t.toTy)]], [], builtinEntries⟩ (rows ++ ([(node.id, t.toTy)] ++ [])) := by
    rw [hmain]
    have hfind : Context.find? ⟨[[("x", t.toTy)]], [], builtinEntries⟩ "x" =
        some (.value t.toTy) := rfl
    refine .cons (.declare hproper hvoid htyped (.local rfl)) (.cons ?_ .nil)
    exact .print (.name hfind) hvoid
  have hglobals : StmtsTyped ⟨[], [], p.entries⟩ none p.globals ⟨[], [], builtinEntries⟩ [] := by
    rw [hg, hentries]
    exact .nil
  have hfunctions : FunctionsTyped builtinEntries p.functions [] := by
    rw [hf]
    exact .nil
  have hreturns : ∀ f ∈ p.functions, f.returns.toTy.Proper := by
    rw [hf]
    exact List.forall_mem_nil _
  have hnames : (p.entries.map (·.1)).Nodup := hentries ▸ nodup_builtinEntries
  exact ⟨_, .mk hreturns hnames hglobals hfunctions hbody, span, x, span', node, span'', hx,
    by simp, hmain⟩

/-- The block writes the value. -/
theorem evalStmts_prints {span span' : Span} {x : Expr} {node : Node} (hx : x.Denotes v T)
    (htypes : types.find? node.id = some T) (call : UnitId → List Value → Eval Value) :
    evalStmts p call types [[]] [.declare span false "x" t x, .print span' (.name node "x")] =
      (do Eval.writeLine (v.format T); return .next [[("x", v)]]) := by
  have hdeclare : declare [[]] "x" v = pure [[("x", v)]] := rfl
  have hname : evalName p [[("x", v)]] "x" = pure v := rfl
  have hget : Eval.get? (types.find? (Expr.name node "x").id) = pure T := by
    rw [show (Expr.name node "x").id = node.id from rfl, htypes]
    rfl
  simp only [evalStmts, evalStmt, evalExpr, hx.value, hdeclare, hname, hget, pure_bind, bind_assoc]

/-- **The program prints the value,** given a frame for `main` beside its own. -/
theorem Block.Prints.evaluate {span span' span'' : Span} {x : Expr} {node : Node}
    (hg : p.globals = []) (hx : x.Denotes v T)
    (hm : p.main = .mk [.declare span false "x" t x, .print span' (.name node "x")] span'')
    (htypes : types.find? node.id = some T) {limit : Nat} (hlimit : 2 ≤ limit) :
    p.evaluate types limit .unbounded = some ⟨.done, ⟨none, (v.format T ++ "\n").toUTF8⟩⟩ := by
  obtain ⟨left, rfl⟩ := Nat.exists_eq_add_of_le' hlimit
  have hglobals : p.call types (left + 2) (left + 1) p.globalsUnit [] = pure .void := by
    rw [Program.call, Program.callable_globals]
    show (do return (← evalStmts p _ types [] p.globals).result) = _
    rw [hg]
    rfl
  have hmain : p.call types (left + 2) (left + 1) p.mainUnit [] =
      (do Eval.writeLine (v.format T); return .void) := by
    rw [Program.call, Program.callable_main]
    show (do return (← evalStmts p _ types [[]] p.main.body).result) = _
    rw [hm, Block.body, evalStmts_prints hx htypes, bind_assoc]
    rfl
  have hstart : p.start types (left + 2) (left + 2) = Eval.writeLine (v.format T) := by
    rw [Program.start, hglobals, hmain, pure_bind, bind_assoc]
    exact bind_pure _
  have hwrite : Eval.writeLine (v.format T) ⟨[], .unbounded⟩ =
      .ok ((), ⟨[], ⟨none, (v.format T ++ "\n").toUTF8⟩⟩) := by
    have hempty : ByteArray.empty ++ (v.format T ++ "\n").toUTF8 = (v.format T ++ "\n").toUTF8 :=
      ByteArray.empty_append
    rw [Eval.writeLine, Sink.unbounded, Sink.new, Sink.write_unbounded, hempty]
  rw [Program.evaluate, hstart, hwrite]

end

/-! ## 4. From the text to the output -/

/-- Whether a type is one of arrays or of hashes. -/
def Ty.isCollection : Ty → Bool
  | array _ | hash .. => true
  | _ => false

/-- A collection is printed as it stands inside another value. -/
theorem Value.Plain.format_eq (h : v.Plain T) (hc : T.isCollection = true) :
    v.format T = v.formatIn true T := by
  cases h with
  | int | bool | char | text => cases hc
  | array | hash => rw [format, formatIn, formatIn]

/-- **The text is read as the program.** -/
theorem parse_printing {t : TypeExpr} (ht : Spelled t.toTy.text.toList t.words)
    (hc : t.toTy.isCollection = true) (hv : v.Plain t.toTy) :
    ∃ tokens p, tokenize (v.printing t.toTy) = .ok tokens ∧ parse tokens = .ok p ∧
      p.functions = [] ∧ p.globals = [] ∧ p.main.Prints t v := by
  have hspelled : Spelled (v.format t.toTy).toList (v.words t.toTy) := by
    rw [hv.format_eq hc]
    exact hv.spelled
  obtain ⟨tokens, htokens, hshows⟩ := (spells_printing ht hspelled).shows
  have hreads := readProgram_main rfl (readBlock_printing hv.reads [])
  obtain ⟨p, s, hp, ⟨hf, hg, hmain⟩, -⟩ := hreads _ (by rwa [List.append_nil])
  have hparse : parse tokens = .ok p := by rw [parse, Parse.result, EStateM.run, hp]
  exact ⟨tokens, p, htokens, hparse, hf, hg, hmain⟩

/-- **What is printed is source of the same value.** For every array or hash type of integers,
    truth values, characters and strings, at any depth, and every value of the type without
    negative numbers and without escapes by number, a program that declares the value as it is
    printed is accepted, and with two frames or more it prints just that and a newline. -/
theorem compile_printing (hT : T.Plain) (hc : T.isCollection = true) (hv : v.Plain T)
    (options : Options) :
    ∃ code, compile (v.printing T) options = .ok code ∧
      (2 ≤ options.maxCallDepth → options.dump = false →
        run (v.printing T) options .unbounded =
          (.ok (), ⟨none, (v.format T ++ "\n").toUTF8⟩)) := by
  obtain ⟨t, rfl, ht⟩ := T.spelled
  obtain ⟨tokens, p, htokens, hparse, hf, hg, hmain⟩ := parse_printing ht hc hv
  obtain ⟨rows, htyped, span, x, span', node, span'', hx, hrow, hmain⟩ := hmain.typed hf hg hT
  obtain ⟨hiff, hfiled⟩ := typeCheck_iff_typed hparse
  obtain ⟨a, ha, hd⟩ := hiff.mpr ⟨rows, htyped⟩
  obtain ⟨hids, hnodup, hfind⟩ := hfiled a rows ha hd htyped
  obtain ⟨code, hcode⟩ := Compiled.of_accepted hnodup (analyze_of_accepted ha hd)
  have hcompile : compile (v.printing t.toTy) options = .ok code := by
    rw [compile, parseSource, readText, htokens]
    show (do
      let program ← (parse tokens).mapError (Failure.syntaxError options.file)
      let types ← analyze program
      (generate program types).mapError .generation) = _
    rw [hparse]
    show (analyze p >>= fun types => (generate p types).mapError Failure.generation) = _
    rw [analyze_of_accepted ha hd]
    show (generate p a.types).mapError Failure.generation = _
    rw [hcode.generated]
    rfl
  refine ⟨code, hcompile, fun hlimit hdump => ?_⟩
  have heval := Block.Prints.evaluate hg hx hmain ((hfind _ _).mpr hrow) hlimit
  rw [hcode.evaluates, Option.some.injEq] at heval
  rw [run, hcompile]
  show runCode code options .unbounded = _
  rw [runCode, hdump]
  show ((execute code options.maxCallDepth .unbounded).ending.result,
    (execute code options.maxCallDepth .unbounded).sink) = _
  rw [heval]
  rfl

/-- A text with a quote and a newline for a key, and empty literals inside others. -/
def nestedValue : Value :=
  .hash [(.text "\x22\n", .array [.hash [], .hash [(.int 7, .char '\x27')]]), (.text "", .array [])]

def nestedType : Ty := .hash .string (.array (.hash .int .char))

theorem nestedValue_plain : nestedValue.Plain nestedType := by
  have hlegible : ∀ c ∈ "\x22\n".toList, Legible c :=
    List.forall_mem_cons.mpr ⟨.inr (by decide), List.forall_mem_singleton.mpr (.inl (by decide))⟩
  have hchar : (Value.hash [(.int 7, .char '\x27')]).Plain (.hash .int .char) :=
    .hash (.inl rfl) (by decide) (List.forall_mem_singleton.mpr (.int (by decide)))
      (List.forall_mem_singleton.mpr (.char (.inr (by decide))))
  have hitems : ∀ v ∈ [Value.hash [], .hash [(.int 7, .char '\x27')]],
      v.Plain (.hash .int .char) :=
    List.forall_mem_cons.mpr ⟨.hash (.inl rfl) (by decide) (List.forall_mem_nil _)
      (List.forall_mem_nil _), List.forall_mem_singleton.mpr hchar⟩
  refine .hash (.inr rfl) (by decide) ?_ ?_
  · exact List.forall_mem_cons.mpr
      ⟨.text hlegible, List.forall_mem_singleton.mpr (.text (List.forall_mem_nil _))⟩
  · exact List.forall_mem_cons.mpr
      ⟨.array hitems, List.forall_mem_singleton.mpr (.array (List.forall_mem_nil _))⟩

/-- It is printed as it was written. -/
theorem nested_printing :
    nestedType.Plain ∧ nestedType.isCollection = true ∧ nestedValue.Plain nestedType ∧
      nestedValue.format nestedType =
        "\x7b\x22\\\x22\\n\x22: [\x7b\x7d, \x7b7: \x27\\\x27\x27\x7d], \x22\x22: []\x7d" ∧
      ∃ code, compile (nestedValue.printing nestedType) ⟨"nested", 2, false⟩ = .ok code ∧
        run (nestedValue.printing nestedType) ⟨"nested", 2, false⟩ .unbounded =
          (.ok (), ⟨none, (nestedValue.format nestedType ++ "\n").toUTF8⟩) := by
  have htype : nestedType.Plain := .hash (.inr rfl) (.array (.hash (.inl rfl) .char))
  obtain ⟨code, hcode, hrun⟩ := compile_printing htype rfl nestedValue_plain ⟨"nested", 2, false⟩
  exact ⟨htype, rfl, nestedValue_plain, by decide +kernel, code, hcode, hrun (Nat.le_refl 2) rfl⟩

end Stackling
