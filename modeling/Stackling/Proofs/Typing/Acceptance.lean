import Stackling.Proofs.Syntax.Numbering
import Stackling.Proofs.Typing.Programs

/-
  File:     Stackling/Proofs/Typing/Acceptance.lean
  Subject:  The analysis accepts exactly what the typing rules accept.

  The rows of a derivation are numbered like the expressions of the program. A program that
  was read gives each expression a number of its own, so that the table filed by the analysis
  holds one row for each expression, the one of the derivation.

  * `ProgramTyped.ids`         -- the rows of a derivation name all expressions;
  * `TypeTable.find?_fileAll`  -- the table finds what was filed;
  * `typeCheck_iff_typed`      -- acceptance and derivations;
  * `ids_keys`                 -- the numbers of expressions are the keys of the table.
-/
namespace Stackling

/-! ## 1. The rows of a derivation -/

mutual
/-- The rows of an expression name the expression and all expressions in it. -/
theorem ExprTyped.ids {Γ : Context} {wanted : Option Ty} {ty : Ty} {rows : Rows} :
    (e : Expr) → ExprTyped Γ wanted e ty rows → rows.map (·.1) = e.ids
  | .int .., .int | .text .., .text | .char .., .char | .bool .., .bool | .name .., .name _ => by
    rw [Expr.ids]
    rfl
  | .binary _ _ left right, .binary hl hr _ => by
    rw [Expr.ids, List.map_append, List.map_append, ExprTyped.ids left hl, ExprTyped.ids right hr]
    rfl
  | .array _ [], .emptyArray _ => by
    rw [Expr.ids, itemIds]
    rfl
  | .array _ (first :: rest), .array hf _ hr => by
    rw [Expr.ids, itemIds, List.map_append, List.map_append, ExprTyped.ids first hf,
      ItemsTyped.ids rest hr]
    rfl
  | .hash _ [], .emptyHash _ => by
    rw [Expr.ids, entryIds]
    rfl
  | .hash _ ((firstKey, firstValue) :: rest), .hash hk hv _ _ hr => by
    rw [Expr.ids, entryIds, List.map_append, List.map_append, List.map_append,
      ExprTyped.ids firstKey hk, ExprTyped.ids firstValue hv, EntriesTyped.ids rest hr]
    rfl
  | .fn _ _ _ (.mk body _), .fn _ _ hb _ => by
    rw [Expr.ids, Block.ids, List.map_append, StmtsTyped.ids body hb]
    rfl
  | .index _ target key, .indexArray ht hk | .index _ target key, .indexHash ht hk => by
    rw [Expr.ids, List.map_append, List.map_append, ExprTyped.ids target ht, ExprTyped.ids key hk]
    rfl
  | .call _ (.name _ _) args, .callBuiltin _ ha _ => by
    rw [Expr.ids, Expr.ids, List.map_append, List.map_append, BuiltinArgsTyped.ids args ha]
    rfl
  | .call _ callee args, .call _ hc ha => by
    rw [Expr.ids, List.map_append, List.map_append, ExprTyped.ids callee hc, ArgsTyped.ids args ha]
    rfl

theorem ItemsTyped.ids {Γ : Context} {element : Ty} {rows : Rows} :
    (items : List Expr) → ItemsTyped Γ element items rows → rows.map (·.1) = itemIds items
  | [], .nil => by rw [itemIds, List.map_nil]
  | item :: rest, .cons hi hr => by
    rw [itemIds, List.map_append, ExprTyped.ids item hi, ItemsTyped.ids rest hr]

theorem EntriesTyped.ids {Γ : Context} {key value : Ty} {rows : Rows} :
    (entries : List (Expr × Expr)) → EntriesTyped Γ key value entries rows →
      rows.map (·.1) = entryIds entries
  | [], .nil => by rw [entryIds, List.map_nil]
  | (k, v) :: rest, .cons hk hv hr => by
    rw [entryIds, List.map_append, List.map_append, ExprTyped.ids k hk, ExprTyped.ids v hv,
      EntriesTyped.ids rest hr]

theorem ArgsTyped.ids {Γ : Context} {params : List Ty} {rows : Rows} :
    (args : List Expr) → ArgsTyped Γ params args rows → rows.map (·.1) = itemIds args
  | [], .nil => by rw [itemIds, List.map_nil]
  | arg :: rest, .cons ha hr => by
    rw [itemIds, List.map_append, ExprTyped.ids arg ha, ArgsTyped.ids rest hr]

theorem BuiltinArgsTyped.ids {Γ : Context} {b : Builtin} {first : Option Ty} {types : List Ty}
    {rows : Rows} : (args : List Expr) → BuiltinArgsTyped Γ b first args types rows →
      rows.map (·.1) = itemIds args
  | [], .nil => by rw [itemIds, List.map_nil]
  | arg :: rest, .cons ha hr => by
    rw [itemIds, List.map_append, ExprTyped.ids arg ha, BuiltinArgsTyped.ids rest hr]
termination_by structural args => args

/-- The rows of a statement name all expressions in it. -/
theorem StmtTyped.ids {Γ Γ' : Context} {returns : Option Ty} {rows : Rows} :
    (s : Stmt) → StmtTyped Γ returns s Γ' rows → rows.map (·.1) = s.ids
  | .declare _ _ _ _ value, .declare _ _ he _ => by rw [Stmt.ids, ExprTyped.ids value he]
  | .returns _ none, .returnsNothing => by rw [Stmt.ids, List.map_nil]
  | .returns _ (some value), .returns he => by rw [Stmt.ids, ExprTyped.ids value he]
  | .expr value, .expr he => by rw [Stmt.ids, ExprTyped.ids value he]
  | .branch _ condition (.mk yes _) none, .branch hc hy => by
    rw [Stmt.ids, Block.ids, List.map_append, ExprTyped.ids condition hc, StmtsTyped.ids yes hy]
  | .branch _ condition (.mk yes _) (some (.mk no _)), .branchElse hc hy hn => by
    rw [Stmt.ids, Block.ids, Block.ids, List.map_append, List.map_append,
      ExprTyped.ids condition hc, StmtsTyped.ids yes hy, StmtsTyped.ids no hn]
  | .print _ value, .print he _ => by rw [Stmt.ids, ExprTyped.ids value he]
  | .block (.mk body _), .block hb => by rw [Stmt.ids, Block.ids, StmtsTyped.ids body hb]

theorem StmtsTyped.ids {Γ Γ' : Context} {returns : Option Ty} {rows : Rows} :
    (body : List Stmt) → StmtsTyped Γ returns body Γ' rows → rows.map (·.1) = stmtIds body
  | [], .nil => by rw [stmtIds, List.map_nil]
  | s :: rest, .cons hs hr => by
    rw [stmtIds, List.map_append, StmtTyped.ids s hs, StmtsTyped.ids rest hr]
end

theorem FunctionsTyped.ids {globals : List (String × Entity)} {fs : List FunctionDecl}
    {rows : Rows} (h : FunctionsTyped globals fs rows) : rows.map (·.1) = functionIds fs := by
  induction h with
  | nil => rfl
  | cons hf _ ih =>
    obtain ⟨-, hb, -⟩ := hf
    rw [functionIds, List.map_append, StmtsTyped.ids _ hb, ih, Block.ids_eq]

/-- **The rows of a program name its expressions, each one in its place.** -/
theorem ProgramTyped.ids {p : Program} {rows : Rows} (h : ProgramTyped p rows) :
    rows.map (·.1) = p.ids := by
  obtain ⟨-, -, hg, hf, hm⟩ := h
  rw [Program.ids, List.map_append, List.map_append, StmtsTyped.ids _ hg, hf.ids,
    StmtsTyped.ids _ hm, Block.ids_eq]

/-! ## 2. The table -/

theorem lookup_eq_some_iff {rows : Rows} (h : (rows.map (·.1)).Nodup) {id : Nat} {ty : Ty} :
    rows.lookup id = some ty ↔ (id, ty) ∈ rows := by
  induction rows with
  | nil => simp
  | cons row rows ih =>
    obtain ⟨other, other'⟩ := row
    obtain ⟨hn, h⟩ := List.nodup_cons.mp h
    rw [List.lookup_cons]
    by_cases he : id = other
    · subst he
      have hm : (id, ty) ∉ rows := fun hm => hn (List.mem_map.mpr ⟨_, hm, rfl⟩)
      simp [hm, eq_comm]
    · have hb : (id == other) = false := by simpa using he
      simp [hb, ih h, he]

/-- **Rows with different numbers are found as they were filed.** -/
theorem TypeTable.find?_fileAll {rows : Rows} (h : (rows.map (·.1)).Nodup) {id : Nat} {ty : Ty} :
    (TypeTable.empty.fileAll rows).find? id = some ty ↔ (id, ty) ∈ rows := by
  have hr : (rows.reverse.map (·.1)).Nodup := by
    rw [List.map_reverse]
    exact List.nodup_reverse.mpr h
  simp only [TypeTable.find?, TypeTable.fileAll, TypeTable.empty, List.append_nil]
  rw [lookup_eq_some_iff hr, List.mem_reverse]

/-! ## 3. Acceptance -/

/-- **A program that was read has no diagnostic exactly if it is well typed,** and then the
    table holds the row of the derivation for each expression, and no other row. -/
theorem typeCheck_iff_typed {tokens : List Token} {p : Program} (h : parse tokens = .ok p) :
    ((∃ a, typeCheck p = .ok a ∧ a.diagnostics = []) ↔ ∃ rows, ProgramTyped p rows) ∧
      ∀ a rows, typeCheck p = .ok a → a.diagnostics = [] → ProgramTyped p rows →
        rows.map (·.1) = p.ids ∧ p.ids.Nodup ∧
          ∀ id ty, a.types.find? id = some ty ↔ (id, ty) ∈ rows := by
  refine ⟨⟨?_, ?_⟩, ?_⟩
  · rintro ⟨a, h₁, h₂⟩
    obtain ⟨rows, ht, -⟩ := typeCheck_accepts_iff.mp ⟨a, h₁, h₂, rfl⟩
    exact ⟨rows, ht⟩
  · rintro ⟨rows, ht⟩
    obtain ⟨a, h₁, h₂, -⟩ := typeCheck_accepts_iff.mpr ⟨rows, ht, rfl⟩
    exact ⟨a, h₁, h₂⟩
  · intro a rows h₁ h₂ ht
    obtain ⟨b, h₃, -, hb⟩ := typeCheck_accepts_iff.mpr ⟨rows, ht, rfl⟩
    obtain rfl : a = b := Except.ok.inj (h₁.symm.trans h₃)
    have hn : p.ids.Nodup := parse_nodup h
    refine ⟨ht.ids, hn, fun id ty => ?_⟩
    rw [hb, TypeTable.find?_fileAll (ht.ids ▸ hn)]

/-- The tokens of a program whose `main` declares an empty array and prints it. -/
def emptyArrayTokens : List Token :=
  [.blank .fnWord "fn", .blank .identifier "main", .blank .openParen "(", .blank .closeParen ")",
    .blank .openCurly "\x7b", .blank .letWord "let", .blank .identifier "x", .blank .colon ":",
    .blank .identifier "array", .blank .less "<", .blank .identifier "string",
    .blank .greater ">", .blank .assignment "=", .blank .openBracket "[",
    .blank .closeBracket "]", .blank .printWord "print", .blank .openParen "(",
    .blank .identifier "x", .blank .closeParen ")", .blank .closeCurly "\x7d"]

/-- The program is well typed, and its literal has taken over the declared type. -/
theorem emptyArray_typed : ∃ p rows, parse emptyArrayTokens = .ok p ∧ ProgramTyped p rows ∧
    (0, Ty.array .string) ∈ rows := by
  have h := @typeCheck_iff_typed emptyArrayTokens _ rfl
  obtain ⟨rows, ht⟩ := h.1.mp ⟨_, rfl, rfl⟩
  exact ⟨_, rows, rfl, ht, ((h.2 _ rows rfl rfl ht).2.2 0 _).mp rfl⟩

/-! ## 4. Keys -/

/-- **The numbers of the expressions are the keys of the table.** No two expressions that were read
    have the same one, and where nothing is reported, a type is filed under each of them, and under
    no other number. -/
theorem ids_keys {tokens : List Token} {p : Program} (h : parse tokens = .ok p) :
    p.ids.Nodup ∧ ∀ a, typeCheck p = .ok a → a.diagnostics = [] →
      ∀ id, (a.types.find? id).isSome ↔ id ∈ p.ids := by
  have hnodup : p.ids.Nodup := parse_nodup h
  refine ⟨hnodup, fun a ha hquiet id => ?_⟩
  obtain ⟨rows, ht, htypes⟩ := typeCheck_accepts_iff.mp ⟨a, ha, hquiet, rfl⟩
  have hfind : ∀ ty, a.types.find? id = some ty ↔ (id, ty) ∈ rows := fun ty => by
    rw [htypes, TypeTable.find?_fileAll (ht.ids ▸ hnodup)]
  rw [Option.isSome_iff_exists, ← ht.ids, List.mem_map]
  constructor
  · rintro ⟨ty, hty⟩
    exact ⟨(id, ty), (hfind ty).mp hty, rfl⟩
  · rintro ⟨⟨_, ty⟩, hrow, rfl⟩
    exact ⟨ty, (hfind ty).mpr hrow⟩

/-- The tokens of a program whose `main` calls a function literal that returns its parameter. -/
def literalTokens : List Token :=
  [.blank .fnWord "fn", .blank .identifier "main", .blank .openParen "(", .blank .closeParen ")",
    .blank .openCurly "\x7b", .blank .printWord "print", .blank .openParen "(",
    .blank .fnWord "fn", .blank .openParen "(", .blank .identifier "n", .blank .colon ":",
    .blank .identifier "int", .blank .closeParen ")", .blank .colon ":", .blank .identifier "int",
    .blank .openCurly "\x7b", .blank .returnWord "return", .blank .identifier "n",
    .blank .closeCurly "\x7d", .blank .openParen "(", .blank .number "7", .blank .closeParen ")",
    .blank .closeParen ")", .blank .closeCurly "\x7d"]

/-- The literal comes behind its body, and the call behind the argument. -/
theorem literal_keys : ∃ p a, parse literalTokens = .ok p ∧ p.ids = [0, 1, 2, 3] ∧
    typeCheck p = .ok a ∧ a.diagnostics = [] ∧ ∀ id, (a.types.find? id).isSome ↔ id ∈ p.ids :=
  ⟨_, _, rfl, rfl, rfl, rfl, (@ids_keys literalTokens _ rfl).2 _ rfl rfl⟩

end Stackling
