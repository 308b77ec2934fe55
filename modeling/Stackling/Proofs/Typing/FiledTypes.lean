import Mathlib.Data.List.Forall2
import Stackling.Proofs.Typing.Acceptance

/-
  File:     Stackling/Proofs/Typing/FiledTypes.lean
  Subject:  The types that are filed for the expressions of a program.

  The rows of a derivation go along with the expressions, each row with the expression it is
  about. So what is known of the type of one expression is known of every row, whether the type
  comes from an annotation, from a literal, from the place or from a built-in.

  * `Program.parts`         -- all expressions of a program, in the order of the rows;
  * `RowFor`                -- a row is about an expression, and gives it a type that may stand there;
  * `ExprTyped.rowsFor`     -- each row of an expression is about one of its parts;
  * `ProgramTyped.rowsFor`  -- the rows of a program are about all its expressions.
-/
namespace Stackling

/-! ## 1. The expressions of a program -/

mutual
/-- An expression and all expressions in it, each after its parts. -/
def Expr.parts : Expr → List Expr
  | .int node value => [.int node value]
  | .text node value => [.text node value]
  | .char node value => [.char node value]
  | .bool node value => [.bool node value]
  | .name node value => [.name node value]
  | .binary node op left right => left.parts ++ right.parts ++ [.binary node op left right]
  | .array node items => itemParts items ++ [.array node items]
  | .hash node entries => entryParts entries ++ [.hash node entries]
  | .fn node params returns body => body.parts ++ [.fn node params returns body]
  | .index node target key => target.parts ++ key.parts ++ [.index node target key]
  | .call node callee args => callee.parts ++ itemParts args ++ [.call node callee args]

/-- The expressions in a list of expressions. -/
def itemParts : List Expr → List Expr
  | [] => []
  | e :: rest => e.parts ++ itemParts rest

/-- The expressions in the entries of a hash. -/
def entryParts : List (Expr × Expr) → List Expr
  | [] => []
  | (k, v) :: rest => k.parts ++ v.parts ++ entryParts rest

/-- The expressions in a statement. -/
def Stmt.parts : Stmt → List Expr
  | .declare _ _ _ _ value | .expr value | .print _ value => value.parts
  | .returns _ none => []
  | .returns _ (some value) => value.parts
  | .branch _ condition yes none => condition.parts ++ yes.parts
  | .branch _ condition yes (some no) => condition.parts ++ yes.parts ++ no.parts
  | .block body => body.parts

/-- The expressions in a block. -/
def Block.parts : Block → List Expr
  | .mk body _ => stmtParts body

/-- The expressions in a list of statements. -/
def stmtParts : List Stmt → List Expr
  | [] => []
  | s :: rest => s.parts ++ stmtParts rest
end

/-- The expressions in the bodies of some functions. -/
def functionParts : List FunctionDecl → List Expr
  | [] => []
  | f :: rest => f.body.parts ++ functionParts rest

/-- **All expressions of a program.** -/
def Program.parts (p : Program) : List Expr :=
  stmtParts p.globals ++ functionParts p.functions ++ p.main.parts

theorem Block.parts_eq (b : Block) : b.parts = stmtParts b.body := by
  obtain ⟨body, span⟩ := b
  rw [Block.parts, Block.body]

/-! ## 2. Rows -/

/-- **A row is about an expression:** it has the number of the expression, and a proper type, which
    is `void` only if the expression is a call. -/
structure RowFor (e : Expr) (row : Nat × Ty) : Prop where
  id : row.1 = e.id
  proper : row.2.Proper
  value : row.2 = .void → ∃ node callee args, e = .call node callee args

/-- The name of a built-in that is called has the type of the built-in. -/
theorem RowFor.builtin (node : Node) (name : String) (b : Builtin) :
    RowFor (.name node name) (node.id, b.signature) := ⟨rfl, b.signature_proper, nofun⟩

/-- The rows are about the expressions, one about each. -/
abbrev RowsFor : List Expr → Rows → Prop := List.Forall₂ RowFor

namespace RowsFor

variable {es fs : List Expr} {rows rows' : Rows}

theorem append (h : RowsFor es rows) (h' : RowsFor fs rows') :
    RowsFor (es ++ fs) (rows ++ rows') := List.rel_append h h'

/-- The row of an expression stands behind those of its parts. -/
theorem push (h : RowsFor es rows) {e : Expr} {row : Nat × Ty} (he : RowFor e row) :
    RowsFor (es ++ [e]) (rows ++ [row]) := h.append (.cons he .nil)

/-- Every expression has a row. -/
theorem of_expr (h : RowsFor es rows) {e : Expr} (he : e ∈ es) : ∃ row ∈ rows, RowFor e row := by
  induction h with
  | nil => cases he
  | cons hrow _ ih =>
    rcases List.mem_cons.mp he with rfl | he
    · exact ⟨_, List.mem_cons_self, hrow⟩
    · obtain ⟨row, hmem, hfiled⟩ := ih he
      exact ⟨row, List.mem_cons_of_mem _ hmem, hfiled⟩

/-- The type in every row is proper. -/
theorem proper (h : RowsFor es rows) : ∀ row ∈ rows, row.2.Proper := by
  induction h with
  | nil => exact nofun
  | cons hrow _ ih => exact List.forall_mem_cons.mpr ⟨hrow.proper, ih⟩

end RowsFor

variable {Γ : Context} {wanted : Option Ty} {ty : Ty} {rows : Rows}

/-- The row of an expression itself. -/
theorem ExprTyped.row (hΓ : Γ.Sane) (hw : Wanted wanted) {e : Expr}
    (h : ExprTyped Γ wanted e ty rows) : RowFor e (e.id, ty) where
  id := rfl
  proper := ExprTyped.proper hΓ hw e h
  value hv := by
    by_contra hn
    exact h.value hΓ (fun node callee args he => hn ⟨node, callee, args, he⟩) hv

mutual
/-- **Each row of an expression is about one of its parts.** -/
theorem ExprTyped.rowsFor {Γ : Context} {wanted : Option Ty} {ty : Ty} {rows : Rows}
    (hΓ : Γ.Sane) (hw : Wanted wanted) : (e : Expr) → ExprTyped Γ wanted e ty rows →
    RowsFor e.parts rows
  | .int .., h@.int | .text .., h@.text | .char .., h@.char | .bool .., h@.bool
  | .name .., h@(.name _) => by
    rw [Expr.parts]
    exact .cons (h.row hΓ hw) .nil
  | .binary _ _ left right, h@(.binary hl hr _) => by
    rw [Expr.parts]
    exact ((ExprTyped.rowsFor hΓ .none left hl).append (ExprTyped.rowsFor hΓ .none right hr)).push
      (h.row hΓ hw)
  | .array _ [], h@(.emptyArray _) => by
    rw [Expr.parts, itemParts]
    exact .cons (h.row hΓ hw) .nil
  | .array _ (first :: rest), h@(.array hf _ hr) => by
    rw [Expr.parts, itemParts]
    have helement := ExprTyped.proper hΓ hw.of_element first hf
    exact ((ExprTyped.rowsFor hΓ hw.of_element first hf).append
      (ItemsTyped.rowsFor hΓ helement rest hr)).push (h.row hΓ hw)
  | .hash _ [], h@(.emptyHash _) => by
    rw [Expr.parts, entryParts]
    exact .cons (h.row hΓ hw) .nil
  | .hash _ ((firstKey, firstValue) :: rest), h@(.hash hk hv hkey _ hr) => by
    rw [Expr.parts, entryParts]
    have hkey := (Ty.Proper.of_key hkey).1
    have hvalue := ExprTyped.proper hΓ hw.of_value firstValue hv
    exact (((ExprTyped.rowsFor hΓ hw.of_key firstKey hk).append
      (ExprTyped.rowsFor hΓ hw.of_value firstValue hv)).append
        (EntriesTyped.rowsFor hΓ hkey hvalue rest hr)).push (h.row hΓ hw)
  | .fn _ _ _ (.mk body _), h@(.fn hr hp hb _) => by
    rw [Expr.parts, Block.parts]
    have hΓ' := hΓ.literal (paramScope_proper hp)
    exact (StmtsTyped.rowsFor hΓ' (.some hr) body hb).push (h.row hΓ hw)
  | .index _ target key, h@(.indexArray ht hk) => by
    rw [Expr.parts]
    exact ((ExprTyped.rowsFor hΓ .none target ht).append
      (ExprTyped.rowsFor hΓ (.some .int) key hk)).push (h.row hΓ hw)
  | .index _ target key, h@(.indexHash ht hk) => by
    rw [Expr.parts]
    have hkey := (Ty.Proper.of_key (ExprTyped.proper hΓ .none target ht).entry.1).1
    exact ((ExprTyped.rowsFor hΓ .none target ht).append
      (ExprTyped.rowsFor hΓ (.some hkey) key hk)).push (h.row hΓ hw)
  | .call _ (.name _ _) args, h@(.callBuiltin _ ha _) => by
    rw [Expr.parts, Expr.parts]
    exact (RowsFor.append (.cons (.builtin _ _ _) .nil)
      (BuiltinArgsTyped.rowsFor hΓ .none args ha)).push (h.row hΓ hw)
  | .call _ callee args, h@(.call _ hc ha) => by
    rw [Expr.parts]
    have hparams := (ExprTyped.proper hΓ .none callee hc).param
    exact ((ExprTyped.rowsFor hΓ .none callee hc).append (ArgsTyped.rowsFor hΓ
      (fun p hp => (hparams p hp).1) args ha)).push (h.row hΓ hw)

theorem ItemsTyped.rowsFor {Γ : Context} {element : Ty} {rows : Rows} (hΓ : Γ.Sane)
    (he : element.Proper) : (items : List Expr) → ItemsTyped Γ element items rows →
    RowsFor (itemParts items) rows
  | [], .nil => by
    rw [itemParts]
    exact .nil
  | item :: rest, .cons hi hr => by
    rw [itemParts]
    exact (ExprTyped.rowsFor hΓ (.some he) item hi).append (ItemsTyped.rowsFor hΓ he rest hr)

theorem EntriesTyped.rowsFor {Γ : Context} {key value : Ty} {rows : Rows} (hΓ : Γ.Sane)
    (hkey : key.Proper) (hvalue : value.Proper) : (entries : List (Expr × Expr)) →
    EntriesTyped Γ key value entries rows → RowsFor (entryParts entries) rows
  | [], .nil => by
    rw [entryParts]
    exact .nil
  | (k, v) :: rest, .cons hk hv hr => by
    rw [entryParts]
    exact ((ExprTyped.rowsFor hΓ (.some hkey) k hk).append
      (ExprTyped.rowsFor hΓ (.some hvalue) v hv)).append (EntriesTyped.rowsFor hΓ hkey hvalue rest hr)

theorem ArgsTyped.rowsFor {Γ : Context} {params : List Ty} {rows : Rows} (hΓ : Γ.Sane)
    (hp : ∀ p ∈ params, p.Proper) : (args : List Expr) → ArgsTyped Γ params args rows →
    RowsFor (itemParts args) rows
  | [], .nil => by
    rw [itemParts]
    exact .nil
  | arg :: rest, .cons ha hr => by
    rw [itemParts]
    obtain ⟨hparam, hp⟩ := List.forall_mem_cons.mp hp
    exact (ExprTyped.rowsFor hΓ (.some hparam) arg ha).append (ArgsTyped.rowsFor hΓ hp rest hr)

theorem BuiltinArgsTyped.rowsFor {Γ : Context} {b : Builtin} {first : Option Ty} {types : List Ty}
    {rows : Rows} (hΓ : Γ.Sane) (hw : Wanted first) : (args : List Expr) →
    BuiltinArgsTyped Γ b first args types rows → RowsFor (itemParts args) rows
  | [], .nil => by
    rw [itemParts]
    exact .nil
  | arg :: rest, .cons ha hr => by
    rw [itemParts]
    have hty := ExprTyped.proper hΓ (hw.expectedNext b) arg ha
    exact (ExprTyped.rowsFor hΓ (hw.expectedNext b) arg ha).append
      (BuiltinArgsTyped.rowsFor hΓ (hw.orElse hty) rest hr)
termination_by structural args => args

/-- Each row of a statement is about an expression in it. -/
theorem StmtTyped.rowsFor {Γ Γ' : Context} {returns : Option Ty} {rows : Rows} (hΓ : Γ.Sane)
    (hr : Wanted returns) : (s : Stmt) → StmtTyped Γ returns s Γ' rows → RowsFor s.parts rows
  | .declare _ _ _ _ value, .declare hp _ he _ => by
    rw [Stmt.parts]
    exact ExprTyped.rowsFor hΓ (.some hp) value he
  | .returns _ none, .returnsNothing => by
    rw [Stmt.parts]
    exact .nil
  | .returns _ (some value), .returns he => by
    rw [Stmt.parts]
    exact ExprTyped.rowsFor hΓ hr value he
  | .expr value, .expr he => by
    rw [Stmt.parts]
    exact ExprTyped.rowsFor hΓ .none value he
  | .branch _ condition (.mk yes _) none, .branch hc hy => by
    rw [Stmt.parts, Block.parts]
    exact (ExprTyped.rowsFor hΓ (.some .bool) condition hc).append
      (StmtsTyped.rowsFor hΓ.branch hr yes hy)
  | .branch _ condition (.mk yes _) (some (.mk no _)), .branchElse hc hy hn => by
    rw [Stmt.parts, Block.parts, Block.parts]
    exact ((ExprTyped.rowsFor hΓ (.some .bool) condition hc).append
      (StmtsTyped.rowsFor hΓ.branch hr yes hy)).append (StmtsTyped.rowsFor hΓ.branch hr no hn)
  | .print _ value, .print he _ => by
    rw [Stmt.parts]
    exact ExprTyped.rowsFor hΓ .none value he
  | .block (.mk body _), .block hb => by
    rw [Stmt.parts, Block.parts]
    exact StmtsTyped.rowsFor hΓ hr body hb

/-- **Each row of some statements is about an expression in them.** -/
theorem StmtsTyped.rowsFor {Γ Γ' : Context} {returns : Option Ty} {rows : Rows} (hΓ : Γ.Sane)
    (hr : Wanted returns) : (body : List Stmt) → StmtsTyped Γ returns body Γ' rows →
    RowsFor (stmtParts body) rows
  | [], .nil => by
    rw [stmtParts]
    exact .nil
  | s :: rest, .cons hs hrest => by
    rw [stmtParts]
    exact (StmtTyped.rowsFor hΓ hr s hs).append
      (StmtsTyped.rowsFor (StmtTyped.sane hΓ s hs) hr rest hrest)
end

/-! ## 3. Programs -/

theorem FunctionsTyped.rowsFor {globals : List (String × Entity)} {fs : List FunctionDecl}
    (hΓ : Context.Sane ⟨[], [], globals⟩) (hr : ∀ f ∈ fs, f.returns.toTy.Proper)
    (h : FunctionsTyped globals fs rows) : RowsFor (functionParts fs) rows := by
  induction h with
  | nil => exact .nil
  | cons hf _ ih =>
    obtain ⟨hrf, hr⟩ := List.forall_mem_cons.mp hr
    obtain ⟨hp, hb, -⟩ := hf
    rw [functionParts, Block.parts_eq]
    have hΓ' := Context.Sane.literal hΓ (paramScope_proper hp)
    exact (StmtsTyped.rowsFor hΓ' (.some hrf) _ hb).append (ih hr)

/-- **Each row of a program is about one of its expressions.** -/
theorem ProgramTyped.rowsFor {p : Program} (h : ProgramTyped p rows) : RowsFor p.parts rows := by
  obtain ⟨hr, hd, hg, hfs, hm⟩ := h
  have hΓ := Context.sane_entries (hfs.proper hr) hd
  have hΓ₁ := StmtsTyped.sane hΓ p.globals hg
  obtain ⟨globals, rfl⟩ := (hg.grown p.globals).outside
  rw [Program.parts, Block.parts_eq]
  exact ((StmtsTyped.rowsFor hΓ .none p.globals hg).append (hfs.rowsFor hΓ₁ hr)).append
    (StmtsTyped.rowsFor hΓ₁.branch (.some .void) p.main.body hm)

end Stackling
