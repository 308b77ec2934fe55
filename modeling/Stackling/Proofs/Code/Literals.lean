import Stackling.Proofs.Code.Placed

/-
  File:     Stackling/Proofs/Code/Literals.lean
  Subject:  Where some code stands, the literals in it have their units.

  * `LiteralPlaced`       -- a literal has a unit with its code;
  * `StmtsPlaced.literal` -- so has every literal in the code of statements.
-/
namespace Stackling

variable {p : Program} {types : TypeTable} {code : Bytecode}

/-- The unit of a literal holds its code. -/
def LiteralPlaced (p : Program) (types : TypeTable) (code : Bytecode) (l : Literal) : Prop :=
  ∃ place globals, p.literals[place]? = some l ∧
    CallablePlaced p types code (p.literalUnit place) (l.callable place) globals

mutual
/-- **A literal in placed code has its unit.** -/
theorem ExprPlaced.literal {u : CodeUnit} {c : CallableDecl} {L : Layout} {pc pc' : Nat}
    {ty : Ty} : (e : Expr) → ExprPlaced p types code u c L pc e ty pc' →
    ∀ l ∈ e.literals, LiteralPlaced p types code l
  | .int .., _ | .text .., _ | .char .., _ | .bool .., _
  | .name .., _ => by simp [Expr.literals]
  | .binary _ _ left right, .binary _ h₁ h₂ _ _ _ => by
    intro l hl
    rw [Expr.literals] at hl
    rcases List.mem_append.mp hl with hl | hl
    · exact ExprPlaced.literal left h₁ l hl
    · exact ExprPlaced.literal right h₂ l hl
  | .array _ items, .array _ _ _ hi => by
    intro l hl
    rw [Expr.literals] at hl
    exact ItemsPlaced.literal items hi l hl
  | .hash _ entries, .hash _ _ _ _ he => by
    intro l hl
    rw [Expr.literals] at hl
    exact EntriesPlaced.literal entries he l hl
  | .fn _ _ _ (.mk body _), @ExprPlaced.fn _ _ _ _ _ _ _ _ _ _ _ _ place _ hp hc _ => by
    intro l hl
    rw [Expr.literals, Block.literals] at hl
    rcases List.mem_cons.mp hl with rfl | hl
    · exact ⟨place, _, hp, hc⟩
    · cases hc with
      | mk _ _ _ _ _ _ hb _ _ => exact StmtsPlaced.literal body hb l hl
  | .index _ target key, .indexArray _ _ h₁ h₂ _
  | .index _ target key, .indexHash _ _ _ h₁ h₂ _ => by
    intro l hl
    rw [Expr.literals] at hl
    rcases List.mem_append.mp hl with hl | hl
    · exact ExprPlaced.literal target h₁ l hl
    · exact ExprPlaced.literal key h₂ l hl
  | .call _ (.name _ _) args, .callFunction _ _ ha _
  | .call _ (.name _ _) args, .callBuiltin _ _ _ ha _ _ => by
    intro l hl
    rw [Expr.literals, Expr.literals, List.nil_append] at hl
    exact ArgsPlaced.literal args ha l hl
  | .call _ callee args, .callValue _ hc ha _ => by
    intro l hl
    rw [Expr.literals] at hl
    rcases List.mem_append.mp hl with hl | hl
    · exact ExprPlaced.literal callee hc l hl
    · exact ArgsPlaced.literal args ha l hl
termination_by structural e => e

theorem ItemsPlaced.literal {u : CodeUnit} {c : CallableDecl} {L : Layout} {element : Ty}
    {index pc pc' : Nat} : (items : List Expr) →
    ItemsPlaced p types code u c L element index pc items pc' →
    ∀ l ∈ itemLiterals items, LiteralPlaced p types code l
  | [], _ => by simp [itemLiterals]
  | item :: rest, .cons hi _ hr => by
    intro l hl
    rw [itemLiterals] at hl
    rcases List.mem_append.mp hl with hl | hl
    · exact ExprPlaced.literal item hi l hl
    · exact ItemsPlaced.literal rest hr l hl
termination_by structural items => items

theorem EntriesPlaced.literal {u : CodeUnit} {c : CallableDecl} {L : Layout} {key value : Ty}
    {pc pc' : Nat} : (entries : List (Expr × Expr)) →
    EntriesPlaced p types code u c L key value pc entries pc' →
    ∀ l ∈ entryLiterals entries, LiteralPlaced p types code l
  | [], _ => by simp [entryLiterals]
  | (k, v) :: rest, .cons hk hv _ hr => by
    intro l hl
    rw [entryLiterals] at hl
    rcases List.mem_append.mp hl with hl | hl
    · rcases List.mem_append.mp hl with hl | hl
      · exact ExprPlaced.literal k hk l hl
      · exact ExprPlaced.literal v hv l hl
    · exact EntriesPlaced.literal rest hr l hl
termination_by structural entries => entries

theorem ArgsPlaced.literal {u : CodeUnit} {c : CallableDecl} {L : Layout} {params : List Ty}
    {pc pc' : Nat} : (args : List Expr) → ArgsPlaced p types code u c L pc args params pc' →
    ∀ l ∈ itemLiterals args, LiteralPlaced p types code l
  | [], _ => by simp [itemLiterals]
  | arg :: rest, .cons _ ha hr => by
    intro l hl
    rw [itemLiterals] at hl
    rcases List.mem_append.mp hl with hl | hl
    · exact ExprPlaced.literal arg ha l hl
    · exact ArgsPlaced.literal rest hr l hl
termination_by structural args => args

theorem StmtPlaced.literal {u : CodeUnit} {c : CallableDecl} {L L' : Layout} {pc pc' : Nat} :
    (s : Stmt) → StmtPlaced p types code u c L pc s L' pc' →
    ∀ l ∈ s.literals, LiteralPlaced p types code l
  | .declare _ _ _ _ value, .declareCell _ _ he _ _
  | .declare _ _ _ _ value, .declareLocal _ _ he _ _ _
  | .returns _ (some value), .returnsVoid _ _ he _
  | .returns _ (some value), .returns _ _ he _
  | .expr value, .exprVoid he
  | .expr value, .expr _ he _
  | .print _ value, .print _ he _ => by
    intro l hl
    rw [Stmt.literals] at hl
    exact ExprPlaced.literal value he l hl
  | .returns _ none, _ => by simp [Stmt.literals]
  | .branch _ condition (.mk yes _) none, .branch hc _ _ _ hy => by
    intro l hl
    rw [Stmt.literals, Block.literals] at hl
    rcases List.mem_append.mp hl with hl | hl
    · exact ExprPlaced.literal condition hc l hl
    · exact StmtsPlaced.literal yes hy l hl
  | .branch _ condition (.mk yes _) (some (.mk no _)), .branchElse hc _ _ _ hy _ _ hn => by
    intro l hl
    rw [Stmt.literals, Block.literals, Block.literals] at hl
    rcases List.mem_append.mp hl with hl | hl
    · rcases List.mem_append.mp hl with hl | hl
      · exact ExprPlaced.literal condition hc l hl
      · exact StmtsPlaced.literal yes hy l hl
    · exact StmtsPlaced.literal no hn l hl
  | .block (.mk body _), .block hb => by
    intro l hl
    rw [Stmt.literals, Block.literals] at hl
    exact StmtsPlaced.literal body hb l hl
termination_by structural s => s

/-- The literals in placed statements have their units. -/
theorem StmtsPlaced.literal {u : CodeUnit} {c : CallableDecl} {L L' : Layout} {pc pc' : Nat} :
    (body : List Stmt) → StmtsPlaced p types code u c L pc body L' pc' →
    ∀ l ∈ stmtLiterals body, LiteralPlaced p types code l
  | [], _ => by simp [stmtLiterals]
  | s :: rest, .cons hs hr => by
    intro l hl
    rw [stmtLiterals] at hl
    rcases List.mem_append.mp hl with hl | hl
    · exact StmtPlaced.literal s hs l hl
    · exact StmtsPlaced.literal rest hr l hl
termination_by structural body => body

end

theorem CallablePlaced.literal {id : UnitId} {c : CallableDecl} {globals : GlobalNames}
    (h : CallablePlaced p types code id c globals) :
    ∀ l ∈ stmtLiterals c.body, LiteralPlaced p types code l := by
  cases h with
  | mk _ _ _ _ _ _ hb _ _ => exact StmtsPlaced.literal c.body hb

end Stackling
