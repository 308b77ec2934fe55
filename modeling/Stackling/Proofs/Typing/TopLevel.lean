import Stackling.Proofs.Typing.FunctionOrder

/-
  File:     Stackling/Proofs/Typing/TopLevel.lean
  Subject:  What the analysis of any program leaves behind.

  The analysis goes on after a problem, and a program with problems has scopes all the same: every
  construct, however wrong, leaves the scopes that it entered and adds to the one around it what
  it declares there. So the analysis never fails. In the end there is the global scope, in which a
  name stands for the first thing that was declared under it: the built-ins are there from the
  start, the functions come next, and then the statements at top level.

  * `checkProgram_settled`    -- the analysis of a program, with all that it declares;
  * `Program.globalSymbol?`   -- what a name stands for at top level, read off the program;
  * `typeCheck_total`         -- every program is analysed, and its names stand for that.
-/
namespace Stackling

open Check

/-! ## 1. All that a program declares -/

/-- A function adds itself to the scope. -/
theorem declareFunction_settled (f : FunctionDecl) (ids : List Nat) :
    Settled (declareFunction f) ids [f.declared] := by
  unfold declareFunction
  refine .after (.resolve _ _) (.after (.resolveParams _) ?_)
  exact (Settled.declare _ _ _ _ _).before fun _ => .reportIfThen (.pure _ _)

/-- **The functions are added one after the other,** whatever their names are. -/
theorem declareFunctions_settled (ids : List Nat) : (fs : List FunctionDecl) →
    Settled (declareFunctions fs) ids (fs.map FunctionDecl.declared)
  | [] => .pure _ _
  | f :: rest => (declareFunction_settled f ids).append fun _ =>
      (declareFunctions_settled ids rest).before fun _ => .pure _ _

theorem checkFunctions_settled (fs : List FunctionDecl) (signatures : List Signature) :
    Settled (checkFunctions fs signatures) (functionIds fs) [] := by
  induction fs generalizing signatures with
  | nil => exact .pure _ _
  | cons f fs ih =>
    cases signatures with
    | nil => exact .pure _ _
    | cons signature signatures =>
      refine ((checkFunction_settled f signature).mono (by simp [functionIds])).bind fun _ => ?_
      exact (ih signatures).mono (by simp [functionIds])

/-- **A program is settled:** it declares its functions, and then what stands at top level. -/
theorem checkProgram_settled (p : Program) : Settled (checkProgram p) p.ids
    (p.functions.map FunctionDecl.declared ++ stmtsDeclared p.globals) := by
  refine (declareFunctions_settled _ p.functions).append fun signatures => ?_
  have hglobals := checkStmts_settled none p.globals
  refine (hglobals.mono (by simp [Program.ids])).before fun _ => ?_
  refine ((checkFunctions_settled _ signatures).mono (by simp [Program.ids])).bind fun _ => ?_
  exact (checkMain_settled p.main).mono (by simp [Program.ids])

/-! ## 2. What a name stands for -/

/-- The symbol of a built-in. -/
def Builtin.symbol (b : Builtin) : Symbol := ⟨b.name, b.signature, false, true, 0⟩

/-- The symbols of the built-ins are found by their names. -/
theorem find_builtinSymbols (name : String) :
    (ScopeTable.builtinSymbols.find? fun s => s.name == name) =
      (Builtin.ofName? name).map Builtin.symbol := by
  have hreverse : (Builtin.all.reverse.find? fun b => b.name == name) = Builtin.ofName? name := by
    unfold Builtin.ofName?
    cases hb : Builtin.all.find? fun b => b.name == name with
    | none =>
      rw [List.find?_eq_none] at hb ⊢
      exact fun b hmem => hb b (List.mem_reverse.mp hmem)
    | some b =>
      obtain rfl : b.name = name := by simpa using List.find?_some hb
      cases b <;> rfl
  rw [← hreverse, ScopeTable.builtinSymbols, ← List.map_reverse, List.find?_map]
  rfl

/-- **What a name stands for at top level:** the built-in of the name, or else the first function
    of the name, or else the first `let` or `const` of it that stands at top level or in plain
    blocks there, with the type that is written. -/
def Program.globalSymbol? (p : Program) (name : String) : Option Symbol :=
  ((Builtin.ofName? name).map Builtin.symbol).or <|
    ((p.functions.find? fun f => f.name == name).map FunctionDecl.symbol).or <|
      ((stmtsDeclared p.globals).find? fun d => d.name == name).map fun d => d.symbol 0

theorem Program.find_global (p : Program) (name : String) :
    (((p.functions.map FunctionDecl.declared ++ stmtsDeclared p.globals).foldl (adding 0)
      ScopeTable.builtinSymbols).find? fun s => s.name == name) = p.globalSymbol? name := by
  rw [find_adding, find_builtinSymbols, List.find?_append, Option.map_or, find_declared,
    Program.globalSymbol?]

/-- **The analysis comes to an end for every program,** well typed or not. The scopes are back at
    the global one then, and each name has the symbol that the program gives it there. -/
theorem typeCheck_total (p : Program) :
    ∃ a, typeCheck p = .ok a ∧ a.scopes.level = 0 ∧
      ∀ name, a.scopes.lookup? name = p.globalSymbol? name := by
  obtain ⟨_, f, hfound, -⟩ := checkProgram_settled p ScopeTable.builtinSymbols []
  obtain ⟨t, hrun, hlike⟩ := hfound .initial (.of_shows ScopeTable.shows_initial)
  refine ⟨Analysis.initial.found f t, ?_, hlike.level, fun name => ?_⟩
  · rw [typeCheck, StateT.run, hrun]
    rfl
  · refine (hlike.lookup name).trans ?_
    rw [List.findSome?_cons, List.findSome?_nil, List.length_nil, p.find_global]
    cases p.globalSymbol? name <;> rfl

end Stackling
