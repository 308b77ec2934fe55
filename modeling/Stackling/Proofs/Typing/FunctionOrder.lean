import Mathlib.Data.List.Nodup
import Mathlib.Data.List.Perm.Basic
import Stackling.Proofs.Typing.Findings
import Stackling.Proofs.Typing.Programs

/-
  File:     Stackling/Proofs/Typing/FunctionOrder.lean
  Subject:  The analysis does not depend on the order of the functions.

  The functions of a program are declared before anything else is analysed, so the scopes that
  the rest of the analysis sees answer alike in every order, as long as no two functions have
  the same name. Each body has findings of its own, which come in another order only.

  * `declareFunctions_finds`, `checkFunctions_finds` -- the findings, function by function;
  * `typeCheck_findings` -- the findings of a program, for every order of its functions;
  * `typeCheck_perm`     -- the same diagnostics and the same types in every order.
-/
namespace Stackling

open Check

/-! ## 1. Declaring functions -/

/-- The symbol of a function. -/
def FunctionDecl.symbol (f : FunctionDecl) : Symbol :=
  ⟨f.name, f.signature.ty, false, true, 0⟩

/-- The symbols of a scope after a function has been declared in it. -/
def declaredIn (symbols : List Symbol) (f : FunctionDecl) : List Symbol :=
  if (symbols.find? fun s => s.name == f.name).isSome then symbols else f.symbol :: symbols

/-- What a function declares. -/
def FunctionDecl.declared (f : FunctionDecl) : Declared := ⟨f.name, f.signature.ty, false, true⟩

theorem foldl_declaredIn (fs : List FunctionDecl) (symbols : List Symbol) :
    fs.foldl declaredIn symbols = (fs.map FunctionDecl.declared).foldl (adding 0) symbols := by
  rw [List.foldl_map]
  rfl

/-- The first function of a name, among what the functions declare. -/
theorem find_declared (name : String) (fs : List FunctionDecl) :
    ((fs.map FunctionDecl.declared).find? fun d => d.name == name).map (fun d => d.symbol 0) =
      (fs.find? fun f => f.name == name).map FunctionDecl.symbol := by
  rw [List.find?_map, Option.map_map]
  rfl

/-- A name stands for what it stood for before, or else for the first function of the name. -/
theorem find_declaredIn (name : String) (fs : List FunctionDecl) (symbols : List Symbol) :
    (fs.foldl declaredIn symbols).find? (fun s => s.name == name) =
      (symbols.find? fun s => s.name == name).or
        ((fs.find? fun f => f.name == name).map FunctionDecl.symbol) := by
  rw [foldl_declaredIn, find_adding, find_declared]

/-- Without repeated names, a name is found in every order. -/
theorem find_perm {fs fs' : List FunctionDecl} (h : fs.Perm fs') (hn : (fs.map (·.name)).Nodup)
    (name : String) :
    fs.find? (fun f => f.name == name) = fs'.find? fun f => f.name == name := by
  have hn' : (fs'.map (·.name)).Nodup := (h.map _).nodup_iff.mp hn
  have hfind : ∀ {l : List FunctionDecl}, (l.map (·.name)).Nodup → ∀ f,
      l.find? (fun f => f.name == name) = some f ↔ f ∈ l ∧ f.name = name := by
    intro l hl f
    constructor
    · intro hf
      exact ⟨List.mem_of_find?_eq_some hf, by simpa using List.find?_some hf⟩
    · rintro ⟨hf, rfl⟩
      obtain ⟨g, hg⟩ := Option.isSome_iff_exists.mp
        (List.find?_isSome (p := fun g : FunctionDecl => g.name == f.name) |>.mpr
          ⟨f, hf, beq_self_eq_true f.name⟩)
      have hname : g.name = f.name := by simpa using List.find?_some hg
      rw [hg, List.inj_on_of_nodup_map hl (List.mem_of_find?_eq_some hg) hf hname]
  refine Option.ext fun f => ?_
  rw [hfind hn f, hfind hn' f, h.mem_iff]

/-- **Functions with different names are declared in any order** with the same findings, of
    which each function has its own. -/
theorem declareFunctions_finds (base : List Symbol) :
    ∃ reports : FunctionDecl → List Diagnostic, ∀ (fs : List FunctionDecl) (symbols : List Symbol),
      (fs.map (·.name)).Nodup →
      (∀ f ∈ fs, symbols.find? (fun s => s.name == f.name) =
        base.find? fun s => s.name == f.name) →
      Finds (declareFunctions fs) [symbols] (fs.map FunctionDecl.signature)
        ⟨fs.reverse.flatMap reports, []⟩ [fs.foldl declaredIn symbols] := by
  -- what one function finds depends on its own name in the scope alone
  have hone : ∀ f : FunctionDecl, ∃ g : Findings, g.rows = [] ∧ ∀ symbols : List Symbol,
      symbols.find? (fun s => s.name == f.name) = base.find? (fun s => s.name == f.name) →
      Finds (declareFunction f) [symbols] f.signature g [declaredIn symbols f] := by
    intro f
    obtain ⟨r₁, h₁⟩ := OnlyReports.resolve f.span.line f.returns
    obtain ⟨r₂, h₂⟩ := OnlyReports.resolveParams f.params
    cases hb : base.find? (fun s => s.name == f.name) with
    | none =>
      refine ⟨.andThen ⟨r₁, []⟩ (.andThen ⟨r₂, []⟩ (.andThen .none .none)), rfl,
        fun symbols hs => ?_⟩
      have hw : declaredIn symbols f = f.symbol :: symbols := by simp [declaredIn, hs]
      rw [hw]
      exact (h₁ _).bind ((h₂ _).bind ((Finds.declare f.name _ false true hs).bind (.pure _)))
    | some s =>
      let again : Findings := ⟨[⟨f.span.line, .repeatedFunction f.name⟩], []⟩
      refine ⟨.andThen ⟨r₁, []⟩ (.andThen ⟨r₂, []⟩ (.andThen .none (again.andThen .none))), rfl,
        fun symbols hs => ?_⟩
      have hw : declaredIn symbols f = symbols := by simp [declaredIn, hs]
      rw [hw]
      exact (h₁ _).bind ((h₂ _).bind ((Finds.declare_again _ false true hs).bind
        ((Finds.report f.span.line (.repeatedFunction f.name)).bind (.pure _))))
  choose found hrows hfound using hone
  refine ⟨fun f => (found f).reports, fun fs => ?_⟩
  induction fs with
  | nil => exact fun symbols _ _ => .pure _
  | cons f fs ih =>
    intro symbols hn hs
    obtain ⟨hnf, hn⟩ := List.nodup_cons.mp hn
    obtain ⟨hsf, hs⟩ := List.forall_mem_cons.mp hs
    have hrest : ∀ g ∈ fs, (declaredIn symbols f).find? (fun s => s.name == g.name) =
        base.find? fun s => s.name == g.name := by
      intro g hg
      have hne : f.name ≠ g.name := fun he => hnf (List.mem_map.mpr ⟨g, hg, he.symm⟩)
      have := find_declaredIn g.name [f] symbols
      rw [List.foldl_cons, List.foldl_nil] at this
      rw [this, hs g hg, List.find?_cons_of_neg (by simpa using hne)]
      simp
    have := (hfound f symbols hsf).bind (k := fun signature => do
      return signature :: (← declareFunctions fs)) ((ih _ hn hrest).bind (.pure _))
    unfold declareFunctions
    simpa [Findings.andThen, Findings.none, hrows] using this

/-- **Scopes with the same functions answer alike,** in whatever order they were declared. -/
theorem sameSymbols_perm {fs fs' : List FunctionDecl} (h : fs.Perm fs')
    (hn : (fs.map (·.name)).Nodup) (symbols : List Symbol) :
    SameSymbols (fs.foldl declaredIn symbols) (fs'.foldl declaredIn symbols) := by
  intro name
  rw [find_declaredIn, find_declaredIn, find_perm h hn]

/-! ## 2. Bodies -/

/-- **The body of a function is settled,** and declares nothing in the scope around it. -/
theorem checkFunction_settled (f : FunctionDecl) (signature : Signature) :
    Settled (checkFunction f signature) f.body.ids [] := by
  unfold checkFunction
  refine .enter (.bind (declareParams_settled _ _ _) fun _ => ?_)
  exact .bind (checkBlock_settled _ f.body) fun _ => .andThen (.reportIf _ _ _)

/-- The body of the main function is settled. -/
theorem checkMain_settled (body : Block) : Settled (do
    enter
    checkBlock (some ⟨.void, none⟩) body
    leave) body.ids [] :=
  .enter (.bind (checkBlock_settled _ body) fun _ => .leave _)

/-- **The bodies of functions find what each of them finds.** -/
theorem checkFunctions_finds {stack : List (List Symbol)} {found : FunctionDecl → Findings}
    (h : ∀ f, Finds (checkFunction f f.signature) stack ⟨⟩ (found f) stack)
    (fs : List FunctionDecl) :
    Finds (checkFunctions fs (fs.map FunctionDecl.signature)) stack ⟨⟩
      ⟨fs.reverse.flatMap fun f => (found f).reports, fs.reverse.flatMap fun f => (found f).rows⟩
      stack := by
  induction fs with
  | nil => exact .pure _
  | cons f fs ih =>
    rw [List.map_cons, checkFunctions]
    simpa [Findings.andThen] using (h f).bind (k := fun _ => checkFunctions fs _) ih

/-! ## 3. Programs -/

/-- The program with its functions in another order. -/
def Program.reordered (p : Program) (fs : List FunctionDecl) : Program :=
  { p with functions := fs }

/-- **What the analysis finds, for every order of the functions:** each function is declared and
    has a body with findings of its own; those of the rest of the program are always the same. -/
theorem typeCheck_findings (p : Program) (hn : (p.functions.map (·.name)).Nodup) :
    ∃ (declared : FunctionDecl → List Diagnostic) (body : FunctionDecl → Findings)
      (globals main : Findings), (∀ f, ∀ row ∈ (body f).rows, row.1 ∈ f.body.ids) ∧
      ∀ fs, p.functions.Perm fs → ∃ scopes, typeCheck (p.reordered fs) =
        .ok (Analysis.initial.found
          ⟨main.reports ++ (fs.reverse.flatMap fun f => (body f).reports) ++ globals.reports ++
              fs.reverse.flatMap declared,
            main.rows ++ (fs.reverse.flatMap fun f => (body f).rows) ++ globals.rows⟩ scopes) := by
  obtain ⟨declared, hdeclared⟩ := declareFunctions_finds ScopeTable.builtinSymbols
  let base := p.functions.foldl declaredIn ScopeTable.builtinSymbols
  obtain ⟨_, g, hglobals, -⟩ := checkStmts_settled none p.globals base []
  let top := (stmtsDeclared p.globals).foldl (adding 0) base
  choose _ body hbody hrows using fun f : FunctionDecl =>
    checkFunction_settled f f.signature top []
  obtain ⟨_, m, hmain, -⟩ := checkMain_settled p.main top []
  refine ⟨declared, body, g, m, hrows, fun fs hperm => ?_⟩
  have hnfs : (fs.map (·.name)).Nodup := (hperm.map _).nodup_iff.mp hn
  have hfirst := (hdeclared fs ScopeTable.builtinSymbols hnfs fun _ _ => rfl).alike
    (.cons (sameSymbols_perm hperm.symm hnfs _) .nil)
  have hlast := (checkFunctions_finds hbody fs).bind (k := fun _ => do
    enter
    checkBlock (some ⟨.void, none⟩) p.main
    leave) hmain
  have hall : Finds (checkProgram (p.reordered fs)) [ScopeTable.builtinSymbols] ⟨⟩ _ [top] :=
    hfirst.bind (hglobals.bind hlast)
  obtain ⟨t, ht, -⟩ := hall .initial (.of_shows ScopeTable.shows_initial)
  refine ⟨t, ?_⟩
  unfold typeCheck
  rw [StateT.run, ht]
  simp [Findings.andThen]

theorem functionIds_eq (fs : List FunctionDecl) : functionIds fs = fs.flatMap (·.body.ids) := by
  induction fs with
  | nil => rfl
  | cons f fs ih => rw [functionIds, ih, List.flatMap_cons]

/-- Rows of different keys are found in every order. -/
theorem lookup_flatMap_perm {rows : FunctionDecl → List (Nat × Ty)}
    (hrows : ∀ f, ∀ row ∈ rows f, row.1 ∈ f.body.ids) {fs fs' : List FunctionDecl}
    (h : fs.Perm fs') (hn : (functionIds fs).Nodup) (id : Nat) :
    (fs.flatMap rows).lookup id = (fs'.flatMap rows).lookup id := by
  induction h with
  | nil => rfl
  | cons f _ ih =>
    rw [functionIds, List.nodup_append] at hn
    rw [List.flatMap_cons, List.flatMap_cons, List.lookup_append, List.lookup_append, ih hn.2.1]
  | swap f g fs =>
    -- at most one of the two has a row for the number
    have hnone : (rows f).lookup id = none ∨ (rows g).lookup id = none := by
      rw [List.lookup_eq_none_iff, List.lookup_eq_none_iff]
      by_contra hex
      push Not at hex
      obtain ⟨⟨row, hr, he⟩, row', hr', he'⟩ := hex
      rw [functionIds, functionIds, List.nodup_append] at hn
      refine hn.2.2 row'.1 (hrows g row' hr') row.1
        (List.mem_append_left _ (hrows f row hr)) ?_
      simp_all
    simp only [List.flatMap_cons, List.lookup_append]
    rcases hnone with hf | hg
    · rw [hf, Option.none_or, Option.none_or]
    · rw [hg, Option.none_or, Option.none_or]
  | trans h₁ _ ih₁ ih₂ =>
    refine (ih₁ hn).trans (ih₂ ?_)
    rw [functionIds_eq] at hn ⊢
    exact (h₁.flatMap_right _).nodup_iff.mp hn

/-- **The order of the functions does not matter to the analysis:** it makes the same reports,
    in another order, and files the same types. -/
theorem typeCheck_perm {p : Program} (hids : p.ids.Nodup)
    (hn : (p.functions.map (·.name)).Nodup) {fs : List FunctionDecl}
    (h : p.functions.Perm fs) :
    ∃ a a', typeCheck p = .ok a ∧ typeCheck (p.reordered fs) = .ok a' ∧
      a.diagnostics.Perm a'.diagnostics ∧ ∀ id, a.types.find? id = a'.types.find? id := by
  obtain ⟨declared, body, globals, main, hrows, hfound⟩ := typeCheck_findings p hn
  obtain ⟨t, ht⟩ := hfound p.functions (.refl _)
  obtain ⟨t', ht'⟩ := hfound fs h
  have hrev : p.functions.reverse.Perm fs.reverse :=
    (List.reverse_perm _).trans (h.trans (List.reverse_perm _).symm)
  refine ⟨_, _, ht, ht', ?_, fun id => ?_⟩
  · refine (List.reverse_perm _).trans (.trans ?_ (List.reverse_perm _).symm)
    exact (((((hrev.flatMap_right _).append_left _).append_right _).append
      (hrev.flatMap_right _)).append_right _)
  · have hrevids : (functionIds p.functions.reverse).Nodup := by
      rw [functionIds_eq, ((List.reverse_perm _).flatMap_right _).nodup_iff, ← functionIds_eq]
      exact ((List.nodup_append.mp (List.nodup_append.mp hids).1).2.1)
    have := lookup_flatMap_perm hrows hrev hrevids id
    simp only [TypeTable.find?, Analysis.found, List.lookup_append, this]

end Stackling
