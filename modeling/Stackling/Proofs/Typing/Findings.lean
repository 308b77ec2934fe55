import Mathlib.Data.List.Forall2
import Stackling.Proofs.Steps
import Stackling.Proofs.Syntax.Numbers
import Stackling.Proofs.Typing.Rules
import Stackling.Proofs.Typing.ScopeStack

/-
  File:     Stackling/Proofs/Typing/Findings.lean
  Subject:  What the analysis finds depends on the visible names alone.

  A step of the analysis adds reports and rows to those made before, and never looks at them.
  Of the scopes it asks only which symbol a name has and how deep the current scope is, so two
  tables that answer alike lead to the same findings. No step fails: every scope that is entered
  is left again.

  * `ScopeTable.Like` -- a table that answers as a given stack of scopes does;
  * `Finds`           -- the findings of a step, whatever was found before;
  * `Stmt.declared`   -- what a statement adds to the scope it stands in;
  * `Settled`         -- a step that has findings, and adds to the innermost scope only;
  * `Leaving`         -- a step that has findings, and leaves the innermost scope;
  * `checkExpr_settled`, `checkStmts_settled` -- every part of a program is settled, files types
    for its own expressions only, and adds to a scope what it declares there.
-/
namespace Stackling

open Check

variable {α β : Type}

/-! ## 1. Scopes that answer alike -/

/-- Every name has the same symbol in both lists. -/
def SameSymbols (symbols symbols' : List Symbol) : Prop :=
  ∀ name, symbols.find? (fun s => s.name == name) = symbols'.find? (fun s => s.name == name)

namespace ScopeTable

/-- The table answers as the stack does. -/
def Like (t : ScopeTable) (stack : List (List Symbol)) : Prop :=
  ∃ stack', t.Shows stack' ∧ List.Forall₂ SameSymbols stack' stack

namespace Like

variable {t : ScopeTable} {top : List Symbol} {rest : List (List Symbol)}

theorem of_shows {stack : List (List Symbol)} (h : t.Shows stack) : t.Like stack :=
  ⟨stack, h, List.forall₂_same.mpr fun _ _ _ => rfl⟩

theorem lookup (h : t.Like (top :: rest)) (name : String) :
    t.lookup? name =
      (top :: rest).findSome? fun scope => scope.find? fun s => s.name == name := by
  obtain ⟨stack', hs, hsame⟩ := h
  cases hsame with
  | @cons top' _ rest' _ htop hrest =>
    rw [hs.lookup, List.findSome?_cons, List.findSome?_cons, htop name]
    have : rest'.findSome? (fun scope => scope.find? fun s => s.name == name) =
        rest.findSome? fun scope => scope.find? fun s => s.name == name := by
      clear hs
      induction hrest with
      | nil => rfl
      | cons h _ ih => rw [List.findSome?_cons, List.findSome?_cons, h name, ih]
    rw [this]

/-- Stacks of lists in which every name has the same symbol are not told apart. -/
theorem alike {stack stack' : List (List Symbol)} (h : t.Like stack)
    (hsame : List.Forall₂ SameSymbols stack stack') : t.Like stack' := by
  obtain ⟨stack₀, hs, h₀⟩ := h
  refine ⟨stack₀, hs, ?_⟩
  clear hs
  induction h₀ generalizing stack' with
  | nil => exact hsame
  | cons hxy _ ih =>
    cases hsame with
    | cons hyz hrest => exact .cons (fun name => (hxy name).trans (hyz name)) (ih hrest)

theorem level (h : t.Like (top :: rest)) : t.level = rest.length := by
  obtain ⟨stack', hs, hsame⟩ := h
  cases hsame with
  | cons _ hrest => rw [hs.level, hrest.length_eq]

theorem enter (h : t.Like (top :: rest)) : t.enter.Like ([] :: top :: rest) := by
  obtain ⟨stack', hs, hsame⟩ := h
  cases hsame with
  | cons htop hrest => exact ⟨_, hs.enter, .cons (fun _ => rfl) (.cons htop hrest)⟩

theorem leave {next : List Symbol} (h : t.Like (top :: next :: rest)) :
    ∃ t', t.leave? = .ok t' ∧ t'.Like (next :: rest) := by
  obtain ⟨stack', hs, hsame⟩ := h
  cases hsame with
  | cons _ hrest =>
    cases hrest with
    | cons hnext hrest =>
      obtain ⟨t', ht, hs'⟩ := hs.leave (List.cons_ne_nil _ _)
      exact ⟨t', ht, _, hs', .cons hnext hrest⟩

/-- A name that the innermost scope has is refused. -/
theorem declare_none (h : t.Like (top :: rest)) {name : String} (ty : Ty)
    (constant function : Bool) {s : Symbol} (hn : top.find? (fun s => s.name == name) = some s) :
    t.declare? name ty constant function = none := by
  obtain ⟨stack', hs, hsame⟩ := h
  cases hsame with
  | cons htop _ => exact hs.declare_none ty constant function ((htop name).trans hn)

/-- Any other name is added to it. -/
theorem declare (h : t.Like (top :: rest)) (name : String) (ty : Ty) (constant function : Bool)
    (hn : top.find? (fun s => s.name == name) = none) :
    ∃ t', t.declare? name ty constant function = some t' ∧
      t'.Like ((⟨name, ty, constant, function, rest.length⟩ :: top) :: rest) := by
  obtain ⟨stack', hs, hsame⟩ := h
  cases hsame with
  | cons htop hrest =>
    obtain ⟨t', ht, hs'⟩ := hs.declare name ty constant function ((htop name).trans hn)
    refine ⟨t', ht, _, hs', .cons (fun other => ?_) hrest⟩
    rw [List.find?_cons, List.find?_cons, htop other, hrest.length_eq]

end Like

end ScopeTable

/-! ## 2. Findings -/

/-- What a step of the analysis reports and files, the latest first. -/
structure Findings where
  reports : List Diagnostic
  rows : List (Nat × Ty)

namespace Findings

def none : Findings := ⟨[], []⟩

/-- The findings of one step, and then those of another. -/
def andThen (f g : Findings) : Findings := ⟨g.reports ++ f.reports, g.rows ++ f.rows⟩

end Findings

/-- The analysis with more findings and new scopes. -/
def Analysis.found (a : Analysis) (f : Findings) (scopes : ScopeTable) : Analysis :=
  ⟨scopes, ⟨f.rows ++ a.types.entries⟩, f.reports ++ a.reports⟩

/-- **The step finds `f`** where the scopes are like `stack`, whatever was found before; it gives
    `x` and leaves scopes like `stack'`. -/
def Finds (m : Check α) (stack : List (List Symbol)) (x : α) (f : Findings)
    (stack' : List (List Symbol)) : Prop :=
  ∀ a : Analysis, a.scopes.Like stack → ∃ t, m a = .ok (x, a.found f t) ∧ t.Like stack'

namespace Finds

variable {m : Check α} {k : α → Check β} {x : α} {y : β} {f g : Findings}
  {stack stack' stack'' : List (List Symbol)}

theorem pure (x : α) : Finds (Pure.pure x) stack x .none stack :=
  fun a h => ⟨a.scopes, rfl, h⟩

/-- **One step after the other finds what both find.** -/
theorem bind (hm : Finds m stack x f stack') (hk : Finds (k x) stack' y g stack'') :
    Finds (m >>= k) stack y (f.andThen g) stack'' := by
  intro a ha
  obtain ⟨t, h₁, ht⟩ := hm a ha
  obtain ⟨t', h₂, ht'⟩ := hk (a.found f t) ht
  refine ⟨t', ?_, ht'⟩
  rw [bind_of_ok h₁, h₂]
  simp only [Analysis.found, Findings.andThen, List.append_assoc]

/-- What is left may be said with other lists of the same symbols. -/
theorem alike (h : Finds m stack x f stack') (hsame : List.Forall₂ SameSymbols stack' stack'') :
    Finds m stack x f stack'' := by
  intro a ha
  obtain ⟨t, hm, ht⟩ := h a ha
  exact ⟨t, hm, ht.alike hsame⟩

theorem report (line : Nat) (problem : Problem) :
    Finds (Check.report line problem) stack ⟨⟩ ⟨[⟨line, problem⟩], []⟩ stack :=
  fun a h => ⟨a.scopes, rfl, h⟩

theorem file (node : Node) (ty : Ty) :
    Finds (Check.file node ty) stack ty ⟨[], [(node.id, ty)]⟩ stack :=
  fun a h => ⟨a.scopes, rfl, h⟩

theorem enter (top : List Symbol) (rest : List (List Symbol)) :
    Finds Check.enter (top :: rest) ⟨⟩ .none ([] :: top :: rest) :=
  fun a h => ⟨a.scopes.enter, rfl, h.enter⟩

theorem leave (top next : List Symbol) (rest : List (List Symbol)) :
    Finds Check.leave (top :: next :: rest) ⟨⟩ .none (next :: rest) := by
  intro a h
  obtain ⟨t, ht, hlike⟩ := h.leave
  refine ⟨t, ?_, hlike⟩
  unfold Check.leave
  rw [bind_of_ok get_ok, ht]
  rfl

/-- A new name is added to the innermost scope. -/
theorem declare {top : List Symbol} {rest : List (List Symbol)} (name : String) (ty : Ty)
    (constant function : Bool) (hn : top.find? (fun s => s.name == name) = Option.none) :
    Finds (Check.declare name ty constant function) (top :: rest) true .none
      ((⟨name, ty, constant, function, rest.length⟩ :: top) :: rest) := by
  intro a h
  obtain ⟨t, ht, hlike⟩ := h.declare name ty constant function hn
  refine ⟨t, ?_, hlike⟩
  unfold Check.declare
  rw [bind_of_ok get_ok, ht]
  rfl

/-- A name that is there already is refused. -/
theorem declare_again {top : List Symbol} {rest : List (List Symbol)} {name : String} (ty : Ty)
    (constant function : Bool) {s : Symbol} (hn : top.find? (fun s => s.name == name) = some s) :
    Finds (Check.declare name ty constant function) (top :: rest) false .none (top :: rest) := by
  intro a h
  refine ⟨a.scopes, ?_, h⟩
  unfold Check.declare
  rw [bind_of_ok get_ok, h.declare_none ty constant function hn]
  rfl

/-- A step that looks at the scopes does what they say. -/
theorem look {k : Analysis → Check β} {m₀ : Check β} (h : Finds m₀ stack y f stack')
    (hk : ∀ a : Analysis, a.scopes.Like stack → k a = m₀) : Finds (get >>= k) stack y f stack' := by
  intro a ha
  rw [bind_of_ok get_ok, hk a ha]
  exact h a ha

end Finds

/-! ## 3. Steps that only report -/

/-- A step that gives `x` and makes the same reports wherever it is taken. -/
def OnlyReports (m : Check α) (x : α) : Prop :=
  ∃ r, ∀ stack, Finds m stack x ⟨r, []⟩ stack

namespace OnlyReports

variable {m : Check α} {k : α → Check β} {x : α} {y : β}

theorem pure (x : α) : OnlyReports (Pure.pure x) x := ⟨[], fun _ => .pure x⟩

theorem bind (hm : OnlyReports m x) (hk : OnlyReports (k x) y) : OnlyReports (m >>= k) y := by
  obtain ⟨r, hm⟩ := hm
  obtain ⟨r', hk⟩ := hk
  exact ⟨r' ++ r, fun stack => (hm stack).bind (hk stack)⟩

theorem reportAll (line : Nat) : (problems : List Problem) →
    OnlyReports (Check.reportAll line problems) ⟨⟩
  | [] => pure _
  | p :: rest => bind ⟨_, fun _ => .report line p⟩ (reportAll line rest)

theorem resolve (line : Nat) (written : TypeExpr) :
    OnlyReports (Stackling.resolve line written) written.toTy :=
  (reportAll _ _).bind (pure _)

theorem resolveParam (p : Param) : OnlyReports (Stackling.resolveParam p) p.written.toTy := by
  unfold Stackling.resolveParam
  by_cases hp : p.written.isVoid = true
  · rw [if_pos hp]
    exact bind ⟨_, fun _ => .report _ _⟩ (resolve _ _)
  · rw [if_neg hp]
    exact resolve _ _

theorem resolveParams : (params : List Param) →
    OnlyReports (Stackling.resolveParams params) (paramTypes params)
  | [] => pure _
  | p :: rest => (resolveParam p).bind ((resolveParams rest).bind (pure _))

end OnlyReports

/-! ## 4. What is declared -/

/-- A name as it is declared, before a scope holds it. -/
structure Declared where
  name : String
  ty : Ty
  constant : Bool
  function : Bool

/-- The symbol of a name in a scope of a given level. -/
def Declared.symbol (d : Declared) (level : Nat) : Symbol :=
  ⟨d.name, d.ty, d.constant, d.function, level⟩

/-- The symbols of a scope after a name has been declared in it: the first one of a name stays. -/
def adding (level : Nat) (symbols : List Symbol) (d : Declared) : List Symbol :=
  if (symbols.find? fun s => s.name == d.name).isSome then symbols else d.symbol level :: symbols

/-- **A name stands for what it stood for before,** or else for the first one declared. -/
theorem find_adding (level : Nat) (name : String) (ds : List Declared) (symbols : List Symbol) :
    (ds.foldl (adding level) symbols).find? (fun s => s.name == name) =
      (symbols.find? fun s => s.name == name).or
        ((ds.find? fun d => d.name == name).map fun d => d.symbol level) := by
  induction ds generalizing symbols with
  | nil => simp
  | cons d ds ih =>
    rw [List.foldl_cons, ih, List.find?_cons]
    unfold adding
    by_cases he : d.name = name
    · subst he
      cases hs : symbols.find? fun s => s.name == d.name with
      | none => simp [Declared.symbol]
      | some s => simp [hs]
    · have hne : (d.name == name) = false := by simpa using he
      rw [hne]
      split
      · rfl
      · rw [List.find?_cons_of_neg (by simpa [Declared.symbol] using he)]

mutual
/-- What a statement declares in the scope that it stands in. A block adds to the scope around it;
    the blocks of a branch have scopes of their own. -/
def Stmt.declared : Stmt → List Declared
  | .declare _ constant name written _ => [⟨name, written.toTy, constant, false⟩]
  | .block body => body.declared
  | .returns .. | .expr _ | .branch .. | .print .. => []

/-- What a block declares. -/
def Block.declared : Block → List Declared
  | .mk body _ => stmtsDeclared body

/-- What statements declare, one after the other. -/
def stmtsDeclared : List Stmt → List Declared
  | [] => []
  | s :: rest => s.declared ++ stmtsDeclared rest
end

/-! ## 5. Settled steps -/

/-- **A step is settled** if it has findings wherever there is a scope, files types under the
    given numbers only, and changes no scope but the innermost, where it declares `ds`. -/
def Settled (m : Check α) (ids : List Nat) (ds : List Declared) : Prop :=
  ∀ top rest, ∃ x f, Finds m (top :: rest) x f (ds.foldl (adding rest.length) top :: rest) ∧
    ∀ row ∈ f.rows, row.1 ∈ ids

/-- A step that starts in an inner scope and leaves it; of the scopes around, it changes the
    innermost only. -/
def Leaving (m : Check α) (ids : List Nat) (ds : List Declared) : Prop :=
  ∀ top next rest, ∃ x f,
    Finds m (top :: next :: rest) x f (ds.foldl (adding rest.length) next :: rest) ∧
      ∀ row ∈ f.rows, row.1 ∈ ids

theorem Findings.rows_andThen {f g : Findings} {ids : List Nat} (hf : ∀ row ∈ f.rows, row.1 ∈ ids)
    (hg : ∀ row ∈ g.rows, row.1 ∈ ids) : ∀ row ∈ (f.andThen g).rows, row.1 ∈ ids :=
  List.forall_mem_append.mpr ⟨hg, hf⟩

namespace Settled

variable {m n : Check α} {k : α → Check β} {ids ids' : List Nat} {ds ds' : List Declared}

theorem pure (x : α) (ids : List Nat) : Settled (Pure.pure x) ids [] :=
  fun _ _ => ⟨x, .none, .pure x, nofun⟩

/-- **One step after the other declares what both declare.** -/
theorem append (hm : Settled m ids ds) (hk : ∀ x, Settled (k x) ids ds') :
    Settled (m >>= k) ids (ds ++ ds') := by
  intro top rest
  obtain ⟨x, f, h₁, hf⟩ := hm top rest
  obtain ⟨y, g, h₂, hg⟩ := hk x _ rest
  rw [List.foldl_append]
  exact ⟨y, _, h₁.bind h₂, Findings.rows_andThen hf hg⟩

/-- The first step declares nothing. -/
theorem bind (hm : Settled m ids []) (hk : ∀ x, Settled (k x) ids ds) :
    Settled (m >>= k) ids ds := hm.append hk

/-- The second step declares nothing. -/
theorem before (hm : Settled m ids ds) (hk : ∀ x, Settled (k x) ids []) :
    Settled (m >>= k) ids ds := List.append_nil ds ▸ hm.append hk

/-- The first step only reports, and it is known what it gives. -/
theorem after {x : α} (hm : OnlyReports m x) (hk : Settled (k x) ids ds) :
    Settled (m >>= k) ids ds := by
  intro top rest
  obtain ⟨r, h₁⟩ := hm
  obtain ⟨y, g, h₂, hg⟩ := hk top rest
  exact ⟨y, _, (h₁ _).bind h₂, Findings.rows_andThen nofun hg⟩

theorem mono (h : Settled m ids ds) (hsub : ids ⊆ ids') : Settled m ids' ds := by
  intro top rest
  obtain ⟨x, f, h, hf⟩ := h top rest
  exact ⟨x, f, h, fun row hr => hsub (hf row hr)⟩

theorem ite {c : Prop} [Decidable c] (hm : Settled m ids ds) (hn : Settled n ids ds) :
    Settled (if c then m else n) ids ds := by
  split <;> assumption

theorem discard (hm : Settled m ids ds) : Settled (discard m) ids ds := by
  intro top rest
  obtain ⟨x, f, h, hf⟩ := hm top rest
  refine ⟨⟨⟩, f, fun a ha => ?_, hf⟩
  obtain ⟨t, h, ht⟩ := h a ha
  exact ⟨t, discard_eq_ok.mpr ⟨x, h⟩, ht⟩

theorem report (line : Nat) (problem : Problem) (ids : List Nat) :
    Settled (Check.report line problem) ids [] :=
  fun _ _ => ⟨⟨⟩, _, .report line problem, nofun⟩

theorem reportAll (line : Nat) (ids : List Nat) (problems : List Problem) :
    Settled (Check.reportAll line problems) ids [] := by
  obtain ⟨r, h⟩ := OnlyReports.reportAll line problems
  exact fun _ _ => ⟨⟨⟩, _, h _, nofun⟩

theorem reportAny (line : Nat) (ids : List Nat) : (problem : Option Problem) →
    Settled (Check.reportAny line problem) ids []
  | none => pure _ _
  | some p => report line p ids

/-- A report that is made under a condition. -/
theorem reportIf {c : Prop} [Decidable c] (line : Nat) (problem : Problem) (ids : List Nat) :
    Settled (if c then Check.report line problem else Pure.pure ⟨⟩) ids [] :=
  ite (report _ _ _) (pure _ _)

/-- A report under a condition, and what follows either way. -/
theorem reportIfThen {c : Prop} [Decidable c] {line : Nat} {problem : Problem}
    (hm : Settled m ids ds) :
    Settled (if c then Check.report line problem >>= fun _ => m else m) ids ds :=
  ite ((report _ _ _).bind fun _ => hm) hm

theorem file {node : Node} (ty : Ty) (h : node.id ∈ ids) : Settled (Check.file node ty) ids [] :=
  fun _ _ => ⟨ty, _, .file node ty, by simpa using h⟩

/-- **A name is added to the innermost scope,** unless it is there already. -/
theorem declare (name : String) (ty : Ty) (constant function : Bool) (ids : List Nat) :
    Settled (Check.declare name ty constant function) ids [⟨name, ty, constant, function⟩] := by
  intro top rest
  rw [List.foldl_cons, List.foldl_nil, adding]
  cases hn : top.find? (fun s => s.name == name) with
  | none => exact ⟨true, _, .declare name ty constant function hn, nofun⟩
  | some s => exact ⟨false, _, .declare_again ty constant function hn, nofun⟩

/-- A step that looks at the scopes is settled if it does the same wherever they answer alike. -/
theorem look {k : Analysis → Check β} (hk : ∀ a, Settled (k a) ids ds)
    (hsame : ∀ top rest (a a' : Analysis), a.scopes.Like (top :: rest) →
      a'.scopes.Like (top :: rest) → k a = k a') : Settled (get >>= k) ids ds := by
  intro top rest
  by_cases hex : ∃ a : Analysis, a.scopes.Like (top :: rest)
  · obtain ⟨a₀, ha₀⟩ := hex
    obtain ⟨y, f, h, hf⟩ := hk a₀ top rest
    exact ⟨y, f, h.look fun a ha => hsame top rest a a₀ ha ha₀, hf⟩
  · obtain ⟨y, f, -, hf⟩ := hk .initial top rest
    exact ⟨y, f, fun a ha => absurd ⟨a, ha⟩ hex, hf⟩

/-- A scope that is entered is left again. -/
theorem enter {k : PUnit → Check β} (hk : Leaving (k ⟨⟩) ids ds) :
    Settled (Check.enter >>= k) ids ds := by
  intro top rest
  obtain ⟨x, f, h, hf⟩ := hk [] top rest
  exact ⟨x, _, (Finds.enter top rest).bind h, Findings.rows_andThen nofun hf⟩

end Settled

namespace Leaving

variable {m : Check α} {k : α → Check β} {ids : List Nat} {ds ds' : List Declared}

/-- What is declared in the scope that is left does not matter. -/
theorem bind (hm : Settled m ids ds') (hk : ∀ x, Leaving (k x) ids ds) :
    Leaving (m >>= k) ids ds := by
  intro top next rest
  obtain ⟨x, f, h₁, hf⟩ := hm top (next :: rest)
  obtain ⟨y, g, h₂, hg⟩ := hk x _ next rest
  exact ⟨y, _, h₁.bind h₂, Findings.rows_andThen hf hg⟩

/-- It may look at the scopes. -/
theorem look {k : Analysis → Check β} (hk : ∀ a, Leaving (k a) ids ds)
    (hsame : ∀ top rest (a a' : Analysis), a.scopes.Like (top :: rest) →
      a'.scopes.Like (top :: rest) → k a = k a') : Leaving (get >>= k) ids ds := by
  intro top next rest
  by_cases hex : ∃ a : Analysis, a.scopes.Like (top :: next :: rest)
  · obtain ⟨a₀, ha₀⟩ := hex
    obtain ⟨y, f, h, hf⟩ := hk a₀ top next rest
    exact ⟨y, f, h.look fun a ha => hsame top (next :: rest) a a₀ ha ha₀, hf⟩
  · obtain ⟨y, f, -, hf⟩ := hk .initial top next rest
    exact ⟨y, f, fun a ha => absurd ⟨a, ha⟩ hex, hf⟩

theorem leave (ids : List Nat) : Leaving Check.leave ids [] :=
  fun top next rest => ⟨⟨⟩, _, .leave top next rest, nofun⟩

/-- What follows is settled in the scope around. -/
theorem andThen {k : PUnit → Check β} (hk : Settled (k ⟨⟩) ids ds) :
    Leaving (Check.leave >>= k) ids ds := by
  intro top next rest
  obtain ⟨y, f, h, hf⟩ := hk next rest
  exact ⟨y, _, (Finds.leave top next rest).bind h, Findings.rows_andThen nofun hf⟩

end Leaving

/-! ## 6. The steps of the analysis -/

/-- What parameters declare in their scope. -/
def paramsDeclared (params : List Param) (types : List Ty) : List Declared :=
  params.zipWith (fun p ty => ⟨p.name, ty, false, false⟩) types

theorem declareParams_settled (ids : List Nat) (params : List Param) (types : List Ty) :
    Settled (declareParams params types) ids (paramsDeclared params types) := by
  induction params generalizing types with
  | nil => exact .pure _ _
  | cons p params ih =>
    cases types with
    | nil => exact .pure _ _
    | cons ty types => exact (Settled.declare _ _ _ _ _).append fun _ => .reportIfThen (ih _)

theorem checkName_settled (within : Option Enclosing) (line : Nat) (name : String)
    (ids : List Nat) : Settled (checkName within line name) ids [] := by
  refine .look (fun a => ?_) fun top rest a a' ha ha' => by rw [ha.lookup, ha'.lookup]
  split
  · exact (Settled.report _ _ _).bind fun _ => .pure _ _
  · dsimp only
    split
    · exact .reportIfThen (.pure _ _)
    · exact .pure _ _

/-- Whether a call goes to a built-in is seen from the names. -/
theorem ScopeTable.Like.builtinCallee {t t' : ScopeTable} {top : List Symbol}
    {rest : List (List Symbol)} (h : t.Like (top :: rest)) (h' : t'.Like (top :: rest))
    (callee : Expr) : builtinCallee? t callee = builtinCallee? t' callee := by
  cases callee with
  | name node name => simp only [builtinCallee?, h.lookup, h'.lookup]
  | _ => rfl

/-! ## 7. Expressions and statements -/

mutual
/-- **An expression is settled.** -/
theorem checkExpr_settled (within : Option Enclosing) (expected : Option Ty) :
    (e : Expr) → Settled (checkExpr within expected e) e.ids []
  | .int node _ | .text node _ | .char node _ | .bool node _ => by
    unfold checkExpr
    exact .file _ (by simp [Expr.ids])
  | .name node name => by
    unfold checkExpr
    exact (checkName_settled _ _ _ _).bind fun _ => .file _ (by simp [Expr.ids])
  | .binary node op left right => by
    unfold checkExpr
    refine ((checkExpr_settled _ _ left).mono (by simp [Expr.ids])).bind fun l => ?_
    refine ((checkExpr_settled _ _ right).mono (by simp [Expr.ids])).bind fun r => ?_
    exact (Settled.reportAny _ _ _).bind fun _ => .file _ (by simp [Expr.ids])
  | .array node [] => by
    unfold checkExpr
    exact .file _ (by simp [Expr.ids])
  | .array node (first :: rest) => by
    unfold checkExpr
    refine ((checkExpr_settled _ _ first).mono (by simp [Expr.ids, itemIds])).bind fun _ => ?_
    refine .reportIfThen ?_
    refine ((checkItems_settled _ _ _ rest).mono (by simp [Expr.ids, itemIds])).bind fun _ => ?_
    exact .file _ (by simp [Expr.ids])
  | .hash node [] => by
    unfold checkExpr
    exact .file _ (by simp [Expr.ids])
  | .hash node ((key, value) :: rest) => by
    unfold checkExpr
    refine ((checkExpr_settled _ _ key).mono (by simp [Expr.ids, entryIds])).bind fun _ => ?_
    refine ((checkExpr_settled _ _ value).mono (by simp [Expr.ids, entryIds])).bind fun _ => ?_
    refine .reportIfThen (.reportIfThen ?_)
    have hrest : entryIds rest ⊆ (Expr.hash node ((key, value) :: rest)).ids :=
      fun n hn => by simp [Expr.ids, entryIds, hn]
    refine ((checkEntries_settled _ _ _ _ rest).mono hrest).bind fun _ => ?_
    exact .file _ (by simp [Expr.ids])
  | .fn node params written body => by
    unfold checkExpr
    refine .after (.resolve _ _) (.after (.resolveParams _) ?_)
    refine .enter (.look (fun a => ?_) fun top rest a a' ha ha' => by
      simp only [ha.level, ha'.level])
    refine .bind (declareParams_settled _ _ _) fun _ => ?_
    refine .bind ((checkBlock_settled _ body).mono (by simp [Expr.ids])) fun _ => .andThen ?_
    exact .reportIfThen (.file _ (by simp [Expr.ids]))
  | .index node target key => by
    have hkey : ∀ expected, Settled (checkExpr within expected key)
        (Expr.index node target key).ids [] :=
      fun _ => (checkExpr_settled _ _ key).mono (by simp [Expr.ids])
    unfold checkExpr
    refine ((checkExpr_settled _ _ target).mono (by simp [Expr.ids])).bind fun ty => ?_
    split
    · exact (hkey _).bind fun _ => .reportIfThen (.file _ (by simp [Expr.ids]))
    · exact (hkey _).bind fun _ => .reportIfThen (.file _ (by simp [Expr.ids]))
    · exact (hkey _).discard.bind fun _ => (Settled.report _ _ _).bind fun _ =>
        .file _ (by simp [Expr.ids])
  | .call node callee args => by
    have hcallee := (checkExpr_settled within none callee).mono
      (show callee.ids ⊆ (Expr.call node callee args).ids by simp [Expr.ids])
    unfold checkExpr
    refine .look (fun a => ?_) fun top rest a a' ha ha' => by rw [ha.builtinCallee ha']
    split
    · refine hcallee.discard.bind fun _ => ?_
      refine ((checkBuiltinArgs_settled _ _ _ args).mono (by simp [Expr.ids])).bind fun types => ?_
      split
      · exact .file _ (by simp [Expr.ids])
      · exact (Settled.report _ _ _).bind fun _ => .file _ (by simp [Expr.ids])
    · refine hcallee.bind fun ty => ?_
      split
      · refine ((checkArgs_settled _ _ args).mono (by simp [Expr.ids])).bind fun types => ?_
        exact (Settled.reportAll _ _ _).bind fun _ => .file _ (by simp [Expr.ids])
      · refine ((checkArgs_settled _ _ args).mono (by simp [Expr.ids])).discard.bind fun _ => ?_
        exact (Settled.report _ _ _).bind fun _ => .file _ (by simp [Expr.ids])

theorem checkItems_settled (within : Option Enclosing) (line : Nat) (element : Ty) :
    (items : List Expr) → Settled (checkItems within line element items) (itemIds items) []
  | [] => by
    unfold checkItems
    exact .pure _ _
  | item :: rest => by
    unfold checkItems
    refine ((checkExpr_settled _ _ item).mono (by simp [itemIds])).bind fun _ => ?_
    exact .reportIfThen ((checkItems_settled _ _ _ rest).mono (by simp [itemIds]))

theorem checkEntries_settled (within : Option Enclosing) (line : Nat) (key value : Ty) :
    (entries : List (Expr × Expr)) →
      Settled (checkEntries within line key value entries) (entryIds entries) []
  | [] => by
    unfold checkEntries
    exact .pure _ _
  | (k, v) :: rest => by
    unfold checkEntries
    refine ((checkExpr_settled _ _ k).mono (by simp [entryIds])).bind fun _ => ?_
    refine ((checkExpr_settled _ _ v).mono (by simp [entryIds])).bind fun _ => ?_
    exact .reportIfThen (.reportIfThen ((checkEntries_settled _ _ _ _ rest).mono
      (by simp [entryIds])))

theorem checkArgs_settled (within : Option Enclosing) (params : List Ty) :
    (args : List Expr) → Settled (checkArgs within params args) (itemIds args) []
  | [] => by
    unfold checkArgs
    exact .pure _ _
  | arg :: rest => by
    unfold checkArgs
    refine ((checkExpr_settled _ _ arg).mono (by simp [itemIds])).bind fun _ => ?_
    exact ((checkArgs_settled _ _ rest).mono (by simp [itemIds])).bind fun _ => .pure _ _

theorem checkBuiltinArgs_settled (within : Option Enclosing) (b : Builtin) (first : Option Ty) :
    (args : List Expr) → Settled (checkBuiltinArgs within b first args) (itemIds args) []
  | [] => by
    unfold checkBuiltinArgs
    exact .pure _ _
  | arg :: rest => by
    unfold checkBuiltinArgs
    refine ((checkExpr_settled _ _ arg).mono (by simp [itemIds])).bind fun _ => ?_
    exact ((checkBuiltinArgs_settled _ _ _ rest).mono (by simp [itemIds])).bind fun _ => .pure _ _

/-- **A statement is settled.** -/
theorem checkStmt_settled (within : Option Enclosing) :
    (s : Stmt) → Settled (checkStmt within s) s.ids s.declared
  | .declare span constant name written value => by
    have hlast : Settled (do
        if !(← declare name written.toTy constant false) then
          report span.line (.repeatedName constant name))
        (Stmt.declare span constant name written value).ids
        [⟨name, written.toTy, constant, false⟩] :=
      (Settled.declare _ _ _ _ _).before fun _ => .reportIf _ _ _
    unfold checkStmt Stmt.declared
    refine .after (.resolve _ _) ?_
    refine ((checkExpr_settled _ _ value).mono (by simp [Stmt.ids])).bind fun found => ?_
    dsimp only
    split
    · exact (Settled.report _ _ _).bind fun _ => hlast
    · exact .reportIfThen hlast
  | .returns span none => by
    unfold checkStmt Stmt.declared
    cases within with
    | none => exact .report _ _ _
    | some f => exact .reportIf _ _ _
  | .returns span (some value) => by
    unfold checkStmt Stmt.declared
    cases within with
    | none => exact .report _ _ _
    | some f =>
      refine ((checkExpr_settled _ _ value).mono (by simp [Stmt.ids])).bind fun _ => ?_
      exact .reportIf _ _ _
  | .expr value => by
    unfold checkStmt Stmt.declared
    exact ((checkExpr_settled _ _ value).mono (by simp [Stmt.ids])).discard
  | .branch span condition yes none => by
    unfold checkStmt Stmt.declared
    refine ((checkExpr_settled _ _ condition).mono (by simp [Stmt.ids])).bind fun _ => ?_
    refine .reportIfThen (.enter ?_)
    exact .bind ((checkBlock_settled _ yes).mono (by simp [Stmt.ids])) fun _ => .leave _
  | .branch span condition yes (some no) => by
    unfold checkStmt Stmt.declared
    refine ((checkExpr_settled _ _ condition).mono (by simp [Stmt.ids])).bind fun _ => ?_
    refine .reportIfThen (.enter ?_)
    refine .bind ((checkBlock_settled _ yes).mono (by simp [Stmt.ids])) fun _ => .andThen ?_
    refine .enter (.bind ((checkBlock_settled _ no).mono (by simp [Stmt.ids])) fun _ => ?_)
    exact .leave _
  | .print span value => by
    unfold checkStmt Stmt.declared
    refine ((checkExpr_settled _ _ value).mono (by simp [Stmt.ids])).bind fun _ => ?_
    exact .reportIf _ _ _
  | .block body => by
    unfold checkStmt Stmt.declared
    exact (checkBlock_settled _ body).mono (by simp [Stmt.ids])

/-- A block is settled. -/
theorem checkBlock_settled (within : Option Enclosing) :
    (b : Block) → Settled (checkBlock within b) b.ids b.declared
  | .mk body _ => by
    unfold checkBlock Block.declared
    exact (checkStmts_settled _ body).mono (by simp [Block.ids])

/-- **Statements are settled.** -/
theorem checkStmts_settled (within : Option Enclosing) :
    (body : List Stmt) → Settled (checkStmts within body) (stmtIds body) (stmtsDeclared body)
  | [] => by
    unfold checkStmts stmtsDeclared
    exact .pure _ _
  | s :: rest => by
    unfold checkStmts stmtsDeclared
    refine ((checkStmt_settled _ s).mono (by simp [stmtIds])).append fun _ => ?_
    exact (checkStmts_settled _ rest).mono (by simp [stmtIds])
end

end Stackling
