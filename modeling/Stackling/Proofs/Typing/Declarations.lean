import Stackling.Proofs.Typing.FiledTypes
import Stackling.Proofs.Typing.FunctionOrder

/-
  File:     Stackling/Proofs/Typing/Declarations.lean
  Subject:  The names that an analysis declares.

  A quiet analysis can be taken apart into steps that file a type, enter or leave a scope, or
  declare a name. The names are those that the program declares anywhere, in the order in which
  the analysis comes to them, with the types of their annotations. An annotation that is resolved
  quietly is proper, so that no scope ever holds a name of another type.

  * `Run`                    -- a quiet run taken apart, with the names it declares;
  * `Run.symbols`            -- no other names get into a scope;
  * `Program.declarations`   -- what a program declares;
  * `Declares`               -- a step whose quiet runs declare given names, of proper types;
  * `checkProgram_declares`  -- the analysis of a program declares what the program declares;
  * `accepted_types_proper`  -- where nothing is reported, all types are proper.
-/
namespace Stackling

open Check

variable {α β : Type}

/-! ## 1. Runs -/

/-- **A quiet run taken apart,** with the names that it declares. Only `declare` adds a name to a
    scope. -/
inductive Run : {α : Type} → Check α → Analysis → α → Analysis → List Declared → Prop
  | pure {α : Type} (x : α) (a : Analysis) : Run (Pure.pure x) a x a []
  | get (a : Analysis) : Run MonadState.get a a a []
  | file (node : Node) (ty : Ty) (a : Analysis) :
      Run (Check.file node ty) a ty { a with types := a.types.file node.id ty } []
  | enter (a : Analysis) : Run Check.enter a ⟨⟩ { a with scopes := a.scopes.enter } []
  | leave {a : Analysis} {t : ScopeTable} (h : a.scopes.leave? = .ok t) :
      Run Check.leave a ⟨⟩ { a with scopes := t } []
  | declare {a : Analysis} {t : ScopeTable} {d : Declared}
      (h : a.scopes.declare? d.name d.ty d.constant d.function = some t) :
      Run (Check.declare d.name d.ty d.constant d.function) a true { a with scopes := t } [d]
  | bind {α β : Type} {m : Check α} {f : α → Check β} {a b c : Analysis} {x : α} {y : β}
      {ds ds' : List Declared} (hm : Run m a x b ds) (hf : Run (f x) b y c ds') :
      Run (m >>= f) a y c (ds ++ ds')

/-- A run that is taken apart is a quiet run. -/
theorem Run.quiet {m : Check α} {a b : Analysis} {x : α} {ds : List Declared}
    (h : Run m a x b ds) : Quiet m a x b := by
  induction h with
  | pure x a => exact .pure x a
  | get a => exact ⟨rfl, rfl⟩
  | file node ty a => exact .file node ty a
  | enter a => exact .enter a
  | leave h => exact .leave h
  | declare h => exact .declare h
  | bind _ _ ihm ihf => exact ihm.bind ihf

/-! ### Symbols -/

/-- A symbol that some scope of a table holds. -/
def ScopeTable.Holds (t : ScopeTable) (s : Symbol) : Prop := ∃ scope ∈ t.scopes, s ∈ scope.symbols

namespace ScopeTable.Holds

variable {t t' : ScopeTable} {s : Symbol}

theorem of_enter (h : t.enter.Holds s) : t.Holds s := by
  obtain ⟨scope, hscope, hs⟩ := h
  rcases Array.mem_push.mp hscope with hscope | rfl
  · exact ⟨scope, hscope, hs⟩
  · cases hs

theorem of_leave (hl : t.leave? = .ok t') (h : t'.Holds s) : t.Holds s := by
  obtain ⟨scope, hscope, hs⟩ := h
  unfold leave? at hl
  split at hl
  · cases hl
    obtain ⟨i, _, hi⟩ := Array.mem_extract_iff_getElem.mp hscope
    exact ⟨scope, hi ▸ Array.getElem_mem _, hs⟩
  · cases hl

/-- A name that is declared is the only one that is new. -/
theorem of_declare {d : Declared}
    (hd : t.declare? d.name d.ty d.constant d.function = some t') (h : t'.Holds s) :
    t.Holds s ∨ s = d.symbol t.level := by
  obtain ⟨scope, hscope, hs⟩ := h
  unfold declare? at hd
  split at hd
  · cases hd
  · cases hd
    obtain ⟨i, hi, rfl⟩ := Array.mem_iff_getElem.mp hscope
    rw [Array.getElem_modify] at hs
    split at hs
    · rcases List.mem_cons.mp hs with rfl | hs
      · exact .inr rfl
      · exact .inl ⟨_, Array.getElem_mem _, hs⟩
    · exact .inl ⟨_, Array.getElem_mem _, hs⟩

end ScopeTable.Holds

/-- **What a scope holds after a run** it held before, or the run has declared it. -/
theorem Run.symbols {m : Check α} {a b : Analysis} {x : α} {ds : List Declared}
    (h : Run m a x b ds) {s : Symbol} (hs : b.scopes.Holds s) :
    a.scopes.Holds s ∨ ∃ d ∈ ds, ∃ level, s = d.symbol level := by
  induction h with
  | pure | get | file => exact .inl hs
  | enter => exact .inl hs.of_enter
  | leave hl => exact .inl (hs.of_leave hl)
  | declare hd =>
    rcases hs.of_declare hd with hs | rfl
    · exact .inl hs
    · exact .inr ⟨_, List.mem_singleton_self _, _, rfl⟩
  | bind _ _ ihm ihf =>
    rcases ihf hs with hs | ⟨d, hd, hsymbol⟩
    · rcases ihm hs with hs | ⟨d, hd, hsymbol⟩
      · exact .inl hs
      · exact .inr ⟨d, List.mem_append_left _ hd, hsymbol⟩
    · exact .inr ⟨d, List.mem_append_right _ hd, hsymbol⟩

/-! ## 2. What a program declares -/

/-- The parameters of a callable. -/
def paramDeclarations (params : List Param) : List Declared :=
  paramsDeclared params (paramTypes params)

mutual
/-- The names declared in an expression: those in its function literals. -/
def Expr.declarations : Expr → List Declared
  | .int .. | .text .. | .char .. | .bool .. | .name .. => []
  | .binary _ _ left right => left.declarations ++ right.declarations
  | .array _ items => itemDeclarations items
  | .hash _ entries => entryDeclarations entries
  | .fn _ params _ body => paramDeclarations params ++ body.declarations
  | .index _ target key => target.declarations ++ key.declarations
  | .call _ callee args => callee.declarations ++ itemDeclarations args

/-- The names declared in a list of expressions. -/
def itemDeclarations : List Expr → List Declared
  | [] => []
  | e :: rest => e.declarations ++ itemDeclarations rest

/-- The names declared in the entries of a hash. -/
def entryDeclarations : List (Expr × Expr) → List Declared
  | [] => []
  | (k, v) :: rest => k.declarations ++ (v.declarations ++ entryDeclarations rest)

/-- The names declared in a statement, in whatever scope. A declared value comes first. -/
def Stmt.declarations : Stmt → List Declared
  | .declare _ constant name written value =>
    value.declarations ++ [⟨name, written.toTy, constant, false⟩]
  | .expr value | .print _ value => value.declarations
  | .returns _ none => []
  | .returns _ (some value) => value.declarations
  | .branch _ condition yes none => condition.declarations ++ yes.declarations
  | .branch _ condition yes (some no) =>
    condition.declarations ++ (yes.declarations ++ no.declarations)
  | .block body => body.declarations

/-- The names declared in a block. -/
def Block.declarations : Block → List Declared
  | .mk body _ => stmtDeclarations body

/-- The names declared in a list of statements. -/
def stmtDeclarations : List Stmt → List Declared
  | [] => []
  | s :: rest => s.declarations ++ stmtDeclarations rest
end

/-- The names declared in the bodies of some functions, with their parameters. -/
def functionDeclarations : List FunctionDecl → List Declared
  | [] => []
  | f :: rest => paramDeclarations f.params ++ f.body.declarations ++ functionDeclarations rest

/-- **The names that a program declares:** its functions first, then those at top level, then those
    in functions, then those in `main`. -/
def Program.declarations (p : Program) : List Declared :=
  p.functions.map FunctionDecl.declared ++ (stmtDeclarations p.globals ++
    (functionDeclarations p.functions ++ p.main.declarations))

/-! ## 3. Steps that declare names -/

/-- A name of a proper type other than `void`. -/
def Declared.Proper (d : Declared) : Prop := d.ty.Proper ∧ d.ty ≠ .void

/-- **A step declares names** if its quiet runs can be taken apart and declare these names, all of
    them of proper types. The results satisfy `post`. -/
def Declares (m : Check α) (ds : List Declared) (post : α → Prop) : Prop :=
  ∀ ⦃a b : Analysis⦄ ⦃x : α⦄, Quiet m a x b → post x ∧ Run m a x b ds ∧ ∀ d ∈ ds, d.Proper

/-- A step that declares names and has any result. -/
abbrev DeclaresOnly (m : Check α) (ds : List Declared) : Prop := Declares m ds fun _ => True

namespace Declares

variable {m : Check α} {k : Check β} {f : α → Check β} {ds ds' : List Declared} {post : α → Prop}
  {post' : β → Prop} {line : Nat} {problem : Problem}

theorem pure {x : α} (hx : post x) : Declares (Pure.pure x) [] post := by
  intro a b y h
  obtain ⟨rfl, rfl⟩ := h.pure_inv
  exact ⟨hx, .pure _ _, nofun⟩

/-- **One step after the other,** where the second one may be split by the result of the first. -/
theorem appendCases [Grows m] (hg : ∀ x, Grows (f x)) (hm : Declares m ds post)
    (hf : ∀ x, post x → Declares (f x) ds' post') : Declares (m >>= f) (ds ++ ds') post' := by
  intro a c y h
  obtain ⟨x, b, h₁, h₂⟩ := h.bind_inv
  obtain ⟨hx, hrun, hproper⟩ := hm h₁
  obtain ⟨hy, hrun', hproper'⟩ := hf x hx h₂
  exact ⟨hy, hrun.bind hrun', List.forall_mem_append.mpr ⟨hproper, hproper'⟩⟩

/-- The same where the second one declares nothing. -/
theorem beforeCases [Grows m] (hg : ∀ x, Grows (f x)) (hm : Declares m ds post)
    (hf : ∀ x, post x → Declares (f x) [] post') : Declares (m >>= f) ds post' := by
  have h := hm.appendCases hg hf
  rwa [List.append_nil] at h

theorem append [Grows m] [hg : ∀ x, Grows (f x)] (hm : Declares m ds post)
    (hf : ∀ x, post x → Declares (f x) ds' post') : Declares (m >>= f) (ds ++ ds') post' :=
  hm.appendCases hg hf

/-- A step that declares nothing before one that does. -/
theorem after [Grows m] [∀ x, Grows (f x)] (hm : Declares m [] post)
    (hf : ∀ x, post x → Declares (f x) ds post') : Declares (m >>= f) ds post' := hm.append hf

/-- A step that declares nothing behind one that does. -/
theorem before [Grows m] [hg : ∀ x, Grows (f x)] (hm : Declares m ds post)
    (hf : ∀ x, post x → Declares (f x) [] post') : Declares (m >>= f) ds post' :=
  hm.beforeCases hg hf

theorem weaken (h : Declares m ds post) : DeclaresOnly m ds :=
  fun _ _ _ hq => ⟨trivial, (h hq).2⟩

theorem discard [Grows m] (h : Declares m ds post) : DeclaresOnly (Functor.discard m) ds := by
  have heq : Functor.discard m = m >>= fun _ => Pure.pure PUnit.unit := by
    rw [bind_pure_comp]
    rfl
  rw [heq]
  exact h.before fun _ _ => .pure trivial

/-- Where there is a report, nothing is quiet. -/
theorem reported {f : Unit → Check β} [∀ x, Grows (f x)] :
    Declares (report line problem >>= f) ds post' := by
  intro a b y h
  obtain ⟨_, _, h, -⟩ := h.bind_inv
  exact absurd h Quiet.not_report

/-- The same where the report is the last step. -/
theorem report : DeclaresOnly (Check.report line problem) ds :=
  fun _ _ _ h => absurd h Quiet.not_report

theorem reportIf {c : Prop} [Decidable c] :
    DeclaresOnly (if c then Check.report line problem else Pure.pure ⟨⟩) [] := by
  split
  · exact .report
  · exact .pure trivial

/-- A report under a condition, and what follows where it fails. -/
theorem reportIfThen {c : Prop} [Decidable c] [Grows k] (hk : ¬ c → Declares k ds post') :
    Declares (if c then Check.report line problem >>= fun _ => k else k) ds post' := by
  split
  · exact .reported
  · rename_i hc
    exact hk hc

theorem reportAll {problems : List Problem} : DeclaresOnly (Check.reportAll line problems) [] := by
  cases problems with
  | nil => exact .pure trivial
  | cons p rest =>
    unfold Check.reportAll
    exact .reported

theorem reportAny {problem : Option Problem} : DeclaresOnly (Check.reportAny line problem) [] := by
  cases problem with
  | none => exact .pure trivial
  | some p => exact .report

theorem file {node : Node} {ty : Ty} : DeclaresOnly (Check.file node ty) [] := by
  intro a b x h
  obtain ⟨rfl, rfl⟩ := h.file_inv
  exact ⟨trivial, .file _ _ _, nofun⟩

theorem enter : DeclaresOnly Check.enter [] := by
  intro a b x h
  obtain rfl := h.enter_inv
  exact ⟨trivial, .enter _, nofun⟩

theorem leave : DeclaresOnly Check.leave [] := by
  intro a b x h
  obtain ⟨t, ht, rfl⟩ := h.leave_inv
  exact ⟨trivial, .leave ht, nofun⟩

/-- A step that looks at the state. -/
theorem look {f : Analysis → Check β} (hf : ∀ a, Declares (f a) ds post') :
    Declares (get >>= f) ds post' := by
  intro a b y h
  obtain ⟨hy, hrun, hproper⟩ := hf a (Quiet.get_bind.mp h)
  exact ⟨hy, (Run.get a).bind hrun, hproper⟩

/-- **A name is declared** unless that is reported. -/
theorem declare {d : Declared} (hd : d.Proper) [Grows k] (hk : Declares k ds post') :
    Declares (Check.declare d.name d.ty d.constant d.function >>= fun ok =>
      if !ok then Check.report line problem >>= fun _ => k else k) (d :: ds) post' := by
  intro a c y h
  obtain ⟨t, ht, hk'⟩ := h.declare_then_inv
  obtain ⟨hy, hrun, hproper⟩ := hk hk'
  exact ⟨hy, (Run.declare ht).bind hrun, List.forall_mem_cons.mpr ⟨hd, hproper⟩⟩

/-- The same where the name is the last thing. -/
theorem declareLast {d : Declared} (hd : d.Proper) :
    DeclaresOnly (Check.declare d.name d.ty d.constant d.function >>= fun ok =>
      if !ok then Check.report line problem else Pure.pure ⟨⟩) [d] := by
  intro a c y h
  obtain ⟨ok, b, h₁, h₂⟩ := h.bind_inv
  obtain ⟨hok, rfl⟩ := Quiet.report_if.mp h₂
  obtain rfl : ok = true := by simpa using hok
  obtain ⟨t, ht, rfl⟩ := h₁.declare_inv
  exact ⟨trivial, (Run.declare ht).bind (.pure _ _), List.forall_mem_singleton.mpr hd⟩

/-- The type of an annotation is proper. -/
theorem resolve {written : TypeExpr} : Declares (Stackling.resolve line written) []
    fun ty => ty = written.toTy ∧ written.toTy.Proper := by
  intro a b ty h
  obtain ⟨hty, hproper, -⟩ := quiet_resolve.mp h
  unfold Stackling.resolve at h ⊢
  have hsteps : DeclaresOnly (Check.reportAll line written.problems >>= fun _ =>
      Pure.pure written.toTy) [] := Declares.after .reportAll fun _ _ => .pure trivial
  exact ⟨⟨hty, hproper⟩, (hsteps h).2⟩

/-- So are the types of parameters, and none is `void`. -/
theorem resolveParams {params : List Param} : Declares (Stackling.resolveParams params) []
    fun types => types = paramTypes params ∧
      ∀ p ∈ params, p.written.toTy.Proper ∧ p.written.toTy ≠ .void := by
  intro a b types h
  obtain ⟨htypes, hproper, -⟩ := quiet_resolveParams.mp h
  refine ⟨⟨htypes, hproper⟩, ?_⟩
  clear htypes hproper
  suffices hsteps : DeclaresOnly (Stackling.resolveParams params) [] from (hsteps h).2
  clear h
  induction params with
  | nil => exact .pure trivial
  | cons p params ih =>
    have hparam : DeclaresOnly (resolveParam p) [] := by
      unfold resolveParam
      exact .reportIfThen fun _ => resolve.weaken
    unfold Stackling.resolveParams
    exact hparam.after fun _ _ => ih.after fun _ _ => .pure trivial

end Declares

/-! ## 4. Expressions and statements -/

theorem declareParams_declares {params : List Param}
    (hp : ∀ p ∈ params, p.written.toTy.Proper ∧ p.written.toTy ≠ .void) :
    DeclaresOnly (declareParams params (paramTypes params)) (paramDeclarations params) := by
  induction params with
  | nil => exact .pure trivial
  | cons p params ih =>
    obtain ⟨hproper, hp⟩ := List.forall_mem_cons.mp hp
    exact Declares.declare (d := ⟨p.name, p.written.toTy, false, false⟩) hproper (ih hp)

theorem checkName_declares (within : Option Enclosing) (line : Nat) (name : String) :
    DeclaresOnly (checkName within line name) [] := by
  unfold checkName
  refine .look fun a => ?_
  split
  · exact .reported
  · dsimp only
    split
    · exact .reportIfThen fun _ => .pure trivial
    · exact .pure trivial

set_option synthInstance.maxSize 512 in
mutual
/-- **The analysis of an expression declares the names in its function literals.** -/
theorem checkExpr_declares (within : Option Enclosing) (expected : Option Ty) :
    (e : Expr) → DeclaresOnly (checkExpr within expected e) e.declarations
  | .int .. | .text .. | .char .. | .bool .. => by
    unfold checkExpr Expr.declarations
    exact .file
  | .name node name => by
    unfold checkExpr Expr.declarations
    exact (checkName_declares _ _ _).after fun _ _ => .file
  | .binary node op left right => by
    unfold checkExpr Expr.declarations
    refine (checkExpr_declares _ _ left).append fun l _ => ?_
    refine (checkExpr_declares _ _ right).before fun r _ => ?_
    exact Declares.reportAny.after fun _ _ => .file
  | .array node [] => by
    unfold checkExpr Expr.declarations itemDeclarations
    exact .file
  | .array node (first :: rest) => by
    unfold checkExpr Expr.declarations itemDeclarations
    refine (checkExpr_declares _ _ first).append fun _ _ => .reportIfThen fun _ => ?_
    exact (checkItems_declares _ _ _ rest).before fun _ _ => .file
  | .hash node [] => by
    unfold checkExpr Expr.declarations entryDeclarations
    exact .file
  | .hash node ((firstKey, firstValue) :: rest) => by
    unfold checkExpr Expr.declarations entryDeclarations
    refine (checkExpr_declares _ _ firstKey).append fun _ _ => ?_
    refine (checkExpr_declares _ _ firstValue).append fun _ _ => ?_
    refine .reportIfThen fun _ => .reportIfThen fun _ => ?_
    exact (checkEntries_declares _ _ _ _ rest).before fun _ _ => .file
  | .fn node params written body => by
    unfold checkExpr Expr.declarations
    refine Declares.resolve.after fun returns _ => ?_
    refine Declares.resolveParams.after fun types ⟨htypes, hp⟩ => ?_
    subst htypes
    refine Declares.enter.after fun _ _ => .look fun a => ?_
    refine (declareParams_declares hp).append fun _ _ => ?_
    refine (checkBlock_declares _ body).before fun _ _ => ?_
    exact Declares.leave.after fun _ _ => .reportIfThen fun _ => .file
  | .index node target key => by
    unfold checkExpr Expr.declarations
    refine (checkExpr_declares _ _ target).appendCases
      (fun ty => by cases ty <;> infer_instance) fun ty _ => ?_
    split
    · exact (checkExpr_declares _ _ key).before fun _ _ => .reportIfThen fun _ => .file
    · exact (checkExpr_declares _ _ key).before fun _ _ => .reportIfThen fun _ => .file
    · exact (checkExpr_declares _ _ key).discard.before fun _ _ => .reported
  | .call node callee args => by
    unfold checkExpr Expr.declarations
    refine .look fun a => ?_
    split
    · rename_i b _
      have hg : ∀ types : List Ty, Grows (match b.checkCall types with
          | .ok ty => file node ty
          | .error problem => do
            report node.line (.call problem)
            file node (b.fallback types.head?)) := fun types => by
        cases b.checkCall types <;> infer_instance
      refine (checkExpr_declares _ _ callee).discard.append fun _ _ => ?_
      refine (checkBuiltinArgs_declares _ _ _ args).before fun types _ => ?_
      split
      · exact .file
      · exact .reported
    · refine (checkExpr_declares _ _ callee).appendCases
        (fun ty => by cases ty <;> infer_instance) fun ty _ => ?_
      split
      · refine (checkArgs_declares _ _ args).before fun types _ => ?_
        exact Declares.reportAll.after fun _ _ => .file
      · exact (checkArgs_declares _ _ args).discard.before fun _ _ => .reported

theorem checkItems_declares (within : Option Enclosing) (line : Nat) (element : Ty) :
    (items : List Expr) →
      DeclaresOnly (checkItems within line element items) (itemDeclarations items)
  | [] => by
    unfold checkItems itemDeclarations
    exact .pure trivial
  | item :: rest => by
    unfold checkItems itemDeclarations
    refine (checkExpr_declares _ _ item).append fun _ _ => .reportIfThen fun _ => ?_
    exact checkItems_declares _ _ _ rest

theorem checkEntries_declares (within : Option Enclosing) (line : Nat) (key value : Ty) :
    (entries : List (Expr × Expr)) →
      DeclaresOnly (checkEntries within line key value entries) (entryDeclarations entries)
  | [] => by
    unfold checkEntries entryDeclarations
    exact .pure trivial
  | (k, v) :: rest => by
    unfold checkEntries entryDeclarations
    refine (checkExpr_declares _ _ k).append fun _ _ => ?_
    refine (checkExpr_declares _ _ v).append fun _ _ => ?_
    exact .reportIfThen fun _ => .reportIfThen fun _ => checkEntries_declares _ _ _ _ rest

theorem checkArgs_declares (within : Option Enclosing) (params : List Ty) :
    (args : List Expr) → DeclaresOnly (checkArgs within params args) (itemDeclarations args)
  | [] => by
    unfold checkArgs itemDeclarations
    exact .pure trivial
  | arg :: rest => by
    unfold checkArgs itemDeclarations
    refine (checkExpr_declares _ _ arg).append fun _ _ => ?_
    exact (checkArgs_declares _ _ rest).before fun _ _ => .pure trivial

theorem checkBuiltinArgs_declares (within : Option Enclosing) (b : Builtin) (first : Option Ty) :
    (args : List Expr) →
      DeclaresOnly (checkBuiltinArgs within b first args) (itemDeclarations args)
  | [] => by
    unfold checkBuiltinArgs itemDeclarations
    exact .pure trivial
  | arg :: rest => by
    unfold checkBuiltinArgs itemDeclarations
    refine (checkExpr_declares _ _ arg).append fun _ _ => ?_
    exact (checkBuiltinArgs_declares _ _ _ rest).before fun _ _ => .pure trivial

/-- **The analysis of a statement declares the names in it.** -/
theorem checkStmt_declares (within : Option Enclosing) :
    (s : Stmt) → DeclaresOnly (checkStmt within s) s.declarations
  | .declare span constant name written value => by
    unfold checkStmt Stmt.declarations
    refine Declares.resolve.after fun declared ⟨hty, hproper⟩ => ?_
    subst hty
    refine (checkExpr_declares _ _ value).append fun found _ => ?_
    dsimp only
    split
    · exact .reported
    · rename_i hvoid
      have hne : written.toTy ≠ .void := fun h => hvoid ((Ty.isVoid_iff _).mpr h)
      exact .reportIfThen fun _ =>
        .declareLast (d := ⟨name, written.toTy, constant, false⟩) ⟨hproper, hne⟩
  | .returns span none => by
    unfold checkStmt Stmt.declarations
    cases within with
    | none => exact .report
    | some f => exact .reportIf
  | .returns span (some value) => by
    unfold checkStmt Stmt.declarations
    cases within with
    | none => exact .report
    | some f => exact (checkExpr_declares _ _ value).before fun _ _ => .reportIf
  | .expr value => by
    unfold checkStmt Stmt.declarations
    exact (checkExpr_declares _ _ value).discard
  | .branch span condition yes none => by
    unfold checkStmt Stmt.declarations
    refine (checkExpr_declares _ _ condition).append fun _ _ => .reportIfThen fun _ => ?_
    refine Declares.enter.after fun _ _ => ?_
    exact (checkBlock_declares _ yes).before fun _ _ => .leave
  | .branch span condition yes (some no) => by
    unfold checkStmt Stmt.declarations
    refine (checkExpr_declares _ _ condition).append fun _ _ => .reportIfThen fun _ => ?_
    refine Declares.enter.after fun _ _ => (checkBlock_declares _ yes).append fun _ _ => ?_
    refine Declares.leave.after fun _ _ => Declares.enter.after fun _ _ => ?_
    exact (checkBlock_declares _ no).before fun _ _ => .leave
  | .print span value => by
    unfold checkStmt Stmt.declarations
    exact (checkExpr_declares _ _ value).before fun _ _ => .reportIf
  | .block body => by
    unfold checkStmt Stmt.declarations
    exact checkBlock_declares _ body

/-- The analysis of a block declares the names in it. -/
theorem checkBlock_declares (within : Option Enclosing) :
    (b : Block) → DeclaresOnly (checkBlock within b) b.declarations
  | .mk body _ => by
    unfold checkBlock Block.declarations
    exact checkStmts_declares _ body

/-- **The analysis of statements declares the names in them.** -/
theorem checkStmts_declares (within : Option Enclosing) :
    (body : List Stmt) → DeclaresOnly (checkStmts within body) (stmtDeclarations body)
  | [] => by
    unfold checkStmts stmtDeclarations
    exact .pure trivial
  | s :: rest => by
    unfold checkStmts stmtDeclarations
    exact (checkStmt_declares _ s).append fun _ _ => checkStmts_declares _ rest
end

/-! ## 5. Programs -/

theorem declareFunction_declares (f : FunctionDecl) :
    Declares (declareFunction f) [f.declared] fun s => s = f.signature ∧ f.Proper := by
  unfold declareFunction
  refine Declares.resolve.after fun returns ⟨hreturns, hr⟩ => ?_
  refine Declares.resolveParams.after fun params ⟨hparams, hp⟩ => ?_
  subst hreturns hparams
  have hf : f.Proper := ⟨hr, hp⟩
  exact Declares.declare (d := f.declared) hf.ty (.pure ⟨rfl, hf⟩)

theorem declareFunctions_declares (fs : List FunctionDecl) :
    Declares (declareFunctions fs) (fs.map FunctionDecl.declared)
      fun signatures => signatures = fs.map FunctionDecl.signature ∧ ∀ f ∈ fs, f.Proper := by
  induction fs with
  | nil => exact .pure ⟨rfl, nofun⟩
  | cons f fs ih =>
    unfold declareFunctions
    refine (declareFunction_declares f).append fun s ⟨hs, hf⟩ => ?_
    refine ih.before fun signatures ⟨hsignatures, hfs⟩ => .pure ?_
    exact ⟨by rw [hs, hsignatures, List.map_cons], List.forall_mem_cons.mpr ⟨hf, hfs⟩⟩

theorem checkFunctions_declares {fs : List FunctionDecl} (hp : ∀ f ∈ fs, f.Proper) :
    DeclaresOnly (checkFunctions fs (fs.map FunctionDecl.signature)) (functionDeclarations fs) := by
  induction fs with
  | nil => exact .pure trivial
  | cons f fs ih =>
    obtain ⟨hf, hp⟩ := List.forall_mem_cons.mp hp
    have hbody : DeclaresOnly (checkFunction f f.signature)
        (paramDeclarations f.params ++ f.body.declarations) := by
      unfold checkFunction
      refine Declares.enter.after fun _ _ => ?_
      refine (declareParams_declares hf.params).append fun _ _ => ?_
      refine (checkBlock_declares _ f.body).before fun _ _ => ?_
      exact Declares.leave.after fun _ _ => .reportIf
    rw [List.map_cons]
    unfold checkFunctions
    exact hbody.append fun _ _ => ih hp

/-- **The analysis of a program declares what the program declares.** -/
theorem checkProgram_declares (p : Program) :
    DeclaresOnly (checkProgram p) p.declarations := by
  unfold checkProgram
  refine (declareFunctions_declares p.functions).append fun signatures ⟨hs, hp⟩ => ?_
  subst hs
  refine (checkStmts_declares _ p.globals).append fun _ _ => ?_
  refine (checkFunctions_declares hp).append fun _ _ => ?_
  refine Declares.enter.after fun _ _ => ?_
  exact (checkBlock_declares _ p.main).before fun _ _ => .leave

/-- The names that are there from the start are those of the built-ins. -/
theorem initial_proper {s : Symbol} (h : ScopeTable.initial.Holds s) :
    s.ty.Proper ∧ s.ty ≠ .void := by
  have hscopes : ScopeTable.initial.scopes = #[⟨ScopeTable.builtinSymbols, none, 0⟩] := rfl
  obtain ⟨scope, hscope, hs⟩ := h
  rw [hscopes, List.mem_toArray, List.mem_singleton] at hscope
  subst hscope
  obtain ⟨b, -, rfl⟩ := List.mem_map.mp (List.mem_reverse.mp hs)
  exact ⟨b.signature_proper, nofun⟩

/-! ## 6. Accepted programs -/

/-- **Where nothing is reported, all types are proper:** no hash in them has a key that is neither
    an integer nor a string, and `void` is no element, no value of a hash and no parameter, at any
    depth. This goes for the types that are filed, where only a call may be of type `void` itself,
    and for the names that are declared, all through the analysis. -/
theorem accepted_types_proper {tokens : List Token} {p : Program} (h : parse tokens = .ok p)
    {a : Analysis} (ha : typeCheck p = .ok a) (hquiet : a.diagnostics = []) :
    (∀ row ∈ a.types.entries, row.2.Proper) ∧
    (∀ e ∈ p.parts, ∃ ty, a.types.find? e.id = some ty ∧ ty.Proper ∧
      (ty = .void → ∃ node callee args, e = .call node callee args)) ∧
    Run (checkProgram p) .initial ⟨⟩ a p.declarations ∧
    (∀ d ∈ p.declarations, d.ty.Proper ∧ d.ty ≠ .void) ∧
    ∀ s, ScopeTable.initial.Holds s ∨ a.scopes.Holds s → s.ty.Proper ∧ s.ty ≠ .void := by
  obtain ⟨rows, htyped, htypes⟩ := typeCheck_accepts_iff.mp ⟨a, ha, hquiet, rfl⟩
  have hfiled := htyped.rowsFor
  have hnodup : (rows.map (·.1)).Nodup := htyped.ids ▸ parse_nodup h
  obtain ⟨-, hrun, hproper⟩ := checkProgram_declares p (typeCheck_eq_ok_iff.mp ⟨ha, hquiet⟩)
  refine ⟨fun row hrow => ?_, fun e he => ?_, hrun, hproper, fun s hs => ?_⟩
  · rw [htypes] at hrow
    have hmem : row ∈ rows := by simpa [TypeTable.fileAll, TypeTable.empty] using hrow
    exact hfiled.proper row hmem
  · obtain ⟨⟨id, ty⟩, hrow, rfl, hty, hvalue⟩ := hfiled.of_expr he
    exact ⟨ty, by rw [htypes, TypeTable.find?_fileAll hnodup]; exact hrow, hty, hvalue⟩
  · rcases hs with hs | hs
    · exact initial_proper hs
    · rcases hrun.symbols hs with hs | ⟨d, hd, level, rfl⟩
      · exact initial_proper hs
      · exact hproper d hd

/-- A function without a result is called with the result of a literal, after an empty hash has
    been declared. -/
def annotatedSource : String :=
  "fn log(n: int): void \x7b print(n) \x7d fn main() \x7b " ++
    "let xs: hash<string, array<int>> = \x7b\x7d if (true) \x7b " ++
    "const f: fn(int): int = fn(k: int): int \x7b return k \x7d log(f(7)) \x7d \x7d"

/-- Five names are declared in it, a parameter before the constant that holds its literal. The call
    of the function without a result is the expression with the number 9. -/
theorem annotated_types_proper : ∃ tokens p a, tokenize annotatedSource = .ok tokens ∧
    parse tokens = .ok p ∧ typeCheck p = .ok a ∧ a.diagnostics = [] ∧
    a.types.find? 9 = some .void ∧
    p.declarations.map Declared.name = ["log", "n", "xs", "k", "f"] ∧
    ∀ d ∈ p.declarations, d.ty.Proper ∧ d.ty ≠ .void := by
  have hok : (tokenize annotatedSource).toOption.any fun tokens =>
      (parse tokens).toOption.any fun p => (typeCheck p).toOption.any fun a =>
        a.diagnostics.isEmpty && (a.types.find? 9 == some .void &&
          p.declarations.map Declared.name == ["log", "n", "xs", "k", "f"]) := by
    decide +kernel
  obtain ⟨tokens, htokens, hok⟩ := exists_of_any hok
  obtain ⟨p, hp, hok⟩ := exists_of_any hok
  obtain ⟨a, ha, hok⟩ := exists_of_any hok
  simp only [Bool.and_eq_true, List.isEmpty_iff, beq_iff_eq] at hok
  obtain ⟨hquiet, hvoid, hnames⟩ := hok
  exact ⟨tokens, p, a, htokens, hp, ha, hquiet, hvoid, hnames,
    (accepted_types_proper hp ha hquiet).2.2.2.1⟩

end Stackling
