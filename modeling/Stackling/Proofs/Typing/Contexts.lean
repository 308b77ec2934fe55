import Mathlib.Data.List.Forall2
import Stackling.Proofs.Typing.Rules
import Stackling.Proofs.Typing.ScopeStack

/-
  File:     Stackling/Proofs/Typing/Contexts.lean
  Subject:  The table of scopes agrees with the context of the typing rules.

  The table holds symbols with levels, the context holds types, and splits the scopes at the
  callable in question. A name means the same in both.

  * `ScopeTable.Agrees`         -- the table holds the names of the context;
  * `Agrees.lookup_…`           -- what the table finds for a name, by the part of the context
    that has its innermost declaration;
  * `Agrees.declare`, `.enter`, `.leave` -- the operations on the table keep the agreement;
  * `Context.Sane`              -- what every context of a derivation satisfies;
  * `StmtsTyped.grown`          -- statements only add names to the current scope.
-/
namespace Stackling

/-! ## 1. Agreement -/

/-- Whether a global name is declared as a function. -/
def Entity.isFunction : Entity → Bool
  | builtin _ | function _ _ => true
  | value _ => false

/-- A symbol of the global scope. -/
structure GlobalSymbol (s : Symbol) (x : String × Entity) : Prop where
  name : s.name = x.1
  ty : s.ty = x.2.ty
  function : s.function = x.2.isFunction
  level : s.level = 0

/-- A symbol of a scope inside the global one. -/
structure LocalSymbol (level : Nat) (s : Symbol) (x : String × Ty) : Prop where
  name : s.name = x.1
  ty : s.ty = x.2
  function : s.function = false
  level : s.level = level

/-- A stack of symbols that holds local scopes above the global one. -/
inductive Stacked (globals : List (String × Entity)) : List Locals → List (List Symbol) → Prop
  | global {symbols : List Symbol} (h : List.Forall₂ GlobalSymbol symbols globals) :
      Stacked globals [] [symbols]
  | scope {scope : Locals} {scopes : List Locals} {symbols : List Symbol}
      {stack : List (List Symbol)} (h : List.Forall₂ (LocalSymbol stack.length) symbols scope)
      (hs : Stacked globals scopes stack) : Stacked globals (scope :: scopes) (symbols :: stack)

/-- The table holds exactly the names of the context, scope by scope. -/
def ScopeTable.Agrees (t : ScopeTable) (Γ : Context) : Prop :=
  ∃ stack, t.Shows stack ∧ Stacked Γ.globals (Γ.scopes ++ Γ.outer) stack

/-- The search for a name among symbols is the search for it among entries. -/
theorem find_of_forall₂ {γ : Type} {R : Symbol → String × γ → Prop} {symbols : List Symbol}
    {entries : List (String × γ)} (hR : ∀ s x, R s x → s.name = x.1)
    (h : List.Forall₂ R symbols entries) (name : String) :
    (entries.lookup name = none ∧ symbols.find? (fun s => s.name == name) = none) ∨
      ∃ v s, entries.lookup name = some v ∧ symbols.find? (fun s => s.name == name) = some s ∧
        R s (name, v) := by
  induction h with
  | nil => exact .inl ⟨rfl, rfl⟩
  | @cons s x symbols entries hs _ ih =>
    obtain ⟨key, v⟩ := x
    have hn : s.name = key := hR _ _ hs
    by_cases hk : key = name
    · subst hk
      exact .inr ⟨v, s, by simp, by simp [hn], hs⟩
    · have h₁ : (name == key) = false := by simpa using Ne.symm hk
      have h₂ : (s.name == name) = false := by simpa [hn] using hk
      simpa only [List.lookup_cons, h₁, List.find?_cons, h₂] using ih

namespace Stacked

variable {globals : List (String × Entity)} {stack : List (List Symbol)} {name : String}

theorem length {scopes : List Locals} (h : Stacked globals scopes stack) :
    stack.length = scopes.length + 1 := by
  induction h with
  | global => rfl
  | scope _ _ ih => simp [ih]

/-- A name of one of the upper scopes is found there. -/
theorem find_upper {upper lower : List Locals} {ty : Ty}
    (h : Stacked globals (upper ++ lower) stack)
    (hf : upper.findSome? (List.lookup name) = some ty) :
    ∃ s, (stack.findSome? fun scope => scope.find? fun s => s.name == name) = some s ∧
      s.ty = ty ∧ s.function = false ∧ lower.length < s.level ∧
        s.level ≤ upper.length + lower.length := by
  induction upper generalizing stack with
  | nil => simp at hf
  | cons scope upper ih =>
    cases h with
    | scope h hs =>
      rw [List.findSome?_cons] at hf
      rw [List.findSome?_cons]
      have hlen : _ = (upper ++ lower).length + 1 := hs.length
      rw [List.length_append] at hlen
      rcases find_of_forall₂ (fun _ _ h => h.name) h name with ⟨hn, hn'⟩ | ⟨v, s, hv, hs', hR⟩
      · rw [hn] at hf
        rw [hn']
        obtain ⟨s, h₁, h₂, h₃, h₄, h₅⟩ := ih hs hf
        exact ⟨s, h₁, h₂, h₃, h₄, by simp; omega⟩
      · rw [hv] at hf
        rw [hs']
        obtain rfl : v = ty := Option.some.inj hf
        have hl : s.level = upper.length + lower.length + 1 := by rw [hR.level, hlen]
        exact ⟨s, rfl, hR.ty, hR.function, by omega, by simp; omega⟩

/-- A name that no upper scope has is found in the scopes below. -/
theorem find_lower {upper lower : List Locals} (h : Stacked globals (upper ++ lower) stack)
    (hf : upper.findSome? (List.lookup name) = none) :
    ∃ below, Stacked globals lower below ∧
      (stack.findSome? fun scope => scope.find? fun s => s.name == name) =
        below.findSome? fun scope => scope.find? fun s => s.name == name := by
  induction upper generalizing stack with
  | nil => exact ⟨stack, h, rfl⟩
  | cons scope upper ih =>
    cases h with
    | scope h hs =>
      rw [List.findSome?_cons] at hf
      rcases find_of_forall₂ (fun _ _ h => h.name) h name with ⟨hn, hn'⟩ | ⟨v, s, hv, -, -⟩
      · rw [hn] at hf
        obtain ⟨below, h₁, h₂⟩ := ih hs hf
        exact ⟨below, h₁, by rw [List.findSome?_cons, hn', h₂]⟩
      · rw [hv] at hf
        cases hf

theorem find_global (h : Stacked globals [] stack) :
    (globals.lookup name = none ∧
        (stack.findSome? fun scope => scope.find? fun s => s.name == name) = none) ∨
      ∃ e s, globals.lookup name = some e ∧
        (stack.findSome? fun scope => scope.find? fun s => s.name == name) = some s ∧
          GlobalSymbol s (name, e) := by
  cases h with
  | global h =>
    rcases find_of_forall₂ (fun _ _ h => h.name) h name with ⟨hn, hn'⟩ | ⟨e, s, he, hs, hR⟩
    · exact .inl ⟨hn, by simp [hn']⟩
    · exact .inr ⟨e, s, he, by simp [hs], hR⟩

end Stacked

namespace ScopeTable.Agrees

variable {t : ScopeTable} {Γ : Context} {name : String}

/-- The table finds the symbol that the stack finds. -/
theorem lookup_eq {stack : List (List Symbol)} (hs : t.Shows stack)
    (hg : Stacked Γ.globals (Γ.scopes ++ Γ.outer) stack) (name : String) :
    t.lookup? name = stack.findSome? fun scope => scope.find? fun s => s.name == name := by
  cases stack with
  | nil => exact absurd hg.length (by simp)
  | cons symbols rest => exact hs.lookup name

/-- A name of the callable in question is a symbol above the scopes around it. -/
theorem lookup_local (h : t.Agrees Γ) {ty : Ty}
    (hf : Γ.scopes.findSome? (List.lookup name) = some ty) :
    ∃ s, t.lookup? name = some s ∧ s.ty = ty ∧ s.function = false ∧ Γ.outer.length < s.level := by
  obtain ⟨stack, hs, hg⟩ := h
  obtain ⟨s, h₁, h₂, h₃, h₄, -⟩ := hg.find_upper hf
  exact ⟨s, by rw [lookup_eq hs hg, h₁], h₂, h₃, h₄⟩

/-- A local of a callable further out is a symbol at one of the levels in between. -/
theorem lookup_outer (h : t.Agrees Γ) {ty : Ty}
    (hn : Γ.scopes.findSome? (List.lookup name) = none)
    (hf : Γ.outer.findSome? (List.lookup name) = some ty) :
    ∃ s, t.lookup? name = some s ∧ s.function = false ∧ 0 < s.level ∧
      s.level ≤ Γ.outer.length := by
  obtain ⟨stack, hs, hg⟩ := h
  obtain ⟨below, hb, heq⟩ := hg.find_lower hn
  have hb : Stacked Γ.globals (Γ.outer ++ []) below := by simpa using hb
  obtain ⟨s, h₁, -, h₃, h₄, h₅⟩ := hb.find_upper hf
  exact ⟨s, by rw [lookup_eq hs hg, heq, h₁], h₃, h₄, by simpa using h₅⟩

/-- Any other name is a global symbol, or none at all. -/
theorem lookup_global (h : t.Agrees Γ) (hn : Γ.scopes.findSome? (List.lookup name) = none)
    (ho : Γ.outer.findSome? (List.lookup name) = none) :
    (Γ.globals.lookup name = none ∧ t.lookup? name = none) ∨
      ∃ e s, Γ.globals.lookup name = some e ∧ t.lookup? name = some s ∧
        GlobalSymbol s (name, e) := by
  obtain ⟨stack, hs, hg⟩ := h
  obtain ⟨below, hb, heq⟩ := hg.find_lower hn
  have hb : Stacked Γ.globals (Γ.outer ++ []) below := by simpa using hb
  obtain ⟨lowest, hl, heq'⟩ := hb.find_lower ho
  rw [lookup_eq hs hg, heq, heq']
  exact hl.find_global

/-- Entering a scope opens an empty one. -/
theorem enter (h : t.Agrees Γ) {Γ' : Context} (hg : Γ'.globals = Γ.globals)
    (hs : Γ'.scopes ++ Γ'.outer = [] :: (Γ.scopes ++ Γ.outer)) : t.enter.Agrees Γ' := by
  obtain ⟨stack, ht, hst⟩ := h
  cases stack with
  | nil => exact absurd hst.length (by simp)
  | cons symbols rest =>
    refine ⟨_, ht.enter, ?_⟩
    rw [hs, hg]
    exact .scope .nil hst

theorem enter_branch (h : t.Agrees Γ) : t.enter.Agrees Γ.branch := h.enter rfl rfl

/-- The level of the current scope counts the scopes inside the global one. -/
theorem level (h : t.Agrees Γ) : t.level = (Γ.scopes ++ Γ.outer).length := by
  obtain ⟨stack, ht, hst⟩ := h
  have hl := hst.length
  cases stack with
  | nil => simp at hl
  | cons symbols rest =>
    rw [ht.level]
    simpa using hl

/-- Leaving a scope drops the innermost one. -/
theorem leave (h : t.Agrees Γ) {Γ' : Context} {scope : Locals} (hg : Γ'.globals = Γ.globals)
    (hs : Γ.scopes ++ Γ.outer = scope :: (Γ'.scopes ++ Γ'.outer)) :
    ∃ t', t.leave? = .ok t' ∧ t'.Agrees Γ' := by
  obtain ⟨stack, ht, hst⟩ := h
  rw [hs] at hst
  cases hst with
  | @scope _ _ symbols stack _ hst =>
    have hne : stack ≠ [] := by
      rintro rfl
      exact absurd hst.length (by simp)
    obtain ⟨t', h₁, h₂⟩ := ht.leave hne
    exact ⟨t', h₁, stack, h₂, hg ▸ hst⟩

/-- A name that the rules let be declared is declared. -/
theorem declare (h : t.Agrees Γ) {Γ' : Context} {ty : Ty} (ho : Γ.scopes = [] → Γ.outer = [])
    (hd : Γ.Declares name ty Γ') (constant : Bool) :
    ∃ t', t.declare? name ty constant false = some t' ∧ t'.Agrees Γ' := by
  obtain ⟨stack, ht, hst⟩ := h
  cases hd with
  | global fresh =>
    obtain rfl := ho rfl
    cases hst with
    | @global symbols hs =>
      rcases find_of_forall₂ (fun _ _ h => h.name) hs name with ⟨-, hn⟩ | ⟨v, s, hv, -, -⟩
      · obtain ⟨t', h₁, h₂⟩ := ht.declare name ty constant false hn
        exact ⟨t', h₁, _, h₂, .global (.cons ⟨rfl, rfl, rfl, rfl⟩ hs)⟩
      · rw [fresh] at hv
        cases hv
  | «local» fresh =>
    cases hst with
    | scope hs hrest =>
      rcases find_of_forall₂ (fun _ _ h => h.name) hs name with ⟨-, hn⟩ | ⟨v, s, hv, -, -⟩
      · obtain ⟨t', h₁, h₂⟩ := ht.declare name ty constant false hn
        exact ⟨t', h₁, _, h₂, .scope (.cons ⟨rfl, rfl, rfl, rfl⟩ hs) hrest⟩
      · rw [fresh] at hv
        cases hv

/-- A name that is declared is one that the rules let be declared. -/
theorem declares_of_some (h : t.Agrees Γ) {t' : ScopeTable} {ty : Ty} {constant : Bool}
    (ho : Γ.scopes = [] → Γ.outer = []) (hd : t.declare? name ty constant false = some t') :
    ∃ Γ', Γ.Declares name ty Γ' := by
  obtain ⟨scopes, outer, globals⟩ := Γ
  obtain ⟨stack, ht, hst⟩ := h
  cases scopes with
  | nil =>
    obtain rfl := ho rfl
    cases hst with
    | @global symbols hs =>
      rcases find_of_forall₂ (fun _ _ h => h.name) hs name with ⟨hn, -⟩ | ⟨v, s, -, hf, -⟩
      · exact ⟨_, .global hn⟩
      · rw [ht.declare_none ty constant false hf] at hd
        cases hd
  | cons scope scopes =>
    cases hst with
    | scope hs hrest =>
      rcases find_of_forall₂ (fun _ _ h => h.name) hs name with ⟨hn, -⟩ | ⟨v, s, -, hf, -⟩
      · exact ⟨_, .local hn⟩
      · rw [ht.declare_none ty constant false hf] at hd
        cases hd

/-- A function is declared if no global name is like its own. -/
theorem declareFunction {globals : List (String × Entity)} (params : List Ty) (result : Ty)
    (h : t.Agrees ⟨[], [], globals⟩) (fresh : globals.lookup name = none) :
    ∃ t', t.declare? name (.fn params result) false true = some t' ∧
      t'.Agrees ⟨[], [], (name, .function params result) :: globals⟩ := by
  obtain ⟨stack, ht, hst⟩ := h
  cases hst with
  | @global symbols hs =>
    rcases find_of_forall₂ (fun _ _ h => h.name) hs name with ⟨-, hn⟩ | ⟨v, s, hv, -, -⟩
    · obtain ⟨t', h₁, h₂⟩ := ht.declare name (.fn params result) false true hn
      exact ⟨t', h₁, _, h₂, .global (.cons ⟨rfl, rfl, rfl, rfl⟩ hs)⟩
    · rw [fresh] at hv
      cases hv

/-- A function that is declared has a name like no other global one. -/
theorem fresh_of_some {globals : List (String × Entity)} {t' : ScopeTable} {ty : Ty}
    {constant function : Bool} (h : t.Agrees ⟨[], [], globals⟩)
    (hd : t.declare? name ty constant function = some t') : globals.lookup name = none := by
  obtain ⟨stack, ht, hst⟩ := h
  cases hst with
  | @global symbols hs =>
    rcases find_of_forall₂ (fun _ _ h => h.name) hs name with ⟨hn, -⟩ | ⟨v, s, -, hf, -⟩
    · exact hn
    · rw [ht.declare_none ty constant function hf] at hd
      cases hd

end ScopeTable.Agrees

/-! ## 2. Contexts of a derivation -/

/-- What every context of a derivation satisfies: the built-ins are global under their names,
    no name is of an improper type or `void`, and outside all scopes there is no callable
    around. -/
structure Context.Sane (Γ : Context) : Prop where
  builtins (name : String) (b : Builtin) :
    Γ.globals.lookup name = some (.builtin b) ↔ Builtin.ofName? name = some b
  locals : ∀ scope ∈ Γ.scopes ++ Γ.outer, ∀ x ∈ scope, x.2.Proper ∧ x.2 ≠ Ty.void
  globals : ∀ x ∈ Γ.globals, x.2.ty.Proper ∧ x.2.ty ≠ .void
  outermost : Γ.scopes = [] → Γ.outer = []

theorem mem_of_lookup {α : Type} {l : List (String × α)} {name : String} {v : α}
    (h : l.lookup name = some v) : (name, v) ∈ l := by
  induction l with
  | nil => cases h
  | cons x l ih =>
    obtain ⟨key, w⟩ := x
    rw [List.lookup_cons] at h
    by_cases hk : name = key
    · subst hk
      simp only [beq_self_eq_true, Option.some.injEq] at h
      exact h ▸ List.mem_cons_self
    · have : (name == key) = false := by simpa using hk
      rw [this] at h
      exact List.mem_cons_of_mem _ (ih h)

namespace Context.Sane

variable {Γ Γ' : Context} {name : String} {ty : Ty}

theorem branch (h : Γ.Sane) : Γ.branch.Sane where
  builtins := h.builtins
  locals := by
    intro scope hs
    rcases List.mem_cons.mp hs with rfl | hs
    · simp
    · exact h.locals scope hs
  globals := h.globals
  outermost h := by cases h

theorem literal (h : Γ.Sane) {params : Locals} (hp : ∀ x ∈ params, x.2.Proper ∧ x.2 ≠ Ty.void) :
    (Γ.literal params).Sane where
  builtins := h.builtins
  locals := by
    intro scope hs
    rcases List.mem_cons.mp hs with rfl | hs
    · exact hp
    · exact h.locals scope hs
  globals := h.globals
  outermost h := by cases h

/-- A new global name that is not a built-in keeps the context sane. -/
theorem addGlobal {globals : List (String × Entity)} {e : Entity}
    (h : Context.Sane ⟨[], [], globals⟩) (fresh : globals.lookup name = none)
    (hb : ∀ b, e ≠ .builtin b) (hp : e.ty.Proper) (hv : e.ty ≠ .void) :
    Context.Sane ⟨[], [], (name, e) :: globals⟩ where
  builtins other b := by
    rw [← h.builtins, List.lookup_cons]
    by_cases hn : other = name
    · subst hn
      simp [fresh, hb b]
    · have : (other == name) = false := by simpa using hn
      simp [this]
  locals := nofun
  globals := by
    intro x hx
    rcases List.mem_cons.mp hx with rfl | hx
    · exact ⟨hp, hv⟩
    · exact h.globals x hx
  outermost _ := rfl

theorem declares (h : Γ.Sane) (hd : Γ.Declares name ty Γ') (hp : ty.Proper) (hv : ty ≠ .void) :
    Γ'.Sane := by
  cases hd with
  | @global outer globals fresh =>
    obtain rfl : outer = [] := h.outermost rfl
    exact h.addGlobal fresh nofun hp hv
  | @«local» scope rest outer globals fresh =>
    refine ⟨h.builtins, ?_, h.globals, nofun⟩
    intro other hs
    rcases List.mem_cons.mp hs with rfl | hs
    · intro x hx
      rcases List.mem_cons.mp hx with rfl | hx
      · exact ⟨hp, hv⟩
      · exact h.locals scope List.mem_cons_self x hx
    · exact h.locals other (List.mem_cons_of_mem _ hs)

/-- A name in scope is of a proper type other than `void`. -/
theorem find (h : Γ.Sane) {e : Entity} (hf : Γ.find? name = some e) :
    e.ty.Proper ∧ e.ty ≠ .void := by
  unfold Context.find? at hf
  split at hf
  · rename_i ty hs
    cases hf
    obtain ⟨scope, hmem, hl⟩ := List.exists_of_findSome?_eq_some hs
    exact h.locals scope (List.mem_append_left _ hmem) _ (mem_of_lookup hl)
  · split at hf
    · cases hf
    · exact h.globals _ (mem_of_lookup hf)

end Context.Sane

/-! ## 3. What statements do to the context -/

/-- The second context has the scopes of the first one, with more names in the current scope. -/
structure Context.Grown (Γ Γ' : Context) : Prop where
  tail : Γ'.scopes.tail = Γ.scopes.tail
  length : Γ'.scopes.length = Γ.scopes.length
  outer : Γ'.outer = Γ.outer
  globals : Γ.scopes ≠ [] → Γ'.globals = Γ.globals

namespace Context.Grown

theorem refl (Γ : Context) : Γ.Grown Γ := ⟨rfl, rfl, rfl, fun _ => rfl⟩

theorem trans {Γ Γ₁ Γ₂ : Context} (h : Γ.Grown Γ₁) (h' : Γ₁.Grown Γ₂) : Γ.Grown Γ₂ where
  tail := h'.tail.trans h.tail
  length := h'.length.trans h.length
  outer := h'.outer.trans h.outer
  globals hn := by
    have : Γ₁.scopes ≠ [] := by
      have := h.length
      intro he
      rw [he] at this
      exact hn (List.length_eq_zero_iff.mp this.symm)
    exact (h'.globals this).trans (h.globals hn)

theorem of_declares {Γ Γ' : Context} {name : String} {ty : Ty} (h : Γ.Declares name ty Γ') :
    Γ.Grown Γ' := by
  cases h with
  | global => exact ⟨rfl, rfl, rfl, fun h => absurd rfl h⟩
  | «local» => exact ⟨rfl, rfl, rfl, fun _ => rfl⟩

/-- Outside all scopes only global names are added. -/
theorem outside {globals : List (String × Entity)} {Γ : Context}
    (h : Context.Grown ⟨[], [], globals⟩ Γ) : ∃ globals', Γ = ⟨[], [], globals'⟩ := by
  obtain ⟨scopes, outer, globals'⟩ := Γ
  have hl : scopes.length = 0 := h.length
  have ho : outer = [] := h.outer
  rw [List.length_eq_zero_iff] at hl
  subst hl ho
  exact ⟨globals', rfl⟩

end Context.Grown

/-- The second context has one more scope than the first one. -/
structure Context.Opened (Γ Γ' : Context) : Prop where
  scopes : ∃ scope, Γ'.scopes ++ Γ'.outer = scope :: (Γ.scopes ++ Γ.outer)
  inner : Γ'.scopes ≠ []
  globals : Γ'.globals = Γ.globals

namespace Context.Opened

theorem branch (Γ : Context) : Γ.Opened Γ.branch := ⟨⟨[], rfl⟩, nofun, rfl⟩

theorem literal (Γ : Context) (params : Locals) : Γ.Opened (Γ.literal params) :=
  ⟨⟨params, rfl⟩, nofun, rfl⟩

theorem function (globals : List (String × Entity)) (params : Locals) :
    Context.Opened ⟨[], [], globals⟩ ⟨[params], [], globals⟩ := ⟨⟨params, rfl⟩, nofun, rfl⟩

/-- A scope stays open while statements add names to it. -/
theorem grown {Γ Γ₁ Γ₂ : Context} (h : Γ.Opened Γ₁) (hg : Γ₁.Grown Γ₂) : Γ.Opened Γ₂ := by
  obtain ⟨scope, hs⟩ := h.scopes
  have ht := hg.tail
  have hl := hg.length
  cases h₁ : Γ₁.scopes with
  | nil => exact absurd h₁ h.inner
  | cons scope₁ rest₁ =>
    rw [h₁] at ht hl hs
    cases h₂ : Γ₂.scopes with
    | nil => simp [h₂] at hl
    | cons scope₂ rest₂ =>
      rw [h₂] at ht
      obtain rfl : rest₂ = rest₁ := ht
      refine ⟨⟨scope₂, ?_⟩, by simp [h₂], (hg.globals h.inner).trans h.globals⟩
      rw [List.cons_append, List.cons.injEq] at hs
      rw [h₂, hg.outer, List.cons_append, hs.2]

/-- **Leaving the scope leads back.** -/
theorem leave {Γ Γ' : Context} (h : Γ.Opened Γ') {t : ScopeTable} (ha : t.Agrees Γ') :
    ∃ t', t.leave? = .ok t' ∧ t'.Agrees Γ := by
  obtain ⟨scope, hs⟩ := h.scopes
  exact ha.leave h.globals.symm hs

end Context.Opened

mutual
/-- **A statement only adds names to the current scope.** -/
theorem StmtTyped.grown {Γ Γ' : Context} {returns : Option Ty} {rows : Rows} :
    (s : Stmt) → StmtTyped Γ returns s Γ' rows → Γ.Grown Γ'
  | .declare .., .declare _ _ _ hd => .of_declares hd
  | .returns .., .returnsNothing => .refl _
  | .returns .., .returns _ => .refl _
  | .expr _, .expr _ => .refl _
  | .branch .., .branch _ _ => .refl _
  | .branch .., .branchElse _ _ _ => .refl _
  | .print .., .print _ _ => .refl _
  | .block (.mk body _), .block hb => StmtsTyped.grown body hb

theorem StmtsTyped.grown {Γ Γ' : Context} {returns : Option Ty} {rows : Rows} :
    (body : List Stmt) → StmtsTyped Γ returns body Γ' rows → Γ.Grown Γ'
  | [], .nil => .refl _
  | s :: rest, .cons hs hr => (StmtTyped.grown s hs).trans (StmtsTyped.grown rest hr)
end

mutual
/-- Statements keep the context sane. -/
theorem StmtTyped.sane {Γ Γ' : Context} {returns : Option Ty} {rows : Rows} (h : Γ.Sane) :
    (s : Stmt) → StmtTyped Γ returns s Γ' rows → Γ'.Sane
  | .declare .., .declare hw hv _ hd => h.declares hd hw hv
  | .returns .., .returnsNothing => h
  | .returns .., .returns _ => h
  | .expr _, .expr _ => h
  | .branch .., .branch _ _ => h
  | .branch .., .branchElse _ _ _ => h
  | .print .., .print _ _ => h
  | .block (.mk body _), .block hb => StmtsTyped.sane h body hb

theorem StmtsTyped.sane {Γ Γ' : Context} {returns : Option Ty} {rows : Rows} (h : Γ.Sane) :
    (body : List Stmt) → StmtsTyped Γ returns body Γ' rows → Γ'.Sane
  | [], .nil => h
  | s :: rest, .cons hs hr => StmtsTyped.sane (StmtTyped.sane h s hs) rest hr
end

end Stackling
