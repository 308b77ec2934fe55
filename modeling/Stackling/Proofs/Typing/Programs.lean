import Mathlib.Data.List.Nodup
import Stackling.Proofs.Typing.Complete
import Stackling.Proofs.Typing.Sound

/-
  File:     Stackling/Proofs/Typing/Programs.lean
  Subject:  The analysis of a program accepts exactly the well typed programs.

  * `Context.sane_entries`    -- functions and built-ins make a sane context;
  * `checkProgram_sound`      -- a program that is analysed quietly is well typed;
  * `ProgramTyped.quiet`      -- and the other way round;
  * `typeCheck_accepts_iff`   -- no diagnostic, or a derivation, with the rows of the table.
-/
namespace Stackling

open Check

/-! ## 1. Global names -/

theorem lookup_eq_none_iff {α : Type} {l : List (String × α)} {name : String} :
    l.lookup name = none ↔ name ∉ l.map (·.1) := by
  rw [List.lookup_eq_none_iff]
  constructor
  · intro h hm
    obtain ⟨x, hx, rfl⟩ := List.mem_map.mp hm
    simpa using h x hx
  · intro h x hx
    have hne : name ≠ x.1 := fun he => h (List.mem_map.mpr ⟨x, hx, he.symm⟩)
    simpa using hne

/-- A name of a later function is not that of the first one. -/
theorem lookup_entry_cons {f g : FunctionDecl} {fs : List FunctionDecl}
    {globals : List (String × Entity)} (hf : f.name ∉ fs.map (·.name)) (hg : g ∈ fs) :
    List.lookup g.name (f.entry :: globals) = globals.lookup g.name := by
  have hne : (g.name == f.entry.1) = false := by
    rw [beq_eq_false_iff_ne]
    exact fun he => hf (List.mem_map.mpr ⟨g, hg, he⟩)
  rw [List.lookup_cons, hne]

/-- The global names after the functions have been declared. -/
def withFunctions (fs : List FunctionDecl) (globals : List (String × Entity)) :
    List (String × Entity) := (fs.map FunctionDecl.entry).reverse ++ globals

theorem withFunctions_cons (f : FunctionDecl) (fs : List FunctionDecl)
    (globals : List (String × Entity)) :
    withFunctions (f :: fs) globals = withFunctions fs (f.entry :: globals) := by
  simp [withFunctions]

/-- Names are different exactly if each is new when it is declared. -/
theorem nodup_withFunctions {fs : List FunctionDecl} {globals : List (String × Entity)} :
    ((withFunctions fs globals).map (·.1)).Nodup ↔ (fs.map (·.name)).Nodup ∧
      (∀ f ∈ fs, globals.lookup f.name = none) ∧ (globals.map (·.1)).Nodup := by
  have hmap : (fs.map FunctionDecl.entry).reverse.map (·.1) = (fs.map (·.name)).reverse := by
    simp [FunctionDecl.entry, Function.comp_def]
  rw [withFunctions, List.map_append, hmap, List.nodup_append, List.nodup_reverse]
  constructor
  · rintro ⟨h₁, h₂, h₃⟩
    refine ⟨h₁, fun f hf => lookup_eq_none_iff.mpr fun hm => ?_, h₂⟩
    exact h₃ f.name (List.mem_reverse.mpr (List.mem_map_of_mem hf)) _ hm rfl
  · rintro ⟨h₁, h₂, h₃⟩
    refine ⟨h₁, h₃, ?_⟩
    rintro name hn _ hm rfl
    obtain ⟨f, hf, rfl⟩ := List.mem_map.mp (List.mem_reverse.mp hn)
    exact lookup_eq_none_iff.mp (h₂ f hf) hm

theorem nodup_builtinEntries : (builtinEntries.map (·.1)).Nodup := by decide

/-- A function with proper parameters and a proper result. -/
structure FunctionDecl.Proper (f : FunctionDecl) : Prop where
  returns : f.returns.toTy.Proper
  params : ∀ p ∈ f.params, p.written.toTy.Proper ∧ p.written.toTy ≠ .void

theorem FunctionDecl.Proper.ty {f : FunctionDecl} (h : f.Proper) :
    f.entry.2.ty.Proper ∧ f.entry.2.ty ≠ .void := by
  refine ⟨.fn ?_ ?_ h.returns, nofun⟩
  · intro p hp
    obtain ⟨q, hq, rfl⟩ := List.mem_map.mp hp
    exact (h.params q hq).1
  · intro p hp
    obtain ⟨q, hq, rfl⟩ := List.mem_map.mp hp
    exact (h.params q hq).2

namespace Context

theorem sane_builtins : Context.Sane ⟨[], [], builtinEntries⟩ where
  builtins name b := by
    constructor
    · intro h
      have hm := mem_of_lookup h
      simp only [builtinEntries, Builtin.all, List.map_cons, List.map_nil, List.reverse_cons,
        List.reverse_nil, List.nil_append, List.cons_append, List.mem_cons, Prod.mk.injEq,
        Entity.builtin.injEq, List.not_mem_nil, or_false] at hm
      rcases hm with ⟨rfl, rfl⟩ | ⟨rfl, rfl⟩ | ⟨rfl, rfl⟩ | ⟨rfl, rfl⟩ | ⟨rfl, rfl⟩ <;> rfl
    · intro h
      obtain rfl : b.name = name := by simpa [Builtin.ofName?] using List.find?_some h
      cases b <;> rfl
  locals := List.forall_mem_nil _
  globals := by
    intro x hx
    simp only [builtinEntries, List.mem_reverse, List.mem_map] at hx
    obtain ⟨b, -, rfl⟩ := hx
    exact ⟨b.signature_proper, by rintro ⟨⟩⟩
  outermost _ := rfl

/-- Functions of proper types with new names keep a context sane. -/
theorem sane_withFunctions {fs : List FunctionDecl} {globals : List (String × Entity)}
    (h : Context.Sane ⟨[], [], globals⟩) (hp : ∀ f ∈ fs, f.Proper)
    (hn : (fs.map (·.name)).Nodup) (hf : ∀ f ∈ fs, globals.lookup f.name = none) :
    Context.Sane ⟨[], [], withFunctions fs globals⟩ := by
  induction fs generalizing globals with
  | nil => exact h
  | cons f fs ih =>
    obtain ⟨hpf, hp⟩ := List.forall_mem_cons.mp hp
    obtain ⟨hff, hf⟩ := List.forall_mem_cons.mp hf
    obtain ⟨hnf, hn⟩ := List.nodup_cons.mp hn
    rw [withFunctions_cons]
    refine ih (h.addGlobal hff nofun hpf.ty.1 hpf.ty.2) hp hn fun g hg => ?_
    exact (lookup_entry_cons hnf hg).trans (hf g hg)

/-- Functions and built-ins under different names make a sane context. -/
theorem sane_entries {p : Program} (hp : ∀ f ∈ p.functions, f.Proper)
    (hd : (p.entries.map (·.1)).Nodup) : Context.Sane ⟨[], [], p.entries⟩ := by
  obtain ⟨hn, hf, -⟩ := nodup_withFunctions.mp hd
  exact sane_withFunctions sane_builtins hp hn hf

end Context

/-! ## 2. Declaring functions -/

/-- The signature of a function as it is declared. -/
def FunctionDecl.signature (f : FunctionDecl) : Signature := ⟨paramTypes f.params, f.returns.toTy⟩

variable {a b : Analysis}

/-- A function that is declared quietly is proper and has a new name. -/
theorem declareFunction_sound {globals : List (String × Entity)} {f : FunctionDecl}
    {signature : Signature} (ha : a.scopes.Agrees ⟨[], [], globals⟩)
    (h : Quiet (declareFunction f) a signature b) :
    signature = f.signature ∧ f.Proper ∧ globals.lookup f.name = none ∧
      Analysed ⟨[], [], f.entry :: globals⟩ [] a b := by
  unfold declareFunction at h
  obtain ⟨_, _, h₁, h⟩ := h.bind_inv
  obtain ⟨_, _, h₂, h⟩ := h.bind_inv
  obtain ⟨t, ht, h₃⟩ := h.declare_then_inv
  obtain ⟨rfl, rfl⟩ := h₃.pure_inv
  obtain ⟨rfl, hr, rfl⟩ := quiet_resolve.mp h₁
  obtain ⟨rfl, hp, rfl⟩ := quiet_resolveParams.mp h₂
  have hn := ha.fresh_of_some ht
  obtain ⟨t', ht', hA⟩ := ha.declareFunction (paramTypes f.params) f.returns.toTy hn
  obtain rfl : t = t' := Option.some.inj (ht.symm.trans ht')
  exact ⟨rfl, ⟨hr, hp⟩, hn, hA, rfl⟩

theorem declareFunctions_sound {globals : List (String × Entity)} {fs : List FunctionDecl}
    {signatures : List Signature} (ha : a.scopes.Agrees ⟨[], [], globals⟩)
    (h : Quiet (declareFunctions fs) a signatures b) :
    signatures = fs.map FunctionDecl.signature ∧ (∀ f ∈ fs, f.Proper) ∧
      (fs.map (·.name)).Nodup ∧ (∀ f ∈ fs, globals.lookup f.name = none) ∧
        Analysed ⟨[], [], withFunctions fs globals⟩ [] a b := by
  induction fs generalizing globals a signatures with
  | nil =>
    obtain ⟨rfl, rfl⟩ := h.pure_inv
    exact ⟨rfl, nofun, List.nodup_nil, nofun, .refl ha⟩
  | cons f fs ih =>
    unfold declareFunctions at h
    obtain ⟨_, _, h₁, h⟩ := h.bind_inv
    obtain ⟨_, _, h₂, h⟩ := h.bind_inv
    obtain ⟨rfl, rfl⟩ := h.pure_inv
    obtain ⟨rfl, hpf, hnf, hA₁⟩ := declareFunction_sound ha h₁
    obtain ⟨rfl, hp, hn, hf, hA₂⟩ := ih hA₁.scopes h₂
    have hne : ∀ g ∈ fs, g.name ≠ f.name ∧ globals.lookup g.name = none := by
      intro g hg
      have := hf g hg
      rw [List.lookup_cons] at this
      by_cases he : g.name = f.name
      · simp [FunctionDecl.entry, he] at this
      · have hb : (g.name == f.entry.1) = false := by simpa [FunctionDecl.entry] using he
        rw [hb] at this
        exact ⟨he, this⟩
    refine ⟨rfl, List.forall_mem_cons.mpr ⟨hpf, hp⟩, List.nodup_cons.mpr ⟨fun hm => ?_, hn⟩,
      List.forall_mem_cons.mpr ⟨hnf, fun g hg => (hne g hg).2⟩, ?_⟩
    · obtain ⟨g, hg, he⟩ := List.mem_map.mp hm
      exact (hne g hg).1 he
    · rw [withFunctions_cons]
      exact hA₁.trans hA₂

/-- Proper functions with new names are declared quietly. -/
theorem declareFunctions_complete {globals : List (String × Entity)} {fs : List FunctionDecl}
    (ha : a.scopes.Agrees ⟨[], [], globals⟩) (hp : ∀ f ∈ fs, f.Proper)
    (hn : (fs.map (·.name)).Nodup) (hf : ∀ f ∈ fs, globals.lookup f.name = none) :
    ∃ b, Quiet (declareFunctions fs) a (fs.map FunctionDecl.signature) b ∧
      Analysed ⟨[], [], withFunctions fs globals⟩ [] a b := by
  induction fs generalizing globals a with
  | nil => exact ⟨a, .pure _ _, .refl ha⟩
  | cons f fs ih =>
    obtain ⟨hpf, hp⟩ := List.forall_mem_cons.mp hp
    obtain ⟨hff, hf⟩ := List.forall_mem_cons.mp hf
    obtain ⟨hnf, hn⟩ := List.nodup_cons.mp hn
    obtain ⟨t, ht, hA⟩ := ha.declareFunction (paramTypes f.params) f.returns.toTy hff
    have hf' : ∀ g ∈ fs, List.lookup g.name (f.entry :: globals) = none :=
      fun g hg => (lookup_entry_cons hnf hg).trans (hf g hg)
    obtain ⟨b, hq, hA'⟩ := ih (a := { a with scopes := t }) hA hp hn hf'
    have hq₁ : Quiet (declareFunction f) a f.signature { a with scopes := t } := by
      unfold declareFunction
      refine .bind (quiet_resolve.mpr ⟨rfl, hpf.returns, rfl⟩) ?_
      refine .bind (quiet_resolveParams.mpr ⟨rfl, hpf.params, rfl⟩) ?_
      exact .bind (Quiet.declare ht) (.pure _ _)
    refine ⟨b, hq₁.bind (hq.bind (.pure _ _)), ?_⟩
    rw [withFunctions_cons]
    exact ⟨hA'.scopes, hA'.types⟩

/-! ## 3. Bodies of functions -/

variable {globals : List (String × Entity)}

/-- A function that is analysed quietly is well typed. -/
theorem checkFunction_sound {f : FunctionDecl} {u : Unit}
    (hΓ : Context.Sane ⟨[], [], globals⟩) (hp : f.Proper)
    (ha : a.scopes.Agrees ⟨[], [], globals⟩) (h : Quiet (checkFunction f f.signature) a u b) :
    ∃ rows, FunctionTyped globals f rows ∧ Analysed ⟨[], [], globals⟩ rows a b := by
  obtain ⟨name, params, written, ⟨body, span⟩, span'⟩ := f
  unfold checkFunction at h
  obtain ⟨_, _, h₁, h⟩ := h.bind_inv
  obtain ⟨_, _, h₂, h⟩ := h.bind_inv
  obtain ⟨_, _, h₃, h⟩ := h.bind_inv
  obtain ⟨_, _, h₄, h⟩ := h.bind_inv
  obtain ⟨he, rfl⟩ := Quiet.report_if.mp h
  obtain rfl := h₁.enter_inv
  have ha₀ : a.scopes.enter.Agrees ⟨[[]], [], globals⟩ := ha.enter_branch
  obtain ⟨hn, -, hA₁⟩ := declareParams_sound ha₀ h₂
  rw [List.append_nil] at hA₁
  have hps : ParamsTyped params :=
    ⟨fun p h => (hp.params p h).1, fun p h => (hp.params p h).2, hn⟩
  have hs : Stands (some ⟨written.toTy, none⟩) ⟨[paramScope params], [], globals⟩
      (some written.toTy) := ⟨rfl, nofun, fun _ => rfl⟩
  have hΓ' := Context.Sane.literal hΓ (paramScope_proper hps)
  unfold checkBlock at h₃
  obtain ⟨Γ', rows, hb, hA₂⟩ := checkStmts_sound hs hΓ' (.some hp.returns) hA₁.scopes body h₃
  have ho := (Context.Opened.function globals (paramScope params)).grown (hb.grown body)
  have hA : Analysed ⟨[], [], globals⟩ rows a _ :=
    (Analysed.refl ha).scoped (hA₁.trans hA₂) ho h₄
  refine ⟨rows, ⟨hps, hb, ?_⟩, hA⟩
  by_cases hv : written.toTy = .void
  · exact .inl hv
  · refine .inr ?_
    simpa [FunctionDecl.signature, Ty.isVoid_eq_false hv] using he

theorem checkFunctions_sound {fs : List FunctionDecl} {u : Unit}
    (hΓ : Context.Sane ⟨[], [], globals⟩) (hp : ∀ f ∈ fs, f.Proper)
    (ha : a.scopes.Agrees ⟨[], [], globals⟩)
    (h : Quiet (checkFunctions fs (fs.map FunctionDecl.signature)) a u b) :
    ∃ rows, FunctionsTyped globals fs rows ∧ Analysed ⟨[], [], globals⟩ rows a b := by
  induction fs generalizing a with
  | nil =>
    obtain ⟨-, rfl⟩ := h.pure_inv
    exact ⟨[], .nil, .refl ha⟩
  | cons f fs ih =>
    obtain ⟨hpf, hp⟩ := List.forall_mem_cons.mp hp
    rw [List.map_cons] at h
    unfold checkFunctions at h
    obtain ⟨_, _, h₁, h₂⟩ := h.bind_inv
    obtain ⟨rows₁, hf, hA₁⟩ := checkFunction_sound hΓ hpf ha h₁
    obtain ⟨rows₂, hr, hA₂⟩ := ih hp hA₁.scopes h₂
    exact ⟨_, .cons hf hr, hA₁.trans hA₂⟩

/-- A well typed function is analysed quietly. -/
theorem FunctionTyped.quiet {f : FunctionDecl} {rows : Rows}
    (hΓ : Context.Sane ⟨[], [], globals⟩) (hr : f.returns.toTy.Proper)
    (ha : a.scopes.Agrees ⟨[], [], globals⟩) (h : FunctionTyped globals f rows) :
    ∃ b, Quiet (checkFunction f f.signature) a ⟨⟩ b ∧ Analysed ⟨[], [], globals⟩ rows a b := by
  obtain ⟨name, params, written, ⟨body, span⟩, span'⟩ := f
  obtain ⟨hp, hb, he⟩ := h
  have ha₀ : a.scopes.enter.Agrees ⟨[[]], [], globals⟩ := ha.enter_branch
  obtain ⟨_, h₁, hA₁⟩ := declareParams_complete (a := { a with scopes := a.scopes.enter }) ha₀
    hp.distinct (fun _ _ => rfl)
  rw [List.append_nil] at hA₁
  have hs : Stands (some ⟨written.toTy, none⟩) ⟨[paramScope params], [], globals⟩
      (some written.toTy) := ⟨rfl, nofun, fun _ => rfl⟩
  have hΓ' := Context.Sane.literal hΓ (paramScope_proper hp)
  obtain ⟨_, h₂, hA₂⟩ := StmtsTyped.quiet hs hΓ' (.some hr) hA₁.scopes body hb
  have ho := (Context.Opened.function globals (paramScope params)).grown (hb.grown body)
  obtain ⟨_, h₃, hA⟩ := (Analysed.refl ha).exists_scoped (hA₁.trans hA₂) ho
  rw [List.nil_append, List.nil_append] at hA
  have he' : ¬ (!written.toTy.isVoid && !(Block.mk body span).alwaysReturns) = true := by
    rcases he with he | he
    · simp [show written.toTy = .void from he, Ty.isVoid]
    · simp [show (Block.mk body span).alwaysReturns = true from he]
  unfold checkFunction
  exact ⟨_, .bind (.enter a) (h₁.bind (h₂.bind (h₃.bind (.unless he' _)))), hA⟩

theorem FunctionsTyped.quiet {fs : List FunctionDecl} {rows : Rows}
    (hΓ : Context.Sane ⟨[], [], globals⟩) (hr : ∀ f ∈ fs, f.returns.toTy.Proper)
    (ha : a.scopes.Agrees ⟨[], [], globals⟩) (h : FunctionsTyped globals fs rows) :
    ∃ b, Quiet (checkFunctions fs (fs.map FunctionDecl.signature)) a ⟨⟩ b ∧
      Analysed ⟨[], [], globals⟩ rows a b := by
  induction h generalizing a with
  | nil => exact ⟨a, .pure _ _, .refl ha⟩
  | @cons f rest rows₁ rows₂ hf _ ih =>
    obtain ⟨hrf, hr⟩ := List.forall_mem_cons.mp hr
    obtain ⟨_, h₁, hA₁⟩ := hf.quiet hΓ hrf ha
    obtain ⟨_, h₂, hA₂⟩ := ih hr hA₁.scopes
    exact ⟨_, h₁.bind h₂, hA₁.trans hA₂⟩

theorem FunctionsTyped.proper {fs : List FunctionDecl} {rows : Rows}
    (h : FunctionsTyped globals fs rows) (hr : ∀ f ∈ fs, f.returns.toTy.Proper) :
    ∀ f ∈ fs, f.Proper := by
  induction h with
  | nil => exact nofun
  | cons hf _ ih =>
    obtain ⟨hrf, hr⟩ := List.forall_mem_cons.mp hr
    obtain ⟨hp, -, -⟩ := hf
    exact List.forall_mem_cons.mpr ⟨⟨hrf, fun q hq => ⟨hp.proper q hq, hp.value q hq⟩⟩, ih hr⟩

/-! ## 4. Programs -/

theorem checkBlock_eq (within : Option Enclosing) (block : Block) :
    checkBlock within block = checkStmts within block.body := by
  obtain ⟨body, span⟩ := block
  unfold checkBlock
  rfl

theorem agrees_initial : ScopeTable.initial.Agrees ⟨[], [], builtinEntries⟩ := by
  refine ⟨_, ScopeTable.shows_initial, .global ?_⟩
  unfold ScopeTable.builtinSymbols builtinEntries
  rw [List.forall₂_reverse_iff]
  exact List.forall₂_map_left_iff.mpr (List.forall₂_map_right_iff.mpr
    (List.forall₂_same.mpr fun b _ => ⟨rfl, rfl, rfl, rfl⟩))

/-- **A program that is analysed quietly is well typed,** and its rows are filed. -/
theorem checkProgram_sound {p : Program} {u : Unit}
    (h : Quiet (checkProgram p) .initial u b) :
    ∃ rows, ProgramTyped p rows ∧ b.types = TypeTable.empty.fileAll rows := by
  unfold checkProgram at h
  obtain ⟨_, _, h₁, h⟩ := h.bind_inv
  obtain ⟨_, _, h₂, h⟩ := h.bind_inv
  obtain ⟨_, _, h₃, h⟩ := h.bind_inv
  obtain ⟨_, _, h₄, h⟩ := h.bind_inv
  obtain ⟨_, _, h₅, h₆⟩ := h.bind_inv
  obtain ⟨rfl, hp, hn, hf, hA₁⟩ := declareFunctions_sound agrees_initial h₁
  have hd : (p.entries.map (·.1)).Nodup := nodup_withFunctions.mpr ⟨hn, hf, nodup_builtinEntries⟩
  have hΓ := Context.sane_entries hp hd
  have hs : Stands none ⟨[], [], p.entries⟩ none := ⟨rfl, nofun, fun _ => rfl⟩
  obtain ⟨Γ, rows₁, hg, hA₂⟩ := checkStmts_sound hs hΓ .none hA₁.scopes p.globals h₂
  have hΓ₁ := StmtsTyped.sane hΓ p.globals hg
  obtain ⟨globals, rfl⟩ := (hg.grown p.globals).outside
  obtain ⟨rows₂, hfs, hA₃⟩ := checkFunctions_sound hΓ₁ hp hA₂.scopes h₃
  obtain rfl := h₄.enter_inv
  have ha₄ : ScopeTable.Agrees _ ⟨[[]], [], globals⟩ := hA₃.scopes.enter_branch
  have hs₅ : Stands (some ⟨.void, none⟩) ⟨[[]], [], globals⟩ (some .void) :=
    ⟨rfl, nofun, fun _ => rfl⟩
  have hΓ₅ : Context.Sane ⟨[[]], [], globals⟩ := hΓ₁.branch
  rw [checkBlock_eq] at h₅
  obtain ⟨Γ', rows₃, hm, hA₅⟩ := checkStmts_sound hs₅ hΓ₅ (.some .void) ha₄ p.main.body h₅
  have ho := (Context.Opened.function globals []).grown (hm.grown p.main.body)
  have hA := ((hA₁.trans hA₂).trans hA₃).scoped hA₅ ho h₆
  refine ⟨rows₁ ++ rows₂ ++ rows₃, ⟨fun f hf => (hp f hf).returns, hd, hg, hfs, hm⟩, ?_⟩
  have ht := hA.types
  rw [List.nil_append] at ht
  rw [ht, List.append_assoc]
  rfl

/-- **A well typed program is analysed quietly,** and its rows are filed. -/
theorem ProgramTyped.quiet {p : Program} {rows : Rows} (h : ProgramTyped p rows) :
    ∃ b, Quiet (checkProgram p) .initial ⟨⟩ b ∧ b.types = TypeTable.empty.fileAll rows := by
  obtain ⟨hr, hd, hg, hfs, hm⟩ := h
  obtain ⟨hn, hf, -⟩ := nodup_withFunctions.mp hd
  have hp := hfs.proper hr
  have hΓ := Context.sane_entries hp hd
  have hs : Stands none ⟨[], [], p.entries⟩ none := ⟨rfl, nofun, fun _ => rfl⟩
  obtain ⟨_, h₁, hA₁⟩ := declareFunctions_complete (a := .initial) agrees_initial hp hn hf
  obtain ⟨_, h₂, hA₂⟩ := StmtsTyped.quiet hs hΓ .none hA₁.scopes p.globals hg
  have hΓ₁ := StmtsTyped.sane hΓ p.globals hg
  obtain ⟨globals, rfl⟩ := (hg.grown p.globals).outside
  obtain ⟨c, h₃, hA₃⟩ := hfs.quiet hΓ₁ hr hA₂.scopes
  have ha₄ : c.scopes.enter.Agrees ⟨[[]], [], globals⟩ := hA₃.scopes.enter_branch
  have hs₅ : Stands (some ⟨.void, none⟩) ⟨[[]], [], globals⟩ (some .void) :=
    ⟨rfl, nofun, fun _ => rfl⟩
  have hΓ₅ : Context.Sane ⟨[[]], [], globals⟩ := hΓ₁.branch
  obtain ⟨_, h₅, hA₅⟩ := StmtsTyped.quiet (a := { c with scopes := c.scopes.enter })
    hs₅ hΓ₅ (.some .void) ha₄ p.main.body hm
  have ho := (Context.Opened.function globals []).grown (hm.grown p.main.body)
  obtain ⟨b, h₆, hA⟩ := ((hA₁.trans hA₂).trans hA₃).exists_scoped hA₅ ho
  refine ⟨b, h₁.bind (h₂.bind (h₃.bind (.bind (.enter _) ?_))), ?_⟩
  · rw [checkBlock_eq]
    exact h₅.bind h₆
  · have ht := hA.types
    rw [List.nil_append] at ht
    rw [ht, List.append_assoc]
    rfl

/-- A program has no diagnostic exactly if its analysis is quiet. -/
theorem typeCheck_eq_ok_iff {p : Program} {a : Analysis} :
    typeCheck p = .ok a ∧ a.diagnostics = [] ↔ Quiet (checkProgram p) .initial ⟨⟩ a := by
  have hrun : typeCheck p = .ok a ↔ checkProgram p .initial = .ok (⟨⟩, a) := by
    unfold typeCheck StateT.run
    cases checkProgram p .initial with
    | error e => exact ⟨nofun, nofun⟩
    | ok r =>
      obtain ⟨⟨⟩, b⟩ := r
      show Except.ok b = .ok a ↔ Except.ok (_, b) = .ok (_, a)
      simp
  have hreports : a.diagnostics = [] ↔ a.reports = [] := by simp [Analysis.diagnostics]
  rw [hrun, hreports]
  exact ⟨fun h => ⟨h.1, h.2⟩, fun h => ⟨h.step, h.reports⟩⟩

/-- The analysis accepts a program exactly if it is well typed, and then files its rows. -/
theorem typeCheck_accepts_iff {p : Program} {types : TypeTable} :
    (∃ a, typeCheck p = .ok a ∧ a.diagnostics = [] ∧ a.types = types) ↔
      ∃ rows, ProgramTyped p rows ∧ types = TypeTable.empty.fileAll rows := by
  constructor
  · rintro ⟨a, h₁, h₂, rfl⟩
    exact checkProgram_sound (typeCheck_eq_ok_iff.mp ⟨h₁, h₂⟩)
  · rintro ⟨rows, h, rfl⟩
    obtain ⟨a, hq, ht⟩ := h.quiet
    obtain ⟨h₁, h₂⟩ := typeCheck_eq_ok_iff.mpr hq
    exact ⟨a, h₁, h₂, ht⟩

end Stackling
