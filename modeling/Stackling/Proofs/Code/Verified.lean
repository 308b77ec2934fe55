import Stackling.Proofs.Code.Generated
import Stackling.Proofs.Code.Inversion

/-
  File:     Stackling/Proofs/Code/Verified.lean
  Subject:  Generated code passes the verifier, whatever the table of types says.

  The generator checks its depth after every expression and every statement, and that is
  enough: nothing is asked of the program or of the table but that code is generated.

  * `lowerExpr_leads`, `lowerStmt_leads`, … -- what is written for a part is balanced;
  * `lowerProgram_verified`                -- all units of a program;
  * `generate_forward`                     -- jumps go forward;
  * `generate_verified`                    -- the verifier passes what is generated.
-/
namespace Stackling

open Generate

variable {g₀ g g' : Generator}

/-! ## 1. Conversions and units -/

theorem Generator.Leads.convert {source target : Ty} {u : Unit} (h : g₀.Leads g)
    (hrun : Generate.convert source target g = .ok (u, g')) :
    g₀.Leads g' ∧ g'.depth = g.depth := by
  rcases (convert_inv hrun).1 with rfl | hrun
  · exact ⟨h, rfl⟩
  · refine ⟨h.emit hrun rfl rfl trivial, ?_⟩
    obtain ⟨hle, rfl⟩ := emit_eq_ok.mp hrun
    exact Nat.sub_add_cancel hle

/-- A value is turned into a type, and taken by an instruction that neither jumps nor leaves. -/
theorem Generator.Leads.turned {source target : Ty} {op : Op} {u : Unit} (h : g₀.Leads g)
    (hrun : (do Generate.convert source target; Generate.emit op : Generate Unit) g = .ok (u, g'))
    (hf : op.falls = true) (ht : op.target? = none) (hw : ∀ e, op.Within e) : g₀.Leads g' := by
  obtain ⟨_, g₁, hc, he⟩ := bind_eq_ok.mp hrun
  exact (h.convert hc).1.emit he hf ht (hw _)

/-- **A unit is written on the side,** and the unit in work is as it was. -/
theorem Generator.Leads.unit {builder : UnitBuilder} {body : Generate Unit} {u : Unit}
    (h : g₀.Leads g) (hrun : Generate.unit builder body g = .ok (u, g'))
    (hb : builder.Balanced g.globalNames.size g.units.size)
    (hbody : ∀ g₁, Generator.Balanced { g with current := builder } →
      body { g with current := builder } = .ok ((), g₁) →
      Generator.Leads { g with current := builder } g₁) :
    g₀.Leads g' ∧ g'.current = g.current := by
  obtain ⟨g₁, v, hwritten, hfin, hlt, rfl⟩ := unit_inv hrun
  have hl := hbody g₁ (h.balanced.onCurrent hb).balanced hwritten
  refine ⟨h.trans ⟨?_, hl.cells, ?_⟩, rfl⟩
  · refine ⟨?_, fun id w hw => ?_, fun id w hw => ?_, hl.balanced.globals, fun f hf => ?_⟩
    · show UnitBuilder.Balanced g.current g₁.globalNames.size
        (g₁.units.setIfInBounds v.id (some v)).size
      rw [Array.size_setIfInBounds]
      exact h.balanced.current.mono hl.cells hl.units
    · show w.Verified g₁.globalNames.size (g₁.units.setIfInBounds v.id (some v)).size _ ∧ _
      rw [Array.size_setIfInBounds]
      have hw : (g₁.units.setIfInBounds v.id (some v))[id]? = some (some w) := hw
      rw [Array.getElem?_setIfInBounds] at hw
      split at hw
      · simp only [Option.some.injEq] at hw
        exact hw ▸ hl.balanced.current.finish hfin
      · exact hl.balanced.units id w hw
    · have hw : (g₁.units.setIfInBounds v.id (some v))[id]? = some (some w) := hw
      rw [Array.getElem?_setIfInBounds] at hw
      split at hw
      · rename_i hid
        simp only [Option.some.injEq] at hw
        obtain rfl : v = w := by simpa [hid ▸ hlt] using hw
        exact hid ▸ ⟨rfl, (UnitBuilder.finish_filed hfin).last⟩
      · exact hl.balanced.filed id w hw
    · show f.unit < (g₁.units.setIfInBounds v.id (some v)).size
      rw [Array.size_setIfInBounds]
      exact hl.balanced.functions f hf
  · show g.units.size ≤ (g₁.units.setIfInBounds v.id (some v)).size
    rw [Array.size_setIfInBounds]
    exact hl.units

/-- A unit that is only reserved is not finished. -/
theorem Generator.finished_of_reserve {id : UnitId} {u : CodeUnit}
    (h : g.reserve.2.units[id]? = some (some u)) : g.units[id]? = some (some u) := by
  have h : (g.units.push none)[id]? = some (some u) := h
  rw [Array.getElem?_push] at h
  split at h
  · cases h
  · exact h

/-- A number is reserved for a new unit. -/
theorem Generator.Leads.reserve (h : g₀.Leads g) : g₀.Leads g.reserve.2 := by
  have hsize : g.reserve.2.units.size = g.units.size + 1 := Array.size_push ..
  refine h.trans ⟨⟨?_, fun id u hu => ?_, fun id u hu =>
    h.balanced.filed id u (finished_of_reserve hu), h.balanced.globals, fun f hf => ?_⟩,
    Nat.le_refl _, ?_⟩
  · rw [hsize]
    exact h.balanced.current.mono (Nat.le_refl _) (Nat.le_succ _)
  · rw [hsize]
    obtain ⟨hv, hf⟩ := h.balanced.units id u (finished_of_reserve hu)
    exact ⟨hv.mono (Nat.le_refl _) (Nat.le_succ _), hf⟩
  · rw [hsize]
    exact Nat.lt_succ_of_lt (h.balanced.functions f hf)
  · rw [hsize]
    exact Nat.le_succ _

/-- **The parameters are bound** to the arguments of a unit that has as many. -/
theorem Generator.Leads.bindParams {params : List Param} {u : Unit} (h : g₀.Leads g)
    (hrun : Stackling.bindParams params g = .ok (u, g')) (ha : params.length ≤ g.current.arity) :
    g₀.Leads g' ∧ g'.depth = g.depth := by
  rw [bindParams_ok] at hrun
  cases hrun
  refine ⟨h.trans (h.balanced.onCurrent { h.balanced.current with
    slots := List.forall_mem_cons.mpr ⟨fun x hx => ?_, h.balanced.current.slots⟩ }), rfl⟩
  obtain ⟨y, hy, rfl⟩ := List.mem_map.mp hx
  obtain ⟨z, hz, rfl⟩ := List.mem_map.mp (List.mem_reverse.mp hy)
  exact Nat.lt_of_lt_of_le (List.snd_lt_of_mem_zipIdx hz) (by rwa [Nat.add_zero])

/-- **The unit of a callable is written,** if its body is. -/
theorem Generator.Leads.callable {id : UnitId} {name : String} {params : List Param}
    {returns : Ty} {body : Block} {u : Unit} (h : g₀.Leads g)
    (hrun : Generate.unit (.new id name params.length returns)
      (Stackling.bindParams params >>= fun _ => lowerBlock Generate.convert body) g = .ok (u, g'))
    (hbody : ∀ (g₁ g₂ : Generator), g₁.Balanced → g₁.depth = 0 →
      lowerBlock Generate.convert body g₁ = .ok ((), g₂) → g₁.Leads g₂) : g₀.Leads g' := by
  refine (h.unit hrun (.new rfl rfl rfl rfl) fun g₂ hb hwritten => ?_).1
  obtain ⟨_, g₁, hp, hwritten⟩ := bind_eq_ok.mp hwritten
  obtain ⟨h₁, hd₁⟩ := hb.refl.bindParams hp (Nat.le_refl _)
  exact h₁.trans (hbody g₁ g₂ h₁.balanced hd₁ hwritten)

/-! ## 2. Expressions and statements -/

/-- The instruction for an operator neither jumps nor leaves its frame, and names nothing. -/
theorem BinaryOp.op?_plain {o : BinaryOp} {operand : Ty} {op : Op} (h : o.op? operand = some op) :
    op.falls = true ∧ op.target? = none ∧ ∀ e, op.Within e := by
  obtain rfl | rfl | rfl | rfl | rfl | ⟨c, k, rfl⟩ := op?_cases h <;>
    exact ⟨rfl, rfl, fun _ => trivial⟩

theorem Ty.width_le_one (ty : Ty) : ty.width ≤ 1 := by
  unfold Ty.width
  split <;> omega

theorem lowerExpr_depth_le_one {e : Expr} {ty : Ty} (hd : g.depth = 0)
    (hrun : lowerExpr convert e g = .ok (ty, g')) : g'.depth ≤ 1 := by
  rw [lowerExpr_depth hrun, hd, Nat.zero_add]
  exact ty.width_le_one

/-- A function that a call goes to has a unit. -/
theorem Generator.callTarget_function {callee : Expr} {name : String} {id : UnitId}
    (h : g.callTarget callee = .function name id) : g.resolve? name = some (.function id) := by
  unfold Generator.callTarget at h
  split at h
  · split at h <;> cases h
    assumption
  · cases h

/-- A number is reserved for a literal. -/
theorem Generator.Leads.literal (h : g₀.Leads g) :
    g₀.Leads { g.reserve.2 with literals := g.literals + 1 } :=
  h.trans (h.balanced.refl.reserve.trans ⟨{ h.balanced.refl.reserve.balanced with },
    Nat.le_refl _, Nat.le_refl _⟩)

/-- A step that changes the unit in work alone. -/
theorem Generator.Leads.onUnit {α : Type} {f : UnitBuilder → α × UnitBuilder} {x : α}
    (h : g₀.Leads g) (hrun : Generate.onUnit f g = .ok (x, g'))
    (hf : (f g.current).2.Balanced g.globalNames.size g.units.size) :
    g₀.Leads g' ∧ x = (f g.current).1 ∧ g'.current = (f g.current).2 := by
  rw [Generate.onUnit_ok] at hrun
  cases hrun
  exact ⟨h.trans (h.balanced.onCurrent hf), rfl, rfl⟩

/-- A new global cell. -/
theorem Generator.Leads.declareGlobal (h : g₀.Leads g) (name : String) :
    g₀.Leads (g.declareGlobal name).2 := by
  have hsize : (g.declareGlobal name).2.globalNames.size = g.globalNames.size + 1 :=
    Array.size_push ..
  refine h.trans ⟨⟨?_, fun id u hu => ?_, h.balanced.filed, ?_, h.balanced.functions⟩, ?_,
    Nat.le_refl _⟩
  · rw [hsize]
    exact h.balanced.current.mono (Nat.le_succ _) (Nat.le_refl _)
  · rw [hsize]
    obtain ⟨hv, hf⟩ := h.balanced.units id u hu
    exact ⟨hv.mono (Nat.le_succ _) (Nat.le_refl _), hf⟩
  · rw [hsize]
    exact List.forall_mem_cons.mpr ⟨Nat.lt_succ_self _, fun x hx =>
      Nat.lt_succ_of_lt (h.balanced.globals x hx)⟩
  · rw [hsize]
    exact Nat.le_succ _

/-- **A jump over a branch** takes the condition off the stack, which is all there is. -/
theorem Generator.Leads.jumpIf {g₁ g₂ g₃ : Generator} {l : Label} {u u' : Unit} (h : g₀.Leads g)
    (hd : g.depth ≤ 1) (hl : Generate.onUnit UnitBuilder.makeLabel g = .ok (l, g₁))
    (hnot : Generate.emit .not g₁ = .ok (u, g₂))
    (hjump : Generate.emit (.jumpIf l) g₂ = .ok (u', g₃)) : g₀.Leads g₃ ∧ g₃.depth = 0 := by
  obtain ⟨h₁, rfl, hg₁⟩ := h.onUnit hl h.balanced.current.makeLabel
  have h₂ := h₁.emit hnot rfl rfl trivial
  have hd₁ : g₁.depth = g.depth := by
    rw [Generator.depth, hg₁]
    rfl
  obtain ⟨hle, rfl⟩ := emit_eq_ok.mp hnot
  have hd₂ : (g₁.put .not).depth = 1 := by
    rw [Generator.depth_put, hd₁]
    simp only [Op.pops, Op.pushes] at hle ⊢
    omega
  have hnone : (g₁.put .not).current.labels[g.current.labels.size]? = some none := by
    show g₁.current.labels[g.current.labels.size]? = _
    rw [hg₁]
    exact Array.getElem?_push_size
  have hd₃ : g₃.depth = 0 := by
    obtain ⟨-, rfl⟩ := emit_eq_ok.mp hjump
    rw [Generator.depth_put, hd₂]
    rfl
  exact ⟨h₂.emitJump hjump (.inr rfl) hnone hd₃, hd₃⟩

/-- **The test of a branch** leaves nothing on the stack but what was below the condition. -/
theorem Generator.Leads.test {ty : Ty} {after : Label} (h : g₀.Leads g) (hd : g.depth ≤ 1)
    (hrun : lowerTest ty g = .ok (after, g')) : g₀.Leads g' ∧ g'.depth = 0 := by
  obtain ⟨_, g₁, hc, hrun⟩ := bind_eq_ok.mp hrun
  obtain ⟨_, g₂, hl, hrun⟩ := bind_eq_ok.mp hrun
  obtain ⟨_, g₃, hnot, hrun⟩ := bind_eq_ok.mp hrun
  obtain ⟨_, g₄, hjump, hrun⟩ := bind_eq_ok.mp hrun
  obtain ⟨_, g₅, henter, hrun⟩ := bind_eq_ok.mp hrun
  obtain ⟨rfl, rfl⟩ := pure_eq_ok.mp hrun
  obtain ⟨h₁, hd₁⟩ := h.convert hc
  obtain ⟨h₄, hd₄⟩ := h₁.jumpIf (hd₁ ▸ hd) hl hnot hjump
  obtain ⟨h₅, -, hg₅⟩ := h₄.onUnit henter h₄.balanced.current.enterScope
  refine ⟨h₅, ?_⟩
  rw [Generator.depth, hg₅]
  exact hd₄

/-- **Between two arms** the first one is left by a jump over the second one. -/
theorem Generator.Leads.between {otherwise after : Label} (h : g₀.Leads g) (hd : g.depth = 0)
    (hrun : lowerBetween otherwise g = .ok (after, g')) : g₀.Leads g' ∧ g'.depth = 0 := by
  obtain ⟨_, g₁, hafter, hrun⟩ := bind_eq_ok.mp hrun
  obtain ⟨_, g₂, hskip, hrun⟩ := bind_eq_ok.mp hrun
  obtain ⟨_, g₃, hplace, hrun⟩ := bind_eq_ok.mp hrun
  obtain ⟨rfl, rfl⟩ := pure_eq_ok.mp hrun
  obtain ⟨h₁, rfl, hg₁⟩ := h.onUnit hafter h.balanced.current.exitScope.makeLabel
  have hnone : g₁.current.labels[g.current.labels.size]? = some none := by
    rw [hg₁]
    exact Array.getElem?_push_size
  have hd₁ : g₁.depth = 0 := by
    rw [Generator.depth, hg₁]
    exact hd
  have hd₂ : g₂.depth = 0 := by
    obtain ⟨-, rfl⟩ := emit_eq_ok.mp hskip
    rw [Generator.depth_put, hd₁]
    rfl
  have h₂ := h₁.emitJump hskip (.inl rfl) hnone hd₂
  obtain ⟨h₃, -, hg₃⟩ := h₂.onUnit hplace
    (h₂.balanced.current.placeLabel otherwise hd₂).enterScope
  refine ⟨h₃, ?_⟩
  rw [Generator.depth, hg₃]
  exact hd₂

/-- **Behind a branch** its label is placed. -/
theorem Generator.Leads.behind {after : Label} {u : Unit} (h : g₀.Leads g) (hd : g.depth = 0)
    (hrun : lowerBehind after g = .ok (u, g')) : g₀.Leads g' :=
  (h.onUnit hrun (h.balanced.current.exitScope.placeLabel after hd)).1

/-- **The end of a declaration** names the cell or the slot that it has made. -/
theorem Generator.Leads.declared {name : String} {value : Nat} {d : Declaration}
    (h : g₀.Leads g) (hrun : lowerDeclared name value g = .ok (d, g')) : g₀.Leads g' := by
  obtain ⟨-, -, hemit⟩ | ⟨-, -, hemit⟩ := lowerDeclared_inv hrun
  · exact (h.declareGlobal name).emit hemit rfl rfl (Nat.lt_of_lt_of_eq (Nat.lt_succ_self _)
      (Array.size_push ..).symm)
  · obtain ⟨h₁, -, -⟩ := h.onUnit (bindLocal_ok name g) (h.balanced.current.declareLocal name)
    exact h₁.emit hemit rfl rfl (Nat.lt_succ_self g.current.locals)

mutual
/-- **What is written for an expression is balanced.** -/
theorem lowerExpr_leads : (e : Expr) → {g₀ g g' : Generator} → {ty : Ty} → g₀.Leads g →
    lowerExpr convert e g = .ok (ty, g') → g₀.Leads g'
  | .int _ _, g₀, g, g', ty, h, hrun | .text _ _, g₀, g, g', ty, h, hrun
  | .char _ _, g₀, g, g', ty, h, hrun | .bool _ _, g₀, g, g', ty, h, hrun => by
    rw [lowerExpr] at hrun
    exact h.emit (producing_inv hrun).2.1 rfl rfl trivial
  | .name _ name, g₀, g, g', ty, h, hrun => by
    rw [lowerExpr] at hrun
    obtain ⟨r, hr, he⟩ := lowerName_inv (producing_inv hrun).2.1
    obtain ⟨hf, ht⟩ := r.load_straight
    exact h.emit he hf ht (h.balanced.resolve hr)
  | .binary _ op left right, g₀, g, g', ty, h, hrun => by
    obtain ⟨operand, other, o, g₁, g₂, hl, hr, ho, he⟩ := lowerBinary_inv hrun
    have h₂ := lowerExpr_leads right (lowerExpr_leads left h hl) hr
    obtain ⟨hf, ht, hw⟩ := BinaryOp.op?_plain ho
    exact h₂.emit he hf ht (hw _)
  | .array _ items, g₀, g, g', ty, h, hrun => by
    obtain ⟨element, g₁, -, hnew, hitems⟩ := lowerArray_inv hrun
    exact lowerItems_leads items (h.emit hnew rfl rfl trivial) hitems
  | .hash _ entries, g₀, g, g', ty, h, hrun => by
    obtain ⟨key, value, g₁, -, hnew, hentries⟩ := lowerHash_inv hrun
    exact lowerEntries_leads entries (h.emit hnew rfl rfl trivial) hentries
  | .fn node params returns (.mk body span), g₀, g, g', ty, h, hrun => by
    obtain ⟨g₁, hunit, he⟩ := lowerFn_inv hrun
    have hnew : g.units.size < (g.units.push none).size := by
      rw [Array.size_push]
      exact Nat.lt_succ_self _
    have h₁ := h.balanced.refl.literal.balanced.refl.callable hunit fun _ _ hb hd hbody =>
      lowerStmts_leads body hb.refl hd (by rwa [lowerBlock] at hbody)
    exact (h.literal.trans h₁).emit he rfl rfl (Nat.lt_of_lt_of_le hnew h₁.units)
  | .index _ target key, g₀, g, g', ty, h, hrun => by
    obtain ⟨_, _, _, op, g₁, g₂, ht, hk, hop, hlast⟩ := lowerIndex_inv hrun
    have h₂ := lowerExpr_leads key (lowerExpr_leads target h ht) hk
    rcases hop with rfl | rfl
    · exact h₂.turned hlast rfl rfl fun _ => trivial
    · exact h₂.turned hlast rfl rfl fun _ => trivial
  | .call _ callee args, g₀, g, g', ty, h, hrun => by
    obtain ⟨name, id, f, g₁, ht, -, -, ha, he⟩ | ⟨name, b, g₁, -, ha, he⟩ |
      ⟨params, returns, g₁, g₂, -, hc, -, ha, he⟩ := lowerCall_inv hrun
    · have hid : id < g.units.size := h.balanced.resolve (Generator.callTarget_function ht)
      have h₁ := lowerArgs_leads args h.balanced.refl ha
      exact (h.trans h₁).emit he rfl rfl (Nat.lt_of_lt_of_le hid h₁.units)
    · exact (lowerAll_leads args h ha).emit he rfl rfl trivial
    · have h₁ := lowerExpr_leads callee h hc
      exact (lowerArgs_leads args h₁ ha).emit he rfl rfl trivial

theorem lowerItems_leads : (items : List Expr) → {g₀ g g' : Generator} → {element : Ty} →
    {index : Nat} → {u : Unit} → g₀.Leads g →
    lowerItems convert element index items g = .ok (u, g') → g₀.Leads g'
  | [], g₀, g, g', element, index, u, h, hrun => by
    rw [lowerItems] at hrun
    exact (pure_eq_ok.mp hrun).2 ▸ h
  | item :: rest, g₀, g, g', element, index, u, h, hrun => by
    obtain ⟨_, g₁, g₂, hi, hstore, hrest⟩ := lowerItems_cons_inv hrun
    have h₁ := lowerExpr_leads item h hi
    exact lowerItems_leads rest (h₁.turned hstore rfl rfl fun _ => trivial) hrest

theorem lowerEntries_leads : (entries : List (Expr × Expr)) → {g₀ g g' : Generator} →
    {key value : Ty} → {u : Unit} → g₀.Leads g →
    lowerEntries convert key value entries g = .ok (u, g') → g₀.Leads g'
  | [], g₀, g, g', key, value, u, h, hrun => by
    rw [lowerEntries] at hrun
    exact (pure_eq_ok.mp hrun).2 ▸ h
  | (k, v) :: rest, g₀, g, g', key, value, u, h, hrun => by
    obtain ⟨_, _, g₁, g₂, g₃, g₄, hk, hc, hv, hstore, hrest⟩ := lowerEntries_cons_inv hrun
    have h₂ := ((lowerExpr_leads k h hk).convert hc).1
    have h₃ := lowerExpr_leads v h₂ hv
    exact lowerEntries_leads rest (h₃.turned hstore rfl rfl fun _ => trivial) hrest

theorem lowerArgs_leads : (args : List Expr) → {g₀ g g' : Generator} → {params : List Ty} →
    {u : Unit} → g₀.Leads g → lowerArgs convert params args g = .ok (u, g') → g₀.Leads g'
  | [], g₀, g, g', params, u, h, hrun => by
    simp only [lowerArgs] at hrun
    exact (pure_eq_ok.mp hrun).2 ▸ h
  | arg :: rest, g₀, g, g', params, u, h, hrun => by
    cases params with
    | nil =>
      simp only [lowerArgs] at hrun
      exact (pure_eq_ok.mp hrun).2 ▸ h
    | cons param params =>
      obtain ⟨_, g₁, g₂, ha, hc, hrest⟩ := lowerArgs_cons_inv hrun
      exact lowerArgs_leads rest ((lowerExpr_leads arg h ha).convert hc).1 hrest

theorem lowerAll_leads : (args : List Expr) → {g₀ g g' : Generator} → {u : Unit} → g₀.Leads g →
    lowerAll convert args g = .ok (u, g') → g₀.Leads g'
  | [], g₀, g, g', u, h, hrun => by
    rw [lowerAll] at hrun
    exact (pure_eq_ok.mp hrun).2 ▸ h
  | arg :: rest, g₀, g, g', u, h, hrun => by
    obtain ⟨_, g₁, ha, hrest⟩ := lowerAll_cons_inv hrun
    exact lowerAll_leads rest (lowerExpr_leads arg h ha) hrest

/-- **What is written for a statement is balanced,** if there is nothing on the stack. -/
theorem lowerStmt_leads : (s : Stmt) → {g₀ g g' : Generator} → {u : Unit} → g₀.Leads g →
    g.depth = 0 → lowerStmt convert s g = .ok (u, g') → g₀.Leads g'
  | .declare _ _ name _ value, g₀, g, g', u, h, hd, hrun => by
    obtain ⟨_, g₁, g₂, _, hv, hc, hdeclared⟩ := lowerStmt_declare_inv hrun
    exact ((lowerExpr_leads value h hv).convert hc).1.declared hdeclared
  | .returns _ none, g₀, g, g', u, h, hd, hrun => by
    rw [lowerStmt] at hrun
    exact h.emitReturn (preserving_inv hrun).1 (.inr ⟨rfl, hd⟩)
  | .returns _ (some value), g₀, g, g', u, h, hd, hrun => by
    rw [lowerStmt] at hrun
    obtain ⟨ty, g₁, hv, hbody⟩ := bind_eq_ok.mp (preserving_inv hrun).1
    have h₁ := lowerExpr_leads value h hv
    have hd₁ := lowerExpr_depth hv
    rw [hd, Nat.zero_add] at hd₁
    by_cases ht : ty = .void
    · subst ht
      exact h₁.emitReturn hbody (.inr ⟨rfl, hd₁⟩)
    · rw [Ty.isVoid_eq_false ht] at hbody
      obtain ⟨_, _, hg, hbody⟩ := bind_eq_ok.mp hbody
      cases hg
      obtain ⟨_, g₂, hc, hbody⟩ := bind_eq_ok.mp hbody
      obtain ⟨h₂, hd₂⟩ := h₁.convert hc
      exact h₂.emitReturn hbody (.inl ⟨rfl, hd₂.trans (hd₁.trans (Ty.width_value ht))⟩)
  | .expr value, g₀, g, g', u, h, hd, hrun => by
    rw [lowerStmt] at hrun
    obtain ⟨ty, g₁, hv, hbody⟩ := bind_eq_ok.mp (preserving_inv hrun).1
    have h₁ := lowerExpr_leads value h hv
    split at hbody
    · exact h₁.emit hbody rfl rfl trivial
    · exact (pure_eq_ok.mp hbody).2 ▸ h₁
  | .branch _ condition (.mk yes _) none, g₀, g, g', u, h, hd, hrun => by
    obtain ⟨_, g₁, after, g₂, g₃, hc, htest, hyes, hbehind⟩ := lowerStmt_branch_inv hrun
    have h₁ := lowerExpr_leads condition h hc
    obtain ⟨h₂, hd₂⟩ := h₁.test (lowerExpr_depth_le_one hd hc) htest
    have h₃ := lowerStmts_leads yes h₂ hd₂ hyes
    exact h₃.behind ((lowerStmts_depth hyes).trans hd₂) hbehind
  | .branch _ condition (.mk yes _) (some (.mk no _)), g₀, g, g', u, h, hd, hrun => by
    obtain ⟨_, g₁, otherwise, g₂, g₃, after, g₄, g₅, hc, htest, hyes, hbetween, hno, hbehind⟩ :=
      lowerStmt_branchElse_inv hrun
    have h₁ := lowerExpr_leads condition h hc
    obtain ⟨h₂, hd₂⟩ := h₁.test (lowerExpr_depth_le_one hd hc) htest
    have h₃ := lowerStmts_leads yes h₂ hd₂ hyes
    obtain ⟨h₄, hd₄⟩ := h₃.between ((lowerStmts_depth hyes).trans hd₂) hbetween
    have h₅ := lowerStmts_leads no h₄ hd₄ hno
    exact h₅.behind ((lowerStmts_depth hno).trans hd₄) hbehind
  | .print _ value, g₀, g, g', u, h, hd, hrun => by
    rw [lowerStmt] at hrun
    obtain ⟨_, g₁, hv, hbody⟩ := bind_eq_ok.mp (preserving_inv hrun).1
    exact (lowerExpr_leads value h hv).emit hbody rfl rfl trivial
  | .block (.mk body _), g₀, g, g', u, h, hd, hrun => by
    rw [lowerStmt, lowerBlock] at hrun
    exact lowerStmts_leads body h hd (preserving_inv hrun).1

theorem lowerStmts_leads : (body : List Stmt) → {g₀ g g' : Generator} → {u : Unit} →
    g₀.Leads g → g.depth = 0 → lowerStmts convert body g = .ok (u, g') → g₀.Leads g'
  | [], g₀, g, g', u, h, hd, hrun => by
    rw [lowerStmts] at hrun
    exact (pure_eq_ok.mp hrun).2 ▸ h
  | s :: rest, g₀, g, g', u, h, hd, hrun => by
    rw [lowerStmts] at hrun
    obtain ⟨_, g₁, hs, hrest⟩ := bind_eq_ok.mp hrun
    exact lowerStmts_leads rest (lowerStmt_leads s h hd hs) ((lowerStmt_depth hs).trans hd) hrest
end

theorem lowerBlock_leads {body : Block} (h : g.Balanced) (hd : g.depth = 0)
    (hrun : lowerBlock convert body g = .ok ((), g')) : g.Leads g' := by
  cases body with
  | mk body span =>
    rw [lowerBlock] at hrun
    exact lowerStmts_leads body h.refl hd hrun

/-! ## 3. Programs -/

theorem Generator.Leads.declareFunction {f : FunctionEntry} (h : g₀.Leads g)
    (hf : f.unit < g.units.size) : g₀.Leads (g.declareFunction f) := by
  unfold Generator.declareFunction
  split
  · exact h
  · refine h.trans ⟨{ h.balanced with functions := ?_ }, Nat.le_refl _, Nat.le_refl _⟩
    refine List.forall_mem_append.mpr ⟨h.balanced.functions, fun f' hf' => ?_⟩
    rwa [List.mem_singleton.mp hf']

theorem reserveFunctions_leads {fs : List FunctionDecl} {u : Unit} (h : g₀.Leads g)
    (hrun : reserveFunctions fs g = .ok (u, g')) : g₀.Leads g' := by
  induction fs generalizing g with
  | nil => exact (pure_eq_ok.mp hrun).2 ▸ h
  | cons f fs ih =>
    rw [reserveFunctions] at hrun
    obtain ⟨_, _, hr, hrun⟩ := bind_eq_ok.mp hrun
    cases hr
    obtain ⟨_, _, hm, hrun⟩ := bind_eq_ok.mp hrun
    cases hm
    refine ih (h.reserve.declareFunction ?_) hrun
    exact Nat.lt_of_lt_of_eq (Nat.lt_succ_self _) (Array.size_push ..).symm

theorem lowerCallable_leads {id : UnitId} {name : String} {params : List Param} {returns : Ty}
    {body : Block} {u : Unit} (h : g₀.Leads g)
    (hrun : lowerCallable convert (.new id name params.length returns) params body g =
      .ok (u, g')) : g₀.Leads g' :=
  h.callable hrun fun _ _ hb hd => lowerBlock_leads hb hd

theorem lowerFunctions_leads {fs : List FunctionDecl} {id : UnitId} {u : Unit} (h : g₀.Leads g)
    (hrun : lowerFunctions convert id fs g = .ok (u, g')) : g₀.Leads g' := by
  induction fs generalizing g id with
  | nil => exact (pure_eq_ok.mp hrun).2 ▸ h
  | cons f fs ih =>
    rw [lowerFunctions] at hrun
    obtain ⟨_, g₁, hf, hrun⟩ := bind_eq_ok.mp hrun
    exact ih (lowerCallable_leads h hf) hrun

theorem finishedUnits_inv {id : UnitId} {l : List (Option CodeUnit)} {us : List CodeUnit}
    (h : finishedUnits id l = .ok us) : l = us.map some := by
  induction l generalizing id us with
  | nil =>
    cases h
    rfl
  | cons o l ih =>
    cases o with
    | none => cases h
    | some u =>
      rw [finishedUnits] at h
      cases hr : finishedUnits (id + 1) l with
      | error e =>
        rw [hr] at h
        cases h
      | ok rest =>
        rw [hr] at h
        cases h
        rw [ih hr, List.map_cons]

theorem Generator.balanced_new (types : TypeTable) : (Generator.new types).Balanced where
  current := .new rfl rfl rfl rfl
  units id u h := by simp [Generator.new] at h
  filed id u h := by simp [Generator.new] at h
  globals := nofun
  functions := nofun

/-- **A program is written unit by unit,** and the unit that a run starts with comes last. -/
theorem lowerProgram_inv {p : Program} {code : Bytecode}
    (h : lowerProgram convert p g = .ok (code, g')) :
    ∃ g₁ g₂ g₃ g₄ g₅, reserveFunctions p.functions g = .ok ((), g₁) ∧
      unit (.newInitializer g₁.units.size) (lowerStmts convert p.globals) g₁.reserve.2.reserve.2 =
        .ok ((), g₂) ∧
      lowerFunctions convert 0 p.functions g₂ = .ok ((), g₃) ∧
      lowerCallable convert (.new g₁.reserve.2.units.size "main" 0 .void) [] p.main g₃ =
        .ok ((), g₄) ∧
      unit (.new g₄.units.size "<entry>" 0 .void) (do
          emit (.call g₁.units.size 0 false)
          emit (.call g₁.reserve.2.units.size 0 false)) g₄.reserve.2 = .ok ((), g₅) ∧
      code.globals = g₅.globalNames ∧ code.entry = g₄.units.size ∧
      g₅.units.toList = code.units.toList.map some := by
  unfold lowerProgram at h
  obtain ⟨_, g₁, h₁, h⟩ := bind_eq_ok.mp h
  obtain ⟨_, _, hglobals, h⟩ := bind_eq_ok.mp h
  obtain ⟨_, _, hmain, h⟩ := bind_eq_ok.mp h
  cases hglobals
  cases hmain
  obtain ⟨_, g₂, h₂, h⟩ := bind_eq_ok.mp h
  obtain ⟨_, g₃, h₃, h⟩ := bind_eq_ok.mp h
  obtain ⟨_, g₄, h₄, h⟩ := bind_eq_ok.mp h
  obtain ⟨_, _, hentry, h⟩ := bind_eq_ok.mp h
  cases hentry
  obtain ⟨_, g₅, h₅, h⟩ := bind_eq_ok.mp h
  obtain ⟨_, _, hg, h⟩ := bind_eq_ok.mp h
  cases hg
  obtain ⟨units, _, hu, h⟩ := bind_eq_ok.mp h
  obtain ⟨hunits, rfl⟩ := lift_eq_ok.mp hu
  obtain ⟨rfl, -⟩ := pure_eq_ok.mp h
  exact ⟨g₁, g₂, g₃, g₄, g₅, h₁, h₂, h₃, h₄, h₅, rfl, rfl, finishedUnits_inv hunits⟩

/-- **The generator is balanced at the end,** and holds the units of the program. -/
theorem lowerProgram_balanced {p : Program} {code : Bytecode} (h : g.Balanced)
    (hrun : lowerProgram convert p g = .ok (code, g')) :
    ∃ g₁ : Generator, g₁.Balanced ∧ code.globals = g₁.globalNames ∧
      g₁.units.toList = code.units.toList.map some := by
  obtain ⟨g₁, g₂, g₃, g₄, g₅, h₁, h₂, h₃, h₄, h₅, hglobals, -, hunits⟩ := lowerProgram_inv hrun
  have hl₁ := reserveFunctions_leads h.refl h₁
  have hl₂ := hl₁.balanced.refl.reserve.reserve.balanced.refl.unit h₂ (.new rfl rfl rfl rfl)
    fun g hb hwritten => lowerStmts_leads p.globals hb.refl rfl hwritten
  have hl₄ := lowerCallable_leads (lowerFunctions_leads hl₂.1 h₃) h₄
  have hreserved := hl₄.balanced.refl.reserve
  -- the two units that the last one calls have their numbers since long
  have hmain : g₁.units.size + 1 < g₄.reserve.2.units.size :=
    calc g₁.units.size + 1
      _ < ((g₁.units.push none).push none).size := by simp
      _ ≤ g₄.units.size := hl₄.units
      _ ≤ _ := hreserved.units
  have hl₅ := hreserved.unit h₅ (.new rfl rfl rfl rfl) fun g hb hwritten => by
    obtain ⟨_, g₆, hcall, hwritten⟩ := bind_eq_ok.mp hwritten
    have h₆ := hb.refl.emit hcall rfl rfl (Nat.lt_of_succ_lt hmain)
    refine h₆.emit hwritten rfl rfl (Nat.lt_of_lt_of_le ?_ h₆.units)
    show (g₁.units.push none).size < _
    rwa [Array.size_push]
  exact ⟨g₅, hl₅.1.balanced, hglobals, hunits⟩

/-- What the generator holds under a number is the unit of that number. -/
theorem held_of_unit {code : Bytecode} {id : UnitId} {u : CodeUnit}
    (hunits : g.units.toList = code.units.toList.map some) (hu : code.unit? id = some u) :
    g.units[id]? = some (some u) := by
  have hu : code.units[id]? = some u := hu
  rw [← Array.getElem?_toList, hunits, List.getElem?_map, Array.getElem?_toList, hu]
  rfl

/-- **A whole program passes the verifier.** -/
theorem lowerProgram_verified {p : Program} {code : Bytecode} (h : g.Balanced)
    (hrun : lowerProgram convert p g = .ok (code, g')) :
    ∀ u ∈ code.units, u.Verified code.globals.size code.units.size (depthAt u.ops) ∧
      u.Forward := by
  obtain ⟨g₁, hb, hglobals, hunits⟩ := lowerProgram_balanced h hrun
  intro u hu
  obtain ⟨i, hi⟩ := Array.getElem?_of_mem hu
  have hsize : code.units.size = g₁.units.size := by
    rw [← Array.length_toList, ← Array.length_toList, hunits, List.length_map]
  rw [hglobals, hsize]
  exact hb.units i u (held_of_unit hunits hi)

variable {p : Program} {types : TypeTable} {code : Bytecode}

theorem lowerProgram_of_generate (h : generate p types = .ok code) :
    ∃ g, lowerProgram convert p (.new types) = .ok (code, g) := by
  unfold generate generateWith StateT.run at h
  cases hr : lowerProgram convert p (.new types) with
  | error e =>
    rw [hr] at h
    cases h
  | ok r =>
    rw [hr] at h
    cases h
    exact ⟨r.2, rfl⟩

/-- **In generated code jumps go forward,** whatever the table of types says. -/
theorem generate_forward (h : generate p types = .ok code) : ∀ u ∈ code.units, u.Forward :=
  fun u hu =>
    have ⟨_, hrun⟩ := lowerProgram_of_generate h
    (lowerProgram_verified (Generator.balanced_new types) hrun u hu).2

/-- **Generated code passes the verifier,** whatever the table of types says: each offset of a
    unit has one depth, which suits the instruction there, and what an instruction names is
    there. -/
theorem generate_verified (h : generate p types = .ok code) :
    ∀ u ∈ code.units, ∃ depth, u.Verified code.globals.size code.units.size depth :=
  fun u hu =>
    have ⟨_, hrun⟩ := lowerProgram_of_generate h
    ⟨_, (lowerProgram_verified (Generator.balanced_new types) hrun u hu).1⟩

/-- A table that takes the number in `branchTokens` for a string. -/
def mistakenTypes : TypeTable := ⟨[(0, .bool), (1, .string)]⟩

/-- The code for that table is verified all the same. -/
theorem mistaken_verified : ∃ p code, parse branchTokens = .ok p ∧
    generate p mistakenTypes = .ok code ∧
    ∀ u ∈ code.units, ∃ depth, u.Verified code.globals.size code.units.size depth := by
  obtain ⟨p, hp⟩ : ∃ p, parse branchTokens = .ok p := ⟨_, rfl⟩
  have h : (parse branchTokens).toOption.all fun p => (generate p mistakenTypes).isOk := by
    decide +kernel
  rw [hp] at h
  obtain ⟨code, hcode⟩ := exists_eq_ok h
  exact ⟨p, code, hp, hcode, generate_verified hcode⟩

end Stackling
