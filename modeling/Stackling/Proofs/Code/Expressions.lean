import Stackling.Proofs.Code.Fitting

/-
  File:     Stackling/Proofs/Code/Expressions.lean
  Subject:  Writing the code of one expression, given that of its parts.

  One lemma for each construct: if the parts were written one after the other, the construct is
  written, and its code stands where the relation `ExprPlaced` says. Conversions are arbitrary
  up to the identity, which is the only one that is asked for.

  * `Conversion.Trivial` -- conversions that do nothing where nothing is to be done;
  * `ExprWritten`, `ItemsWritten`, `EntriesWritten`, `ArgsWritten` -- what was written;
  * `ExprWritten.binary`, `.array`, `.fn`, … -- the constructs.
-/
namespace Stackling

open Generate

/-! ## 1. What is written -/

/-- Conversions that leave a value of the wanted type as it is. -/
def Generate.Conversion.Trivial (conv : Conversion) : Prop := ∀ ty, conv ty ty = pure ()

theorem convert_trivial : Conversion.Trivial convert := by
  intro ty
  unfold convert
  rw [if_pos ty.compatible_self]

variable (p : Program) (types : TypeTable) (c : CallableDecl) (L : Layout)

/-- The code of an expression is written between two states of the generator. -/
structure ExprWritten (e : Expr) (ty : Ty) (g g' : Generator) : Prop where
  run : ∀ conv, Conversion.Trivial conv → lowerExpr conv e g = .ok (ty, g')
  wrote : Wrote g g' e.literals.length
  depth : g'.depth = g.depth + ty.width
  placed : ∀ code u, Final code u g' → ExprPlaced p types code u c L g.pc e ty g'.pc

/-- The code of items of an array that lies on the stack. -/
structure ItemsWritten (element : Ty) (index : Nat) (items : List Expr) (g g' : Generator) :
    Prop where
  run : ∀ conv, Conversion.Trivial conv → lowerItems conv element index items g = .ok ((), g')
  wrote : Wrote g g' (itemLiterals items).length
  depth : g'.depth = g.depth
  placed : ∀ code u, Final code u g' → ItemsPlaced p types code u c L element index g.pc items g'.pc

/-- The code of entries of a hash that lies on the stack. -/
structure EntriesWritten (key value : Ty) (entries : List (Expr × Expr)) (g g' : Generator) :
    Prop where
  run : ∀ conv, Conversion.Trivial conv → lowerEntries conv key value entries g = .ok ((), g')
  wrote : Wrote g g' (entryLiterals entries).length
  depth : g'.depth = g.depth
  placed : ∀ code u, Final code u g' → EntriesPlaced p types code u c L key value g.pc entries g'.pc

/-- The code of arguments, whether or not they are compared with parameters. -/
structure ArgsWritten (params : List Ty) (args : List Expr) (g g' : Generator) : Prop where
  run : ∀ conv, Conversion.Trivial conv → lowerArgs conv params args g = .ok ((), g')
  runAll : ∀ conv, Conversion.Trivial conv → lowerAll conv args g = .ok ((), g')
  length : args.length = params.length
  wrote : Wrote g g' (itemLiterals args).length
  depth : g'.depth = g.depth + args.length
  placed : ∀ code u, Final code u g' → ArgsPlaced p types code u c L g.pc args params g'.pc

/-- What statements leave behind, apart from code. Outside all scopes they make cells, elsewhere
    slots. -/
structure BodyNamed (L' : Layout) (literals : List Literal) (slots : List Ty)
    (cells : List (String × Ty)) (g g' : Generator) : Prop where
  fits : Fits p c g' L'
  grown : L.Grown L'
  depth : g'.depth = g.depth
  literals : g'.literals = g.literals + literals.length
  locals : g'.current.locals = g.current.locals + slots.length
  inner : L.scopes ≠ [] → g'.globals = g.globals ∧ g'.globalNames = g.globalNames
  outer : L.scopes = [] →
    g'.globalNames.toList = g.globalNames.toList ++ cells.map (·.1)

/-- What statements leave behind. -/
structure BodyWrote (L' : Layout) (literals : List Literal) (slots : List Ty)
    (cells : List (String × Ty)) (g g' : Generator) : Prop
    extends BodyNamed p c L L' literals slots cells g g' where
  whole : g.Extends g'

/-- The code of a statement is written between two states of the generator. -/
structure StmtWritten (s : Stmt) (L' : Layout) (g g' : Generator) : Prop where
  run : ∀ conv, Conversion.Trivial conv → lowerStmt conv s g = .ok ((), g')
  wrote : BodyWrote p c L L' s.literals (s.slots L.scopes.isEmpty) s.cells g g'
  placed : ∀ code u, Final code u g' → StmtPlaced p types code u c L g.pc s L' g'.pc

/-- The code of statements, one after the other. -/
structure StmtsWritten (body : List Stmt) (L' : Layout) (g g' : Generator) : Prop where
  run : ∀ conv, Conversion.Trivial conv → lowerStmts conv body g = .ok ((), g')
  wrote : BodyWrote p c L L' (stmtLiterals body) (stmtSlots L.scopes.isEmpty body)
    (stmtCells body) g g'
  placed : ∀ code u, Final code u g' → StmtsPlaced p types code u c L g.pc body L' g'.pc

variable {p types c L} {g g₁ g₂ g₃ : Generator} {node : Node} {ty : Ty} {rows : Rows}

/-- A conversion to the same type is skipped. -/
theorem conv_ok {conv : Conversion} (hc : conv.Trivial) (ty : Ty) (g : Generator) :
    conv ty ty g = .ok ((), g) := by
  rw [hc]
  rfl

theorem discard_ok {α : Type} {m : Generate α} {x : α} (h : m g = .ok (x, g₁)) :
    discard m g = .ok (⟨⟩, g₁) := discard_eq_ok.mpr ⟨x, h⟩

/-! ## 2. Words and operators -/

theorem Comparison.operandKind?_equality {op : Comparison} {ty : Ty}
    (h : op = .equal ∨ op = .notEqual) (hv : ty ≠ .void) :
    ∃ kind, op.operandKind? ty = some kind := by
  cases ty <;> rcases h with rfl | rfl <;> first | exact ⟨_, rfl⟩ | exact absurd rfl hv

theorem Comparison.operandKind?_ordered (op : Comparison) {ty : Ty} (h : ty.isOrdered = true) :
    ∃ kind, op.operandKind? ty = some kind := by
  cases ty <;> first | exact ⟨_, rfl⟩ | cases h

/-- **There is an instruction for every typed operator.** -/
theorem BinaryOp.Typed.op? {op : BinaryOp} {l r ty : Ty} (h : op.Typed l r ty) :
    ∃ o, op.op? l = some o ∧ o.pops = 2 ∧ o.pushes = 1 ∧ o ≠ .intToBool := by
  cases h with
  | addInt | addText | sub | mul | div => exact ⟨_, rfl, rfl, rfl, nofun⟩
  | equality ho hv =>
    rcases ho with rfl | rfl
    · obtain ⟨kind, hk⟩ := Comparison.operandKind?_equality (.inl rfl) hv
      exact ⟨.compare .equal kind, by simp [BinaryOp.op?, BinaryOp.comparison?, hk], rfl, rfl,
        nofun⟩
    · obtain ⟨kind, hk⟩ := Comparison.operandKind?_equality (.inr rfl) hv
      exact ⟨.compare .notEqual kind, by simp [BinaryOp.op?, BinaryOp.comparison?, hk], rfl, rfl,
        nofun⟩
  | order ho hv =>
    obtain ⟨o, ho⟩ : ∃ o, op.comparison? = some o := by
      rcases ho with rfl | rfl | rfl | rfl <;> exact ⟨_, rfl⟩
    obtain ⟨kind, hk⟩ := Comparison.operandKind?_ordered o hv
    exact ⟨.compare o kind, by simp [BinaryOp.op?, ho, hk], rfl, rfl, nofun⟩

/-- The operands of a typed operator are values. -/
theorem BinaryOp.Typed.operands {op : BinaryOp} {l r ty : Ty} (h : op.Typed l r ty) :
    l ≠ .void ∧ r ≠ .void := by
  cases h with
  | addInt | addText | sub | mul | div => exact ⟨by simp, by simp⟩
  | equality _ hv => exact ⟨hv, hv⟩
  | order _ hv =>
    refine ⟨?_, ?_⟩ <;>
    · rintro rfl
      cases hv

theorem BinaryOp.Typed.result {op : BinaryOp} {l r ty : Ty} (h : op.Typed l r ty) :
    ty ≠ .void := h.proper.2

namespace ExprWritten

/-- An expression that is a single instruction. -/
theorem single {e : Expr} (op : Op) {body : Generate Unit} (hid : e.literals = [])
    (hp : op.pops = 0) (hu : op.pushes = ty.width) (ho : op ≠ .intToBool)
    (hrun : ∀ conv, lowerExpr conv e = producing node fun _ => body)
    (hbody : body g = emit op g) (ht : Filed types g node ty)
    (hplace : ∀ code u, u.ops[g.pc]? = some op →
      ExprPlaced p types code u c L g.pc e ty (g.pc + 1)) :
    ∃ g', ExprWritten p types c L e ty g g' := by
  have hd : (g.put op).depth = g.depth + ty.width := by
    rw [Generator.depth_put, hp, hu, Nat.sub_zero]
  refine ⟨g.put op, fun conv _ => ?_, ?_, hd, fun code u hf => ?_⟩
  · rw [hrun]
    exact producing_ok ht.find (hbody.trans (emit_ok (by omega))) hd
  · rw [hid]
    exact (Wrote.refl g).put _ ho
  · rw [Generator.pc_put]
    exact hplace code u hf.op

/-- A name is loaded from its place. -/
theorem name {name : String} {r : Resolved} {e : Entity} (hfits : Fits p c g L)
    (hf : L.find? name = some (r, e)) (hv : e.ty ≠ .void) (ht : Filed types g node e.ty) :
    ∃ g', ExprWritten p types c L (.name node name) e.ty g g' := by
  have hload : r.load.pops = 0 ∧ r.load.pushes = 1 ∧ r.load ≠ .intToBool := by
    rcases r with slot | cell | unit | b
    · cases slot <;> exact ⟨rfl, rfl, nofun⟩
    · exact ⟨rfl, rfl, nofun⟩
    · exact ⟨rfl, rfl, nofun⟩
    · exact ⟨rfl, rfl, nofun⟩
  refine single r.load (by rw [Expr.literals]) hload.1 (hload.2.1.trans (Ty.width_value hv).symm)
    hload.2.2 (fun conv => lowerExpr_name conv node name) ?_ ht
    fun code u hop => .name ht.row hf hv hop
  unfold lowerName
  rw [bind_of_ok get_ok, hfits.resolve hf]

theorem binary {op : BinaryOp} {left right : Expr} {l r : Ty}
    (hl : ExprWritten p types c L left l g g₁) (hr : ExprWritten p types c L right r g₁ g₂)
    (ht : Filed types g node ty) (ho : op.Typed l r ty) :
    ∃ g', ExprWritten p types c L (.binary node op left right) ty g g' := by
  obtain ⟨o, hop, hpops, hpushes, hne⟩ := ho.op?
  obtain ⟨h₁, h₂⟩ := ho.operands
  have hdl := hl.depth
  have hdr := hr.depth
  rw [Ty.width_value h₁] at hdl
  rw [Ty.width_value h₂] at hdr
  have hd : (g₂.put o).depth = g.depth + ty.width := by
    rw [Generator.depth_put, hpops, hpushes, Ty.width_value ho.result]
    omega
  refine ⟨g₂.put o, fun conv hc => ?_, ?_, hd, fun code u hf => ?_⟩
  · rw [lowerExpr]
    refine producing_ok ht.find ?_ hd
    rw [bind_of_ok (hl.run conv hc), bind_of_ok (discard_ok (hr.run conv hc)), hop]
    exact emit_ok (by omega)
  · have := (hl.wrote.trans hr.wrote).put _ hne
    rwa [← List.length_append] at this
  · have hf₂ := hf.mono (.put g₂ hne)
    rw [Generator.pc_put]
    exact .binary ht.row (hl.placed code u (hf₂.mono hr.wrote.step)) (hr.placed code u hf₂) ho hop
      hf.op

/-! ## 3. Literals -/

theorem array {items : List Expr} {element : Ty} (hv : element ≠ .void)
    (hi : ItemsWritten p types c L element 0 items (g.put (.newArray items.length)) g₁)
    (ht : Filed types g node (.array element)) :
    ∃ g', ExprWritten p types c L (.array node items) (.array element) g g' := by
  have hd : g₁.depth = g.depth + (Ty.array element).width := by
    rw [hi.depth, Generator.depth_put]
    rfl
  refine ⟨g₁, fun conv hc => ?_, ?_, hd, fun code u hf => ?_⟩
  · rw [lowerExpr]
    refine producing_ok ht.find ?_ hd
    show (emit (.newArray items.length) >>= fun _ => lowerItems conv element 0 items) g = _
    rw [bind_of_ok (emit_ok (Nat.zero_le _))]
    exact hi.run conv hc
  · have := ((Wrote.refl g).put (.newArray items.length) (by simp)).trans hi.wrote
    rwa [Nat.zero_add] at this
  · have hi' := hi.placed code u hf
    rw [Generator.pc_put] at hi'
    exact .array ht.row hv (hf.mono hi.wrote.step).op hi'

theorem hash {entries : List (Expr × Expr)} {key value : Ty} (hk : key = .int ∨ key = .string)
    (hv : value ≠ .void) (he : EntriesWritten p types c L key value entries (g.put .newHash) g₁)
    (ht : Filed types g node (.hash key value)) :
    ∃ g', ExprWritten p types c L (.hash node entries) (.hash key value) g g' := by
  have hd : g₁.depth = g.depth + (Ty.hash key value).width := by
    rw [he.depth, Generator.depth_put]
    rfl
  refine ⟨g₁, fun conv hc => ?_, ?_, hd, fun code u hf => ?_⟩
  · rw [lowerExpr]
    refine producing_ok ht.find ?_ hd
    show (emit .newHash >>= fun _ => lowerEntries conv key value entries) g = _
    rw [bind_of_ok (emit_ok (Nat.zero_le _))]
    exact he.run conv hc
  · have := ((Wrote.refl g).put .newHash (by simp)).trans he.wrote
    rwa [Nat.zero_add] at this
  · have he' := he.placed code u hf
    rw [Generator.pc_put] at he'
    exact .hash ht.row hk hv (hf.mono he.wrote.step).op he'

/-- The generator at the start of the body of a literal stands at the layout of the literal. -/
theorem fits_literal {params : List Param} {returns : TypeExpr} {body : List Stmt}
    (h : Fits p c g L) {l : CallableDecl}
    (hl : l = ⟨literalName g.literals, params, returns.toTy, body, false⟩) :
    Fits p l (g.startLiteral (callableBuilder g.units.size l)) (l.layout L.globals) := by
  subst hl
  refine ⟨rfl, h.outside, h.names, h.functions, ?_, rfl, nofun, rfl, ?_⟩
  · intro scope hs x hx slot hslot
    obtain rfl : scope = slotScope params := by simpa [CallableDecl.layout] using hs
    obtain ⟨y, -, rfl⟩ := List.mem_map.mp (List.mem_reverse.mp hx)
    cases hslot
  · have := h.counted
    simp only [Generator.startLiteral, Array.size_push, Program.literalUnit] at this ⊢
    omega

/-- **A function literal is written with the unit of its body.** -/
theorem fn {params : List Param} {returns : TypeExpr} {body : List Stmt} {span : Span}
    {L' : Layout} {l : CallableDecl} (hfits : Fits p c g L)
    (hl : l = ⟨literalName g.literals, params, returns.toTy, body, false⟩)
    (hplace : p.literals[g.literals]? = some ⟨node, params, returns, .mk body span⟩)
    (hv : ∀ x ∈ params, x.written.toTy ≠ .void)
    (he : returns.toTy = .void ∨ anyAlwaysReturns body = true)
    (hb : StmtsWritten p types l (l.layout L.globals) body L'
      (g.startLiteral (callableBuilder g.units.size l)) g₁)
    (ht : Filed types g node (.fn (paramTypes params) returns.toTy)) :
    ∃ g', ExprWritten p types c L (.fn node params returns (.mk body span))
      (.fn (paramTypes params) returns.toTy) g g' := by
  subst hl
  have hs := hb.wrote.whole
  obtain ⟨v, hfin⟩ := hs.finished_ok rfl rfl rfl hb.wrote.depth
  have hid : v.id = g.units.size := hfin.id
  have hinner := hb.wrote.inner (List.cons_ne_nil _ _)
  have hlt : g.units.size < g₁.units.size := by
    have := hs.units_size
    simp only [Generator.startLiteral, Array.size_push] at this
    omega
  have hstep : g.Extends (g.endLiteral g₁ v) := .literal hs hfin.plain
  have hd : ((g.endLiteral g₁ v).put (.pushUnit g.units.size)).depth =
      g.depth + (Ty.fn (paramTypes params) returns.toTy).width := rfl
  refine ⟨(g.endLiteral g₁ v).put (.pushUnit g.units.size), fun conv hc => ?_, ?_, hd,
    fun code u hf => ?_⟩
  · -- the body is written between the two scopes, in a unit of its own
    have hbody : (bindParams params >>= fun _ => lowerBlock conv (.mk body span))
        (g.startLiteral (.new g.units.size (literalName g.literals) params.length
          returns.toTy)) = .ok ((), g₁) := by
      rw [bind_of_ok (bindParams_ok params _), lowerBlock]
      exact hb.run conv hc
    have hunit := unit_ok (g := { g with units := g.units.push none, literals := g.literals + 1 })
      hbody hfin.finish (hid ▸ hlt)
    rw [hid] at hunit
    rw [lowerExpr]
    refine producing_ok ht.find ?_ hd
    rw [bind_of_ok get_ok]
    show (unit _ _ >>= fun _ => emit (.pushUnit g.units.size))
      { g with units := g.units.push none, literals := g.literals + 1 } = _
    exact (bind_of_ok hunit).trans (emit_ok (Nat.zero_le _))
  · refine Wrote.put ⟨⟨hstep.toGrows, ?_, rfl, rfl, hinner.1, hinner.2⟩, hstep⟩ _ (by simp)
    rw [Expr.literals, Block.literals, List.length_cons]
    show g₁.literals = _
    rw [hb.wrote.literals]
    simp only [Generator.startLiteral]
    omega
  · have hf₁ := hf.mono (.put _ (by simp))
    obtain ⟨hu, hfin'⟩ := hf₁.literal hs hfin
    have hop := hf.op
    have hlocals : v.locals = (stmtSlots false body).length := by
      rw [hfin.locals, hb.wrote.locals]
      exact Nat.zero_add _
    have hterm : v.ops[g₁.pc]? = some (terminatorOf returns.toTy) := by
      rw [hfin.ops]
      exact Array.getElem?_push_size
    rw [hfits.counted] at hu hop
    rw [Generator.pc_put]
    exact .fn ht.row hplace (.mk hu hfin.name hfin.arity hlocals hfits.names hv
      (hb.placed code v hfin') hterm he hfin.size) hop

/-! ## 4. Places in arrays and hashes -/

theorem indexArray {target key : Expr} {element : Ty} (hv : element ≠ .void)
    (htarget : ExprWritten p types c L target (.array element) g g₁)
    (hkey : ExprWritten p types c L key .int g₁ g₂)
    (ht : Filed types g node element) :
    ∃ g', ExprWritten p types c L (.index node target key) element g g' := by
  have h₁ : g₁.depth = g.depth + 1 := htarget.depth
  have h₂ : g₂.depth = g₁.depth + 1 := hkey.depth
  have hd : (g₂.put .indexArray).depth = g.depth + element.width := by
    rw [Generator.depth_put, Ty.width_value hv]
    simp only [Op.pops, Op.pushes]
    omega
  refine ⟨g₂.put .indexArray, fun conv hc => ?_, ?_, hd, fun code u hf => ?_⟩
  · rw [lowerExpr]
    refine producing_ok ht.find ?_ hd
    rw [bind_of_ok (htarget.run conv hc), bind_of_ok (hkey.run conv hc)]
    show (conv .int .int >>= fun _ => emit .indexArray) g₂ = _
    rw [bind_of_ok (conv_ok hc .int g₂)]
    exact emit_ok (by simp only [Op.pops]; omega)
  · have := (htarget.wrote.trans hkey.wrote).put .indexArray (by simp)
    rwa [← List.length_append] at this
  · have hf₂ := hf.mono (.put g₂ (by simp))
    rw [Generator.pc_put]
    exact .indexArray ht.row hv (htarget.placed code u (hf₂.mono hkey.wrote.step))
      (hkey.placed code u hf₂) hf.op

theorem indexHash {target key : Expr} {keyTy value : Ty} (hv : value ≠ .void)
    (hk : keyTy = .int ∨ keyTy = .string)
    (htarget : ExprWritten p types c L target (.hash keyTy value) g g₁)
    (hkey : ExprWritten p types c L key keyTy g₁ g₂)
    (ht : Filed types g node value) :
    ∃ g', ExprWritten p types c L (.index node target key) value g g' := by
  have h₁ : g₁.depth = g.depth + 1 := htarget.depth
  have h₂ : g₂.depth = g₁.depth + 1 := by
    rw [hkey.depth, Ty.width_value (Ty.Proper.of_key hk).2]
  have hd : (g₂.put .indexHash).depth = g.depth + value.width := by
    rw [Generator.depth_put, Ty.width_value hv]
    simp only [Op.pops, Op.pushes]
    omega
  refine ⟨g₂.put .indexHash, fun conv hc => ?_, ?_, hd, fun code u hf => ?_⟩
  · rw [lowerExpr]
    refine producing_ok ht.find ?_ hd
    rw [bind_of_ok (htarget.run conv hc), bind_of_ok (hkey.run conv hc)]
    show (conv keyTy keyTy >>= fun _ => emit .indexHash) g₂ = _
    rw [bind_of_ok (conv_ok hc keyTy g₂)]
    exact emit_ok (by simp only [Op.pops]; omega)
  · have := (htarget.wrote.trans hkey.wrote).put .indexHash (by simp)
    rwa [← List.length_append] at this
  · have hf₂ := hf.mono (.put g₂ (by simp))
    rw [Generator.pc_put]
    exact .indexHash ht.row hv hk (htarget.placed code u (hf₂.mono hkey.wrote.step))
      (hkey.placed code u hf₂) hf.op

end ExprWritten

/-! ## 5. Calls -/

/-- What a call leaves on the stack. -/
theorem Op.pushes_call (unit : UnitId) (arity : Nat) (ty : Ty) :
    (Op.call unit arity !ty.isVoid).pushes = ty.width := by
  unfold Op.pushes Ty.width
  cases ty.isVoid <;> rfl

theorem Op.pushes_callIndirect (arity : Nat) (ty : Ty) :
    (Op.callIndirect arity !ty.isVoid).pushes = ty.width := by
  unfold Op.pushes Ty.width
  cases ty.isVoid <;> rfl

theorem Builtin.Typed.length {b : Builtin} {params : List Ty} {ty : Ty} (h : b.Typed params ty) :
    params.length = b.arity := by
  cases h <;> rfl

theorem Generator.callTarget_name (g : Generator) (inner : Node) (name : String) :
    g.callTarget (.name inner name) =
      match g.resolve? name with
      | some (.function unit) => .function name unit
      | some (.builtin b) => .builtin name b
      | _ => .value := rfl

namespace ExprWritten

variable {inner : Node} {name : String} {callee : Expr} {args : List Expr} {params : List Ty}

/-- A call of a function that the callee names. -/
theorem callFunction {unit : UnitId} (hfits : Fits p c g L)
    (hf : L.find? name = some (.function unit, .function params ty))
    (ha : ArgsWritten p types c L params args g g₁) (ht : Filed types g node ty) :
    ∃ g', ExprWritten p types c L (.call node (.name inner name) args) ty g g' := by
  obtain ⟨f, hu, hparams⟩ : ∃ f, p.functions[unit]? = some f ∧ params = paramTypes f.params := by
    rcases hfits.refers hf with ⟨slot, sty, hr, -⟩ | hn
    · cases hr
    · cases hn with
      | function hu _ => exact ⟨_, hu, rfl⟩
  have htarget : g.callTarget (.name inner name) = .function name unit := by
    rw [Generator.callTarget_name, hfits.resolve hf]
  have hd₁ := ha.depth
  have hd : (g₁.put (.call unit args.length !ty.isVoid)).depth = g.depth + ty.width := by
    rw [Generator.depth_put, Op.pushes_call]
    simp only [Op.pops]
    omega
  refine ⟨g₁.put (.call unit args.length !ty.isVoid), fun conv hc => ?_, ?_, hd,
    fun code u hfin => ?_⟩
  · rw [lowerExpr]
    refine producing_ok ht.find ?_ hd
    rw [bind_of_ok get_ok, htarget]
    dsimp only
    rw [hfits.functionOf hu]
    dsimp only
    rw [← hparams, if_neg (not_not.mpr ha.length.symm)]
    show (lowerArgs conv params args >>= fun _ => emit _) g = _
    rw [bind_of_ok (ha.run conv hc)]
    exact emit_ok (by simp only [Op.pops]; omega)
  · have := ha.wrote.put (.call unit args.length !ty.isVoid) (by simp)
    rwa [Expr.literals, Expr.literals, List.nil_append]
  · rw [Generator.pc_put]
    exact .callFunction ht.row hf (ha.placed code u (hfin.mono (.put g₁ (by simp)))) hfin.op

/-- A call of a built-in that the callee names. -/
theorem callBuiltin {b : Builtin} (hfits : Fits p c g L)
    (hf : L.find? name = some (.builtin b, .builtin b)) (hb : b.Typed params ty)
    (hv : ty ≠ .void) (ha : ArgsWritten p types c L params args g g₁)
    (ht : Filed types g node ty) :
    ∃ g', ExprWritten p types c L (.call node (.name inner name) args) ty g g' := by
  have htarget : g.callTarget (.name inner name) = .builtin name b := by
    rw [Generator.callTarget_name, hfits.resolve hf]
  have hlen : b.arity = args.length := by rw [ha.length, hb.length]
  have hd₁ := ha.depth
  have hd : (g₁.put (.callBuiltin b)).depth = g.depth + ty.width := by
    rw [Generator.depth_put, Ty.width_value hv]
    simp only [Op.pops, Op.pushes]
    omega
  refine ⟨g₁.put (.callBuiltin b), fun conv hc => ?_, ?_, hd, fun code u hfin => ?_⟩
  · rw [lowerExpr]
    refine producing_ok ht.find ?_ hd
    rw [bind_of_ok get_ok, htarget]
    dsimp only
    rw [if_neg (not_not.mpr hlen)]
    show (lowerAll conv args >>= fun _ => emit _) g = _
    rw [bind_of_ok (ha.runAll conv hc)]
    exact emit_ok (by simp only [Op.pops]; omega)
  · have := ha.wrote.put (.callBuiltin b) (by simp)
    rwa [Expr.literals, Expr.literals, List.nil_append]
  · rw [Generator.pc_put]
    exact .callBuiltin ht.row hv hf (ha.placed code u (hfin.mono (.put g₁ (by simp)))) hb hfin.op

/-- A call of the value of the callee. -/
theorem callValue (htarget : g.callTarget callee = .value)
    (hcallee : ExprWritten p types c L callee (.fn params ty) g g₁)
    (ha : ArgsWritten p types c L params args g₁ g₂) (ht : Filed types g node ty) :
    ∃ g', ExprWritten p types c L (.call node callee args) ty g g' := by
  have h₁ : g₁.depth = g.depth + 1 := hcallee.depth
  have h₂ := ha.depth
  have hd : (g₂.put (.callIndirect args.length !ty.isVoid)).depth = g.depth + ty.width := by
    rw [Generator.depth_put, Op.pushes_callIndirect]
    simp only [Op.pops]
    omega
  refine ⟨g₂.put (.callIndirect args.length !ty.isVoid), fun conv hc => ?_, ?_, hd,
    fun code u hfin => ?_⟩
  · rw [lowerExpr]
    refine producing_ok ht.find ?_ hd
    rw [bind_of_ok get_ok, htarget]
    dsimp only
    rw [bind_of_ok (hcallee.run conv hc)]
    dsimp only
    rw [if_neg (not_not.mpr ha.length.symm)]
    show (lowerArgs conv params args >>= fun _ => emit _) g₁ = _
    rw [bind_of_ok (ha.run conv hc)]
    exact emit_ok (by simp only [Op.pops]; omega)
  · have := (hcallee.wrote.trans ha.wrote).put (.callIndirect args.length !ty.isVoid) (by simp)
    rwa [← List.length_append] at this
  · have hf₂ := hfin.mono (.put g₂ (by simp))
    rw [Generator.pc_put]
    exact .callValue ht.row (hcallee.placed code u (hf₂.mono ha.wrote.step))
      (ha.placed code u hf₂) hfin.op

end ExprWritten

/-! ## 6. Items, entries and arguments -/

theorem ItemsWritten.nil {element : Ty} {index : Nat} :
    ItemsWritten p types c L element index [] g g :=
  ⟨fun _ _ => by rw [lowerItems]; rfl, .refl g, rfl, fun _ _ _ => .nil⟩

/-- One more item, with the array below it on the stack. -/
theorem ItemsWritten.cons {element : Ty} {index : Nat} {item : Expr} {rest : List Expr}
    (hv : element ≠ .void) (hd : 1 ≤ g.depth) (hi : ExprWritten p types c L item element g g₁)
    (hr : ItemsWritten p types c L element (index + 1) rest (g₁.put (.setElement index)) g₂) :
    ItemsWritten p types c L element index (item :: rest) g g₂ := by
  have h₁ := hi.depth
  rw [Ty.width_value hv] at h₁
  refine ⟨fun conv hc => ?_, ?_, ?_, fun code u hf => ?_⟩
  · rw [lowerItems, bind_of_ok (hi.run conv hc), bind_of_ok (conv_ok hc element g₁),
      bind_of_ok (emit_ok (by simp only [Op.pops]; omega))]
    exact hr.run conv hc
  · have := (hi.wrote.put (.setElement index) nofun).trans hr.wrote
    rwa [← List.length_append] at this
  · rw [hr.depth, Generator.depth_put]
    simp only [Op.pops, Op.pushes]
    omega
  · have hf₁ := hf.mono hr.wrote.step
    have hr' := hr.placed code u hf
    rw [Generator.pc_put] at hr'
    exact .cons (hi.placed code u (hf₁.mono (.put g₁ nofun))) hf₁.op hr'

theorem EntriesWritten.nil {key value : Ty} : EntriesWritten p types c L key value [] g g :=
  ⟨fun _ _ => by rw [lowerEntries]; rfl, .refl g, rfl, fun _ _ _ => .nil⟩

/-- One more entry, with the hash below it on the stack. -/
theorem EntriesWritten.cons {key value : Ty} {k v : Expr} {rest : List (Expr × Expr)}
    (hk : key ≠ .void) (hv : value ≠ .void) (hd : 1 ≤ g.depth)
    (hkey : ExprWritten p types c L k key g g₁) (hvalue : ExprWritten p types c L v value g₁ g₂)
    (hr : EntriesWritten p types c L key value rest (g₂.put .insertEntry) g₃) :
    EntriesWritten p types c L key value ((k, v) :: rest) g g₃ := by
  have h₁ := hkey.depth
  have h₂ := hvalue.depth
  rw [Ty.width_value hk] at h₁
  rw [Ty.width_value hv] at h₂
  refine ⟨fun conv hc => ?_, ?_, ?_, fun code u hf => ?_⟩
  · rw [lowerEntries, bind_of_ok (hkey.run conv hc), bind_of_ok (conv_ok hc key g₁),
      bind_of_ok (hvalue.run conv hc), bind_of_ok (conv_ok hc value g₂),
      bind_of_ok (emit_ok (by simp only [Op.pops]; omega))]
    exact hr.run conv hc
  · have := ((hkey.wrote.trans hvalue.wrote).put .insertEntry nofun).trans hr.wrote
    rwa [← List.length_append, ← List.length_append] at this
  · rw [hr.depth, Generator.depth_put]
    simp only [Op.pops, Op.pushes]
    omega
  · have hf₂ := hf.mono hr.wrote.step
    have hf₁ := hf₂.mono (.put g₂ nofun)
    have hr' := hr.placed code u hf
    rw [Generator.pc_put] at hr'
    exact .cons (hkey.placed code u (hf₁.mono hvalue.wrote.step)) (hvalue.placed code u hf₁)
      hf₂.op hr'

theorem ArgsWritten.nil : ArgsWritten p types c L [] [] g g :=
  ⟨fun _ _ => by rw [lowerArgs]; rfl; nofun, fun _ _ => by rw [lowerAll]; rfl, rfl, .refl g, rfl,
    fun _ _ _ => .nil⟩

theorem ArgsWritten.cons {params : List Ty} {arg : Expr} {rest : List Expr} (hv : ty ≠ .void)
    (ha : ExprWritten p types c L arg ty g g₁)
    (hr : ArgsWritten p types c L params rest g₁ g₂) :
    ArgsWritten p types c L (ty :: params) (arg :: rest) g g₂ := by
  have h₁ := ha.depth
  have h₂ := hr.depth
  rw [Ty.width_value hv] at h₁
  refine ⟨fun conv hc => ?_, fun conv hc => ?_, ?_, ?_, ?_, fun code u hf => ?_⟩
  · rw [lowerArgs, bind_of_ok (ha.run conv hc), bind_of_ok (conv_ok hc ty g₁)]
    exact hr.run conv hc
  · rw [lowerAll, bind_of_ok (discard_ok (ha.run conv hc))]
    exact hr.runAll conv hc
  · rw [List.length_cons, List.length_cons, hr.length]
  · have := ha.wrote.trans hr.wrote
    rwa [← List.length_append] at this
  · rw [List.length_cons]
    omega
  · exact .cons hv (ha.placed code u (hf.mono hr.wrote.step)) (hr.placed code u hf)

end Stackling
