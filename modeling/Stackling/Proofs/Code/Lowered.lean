import Stackling.Proofs.Code.Statements

/-
  File:     Stackling/Proofs/Code/Lowered.lean
  Subject:  Whatever is well typed can be written.

  The generator follows a derivation: it stands at a layout whose context is the one of the
  derivation, finds the rows of the derivation in its table, and has the literals, slots and
  cells ahead of it that the program says come next. Under that invariant every step succeeds,
  and what is written is placed as the relations of code demand.

  * `Layout.declares`    -- a declaration finds its cell or its slot;
  * `call_cases`         -- a call goes to a function that is named, or to a value;
  * `ExprTyped.written`, `StmtTyped.written`, … -- expressions and statements.
-/
namespace Stackling

open Generate

/-! ## 1. Declarations and calls -/

/-- A declaration makes a cell outside all scopes and a slot elsewhere. -/
theorem Layout.declares {L : Layout} {outer : List Locals} {name : String} {ty : Ty}
    {Γ' : Context} (h : (L.context outer).Declares name ty Γ') :
    (∃ globals, L = ⟨[], globals⟩ ∧ ∀ cell,
      Γ' = (⟨[], (name, .global cell, .value ty) :: globals⟩ : Layout).context outer) ∨
    (L.scopes ≠ [] ∧ ∀ slot, Γ' = (L.bind name slot ty).context outer) := by
  obtain ⟨scopes, globals⟩ := L
  cases scopes with
  | nil =>
    cases h with
    | global _ => exact .inl ⟨globals, rfl, fun _ => rfl⟩
  | cons scope rest =>
    cases h with
    | «local» _ => exact .inr ⟨List.cons_ne_nil _ _, fun _ => rfl⟩

theorem ExprTyped.name_inv {Γ : Context} {wanted : Option Ty} {node : Node} {name : String}
    {ty : Ty} {rows : Rows} (h : ExprTyped Γ wanted (.name node name) ty rows) :
    ∃ e, Γ.find? name = some e ∧ e.ty = ty := by
  cases h with
  | name found => exact ⟨_, found, rfl⟩

/-- A call goes to the function that the callee names, or to the value of the callee. -/
theorem call_cases {p : Program} {c : CallableDecl} {g : Generator} {L : Layout}
    {outer : List Locals} {callee : Expr} {params : List Ty} {ty : Ty} {rows : Rows}
    (hfits : Fits p c g L)
    (hn : ∀ inner name b, callee = .name inner name →
      (L.context outer).find? name ≠ some (.builtin b))
    (hc : ExprTyped (L.context outer) none callee (.fn params ty) rows) :
    g.callTarget callee = .value ∨ ∃ inner name unit, callee = .name inner name ∧
      L.find? name = some (.function unit, .function params ty) := by
  cases callee with
  | name inner name =>
    obtain ⟨e, hfound, hty⟩ := hc.name_inv
    obtain ⟨r, hr⟩ := Layout.find_of_context hfound
    rw [Generator.callTarget_name, hfits.resolve hr]
    rcases hfits.refers hr with ⟨slot, sty, rfl, -⟩ | hnames
    · exact .inl rfl
    · cases hnames with
      | cell _ => exact .inl rfl
      | function _ _ =>
        cases hty
        exact .inr ⟨inner, name, _, rfl, hr⟩
      | builtin _ => exact absurd hfound (hn inner name _ rfl)
  | _ => exact .inl rfl

/-- The arguments of a built-in are values. -/
theorem Builtin.Typed.values {b : Builtin} {params : List Ty} {ty : Ty} (h : b.Typed params ty)
    (hp : ∀ a ∈ params, a.Proper) : ∀ a ∈ params, a ≠ .void := by
  intro a ha
  cases h with
  | push =>
    have hv := (hp _ List.mem_cons_self).element.2
    simp only [List.mem_cons, List.not_mem_nil, or_false] at ha
    rcases ha with rfl | rfl
    · simp
    · exact hv
  | _ =>
    rw [List.mem_singleton.mp ha]
    simp

/-! ## 2. Expressions and statements -/

mutual
/-- **A well typed expression can be written.** -/
theorem ExprTyped.written {p : Program} {types : TypeTable} {c : CallableDecl} {g : Generator}
    {L : Layout} {outer : List Locals} {wanted : Option Ty} {ty : Ty} {rows : Rows}
    (hs : (L.context outer).Sane) (hw : Wanted wanted) : (e : Expr) →
    ExprTyped (L.context outer) wanted e ty rows → Ready p types c g L e.literals rows →
    ∃ g', ExprWritten p types c L e ty g g'
  | .int node value, .int, hr =>
    ExprWritten.single (.pushInt value) (by rw [Expr.literals]) rfl rfl nofun
      (fun _ => by rw [lowerExpr]) rfl hr.only fun _ _ hop => .int hr.only.row hop
  | .text node value, .text, hr =>
    ExprWritten.single (.pushText value) (by rw [Expr.literals]) rfl rfl nofun
      (fun _ => by rw [lowerExpr]) rfl hr.only fun _ _ hop => .text hr.only.row hop
  | .char node value, .char, hr =>
    ExprWritten.single (.pushChar value) (by rw [Expr.literals]) rfl rfl nofun
      (fun _ => by rw [lowerExpr]) rfl hr.only fun _ _ hop => .char hr.only.row hop
  | .bool node value, .bool, hr =>
    ExprWritten.single (.pushInt (if value then 1 else 0)) (by rw [Expr.literals]) rfl rfl nofun
      (fun _ => by rw [lowerExpr]) rfl hr.only fun _ _ hop => .bool hr.only.row hop
  | .name node x, .name found, hr => by
    obtain ⟨r, hf⟩ := Layout.find_of_context found
    exact ExprWritten.name hr.fits hf (hs.find found).2 hr.only
  | .binary node op left right, .binary hl hright ho, hr => by
    rw [Expr.literals] at hr
    obtain ⟨g₁, h₁⟩ := ExprTyped.written hs .none left hl hr.init.left
    obtain ⟨g₂, h₂⟩ := ExprTyped.written hs .none right hright (hr.init.right h₁.wrote.toMoved)
    exact h₁.binary h₂ hr.type ho
  | .array node [], .emptyArray hty, hr => by
    subst hty
    have hv := (getD_spec hw.element (⟨.int, nofun⟩ : Ty.int.Proper ∧ Ty.int ≠ .void)).2
    exact ExprWritten.array hv .nil hr.only
  | .array node (first :: rest), .array hf hv hrest, hr => by
    rw [Expr.literals, itemLiterals] at hr
    have hr' := hr.init.moved ((Moved.refl g).put (.newArray (first :: rest).length) nofun)
    obtain ⟨g₁, h₁⟩ := ExprTyped.written hs hw.of_element first hf hr'.left
    have hd : (g₁.put (.setElement 0)).depth = g.depth + 1 := by
      rw [Generator.depth_put, h₁.depth, Ty.width_value hv, Generator.depth_put]
      rfl
    obtain ⟨g₂, h₂⟩ := ItemsTyped.written 1 hs (ExprTyped.proper hs hw.of_element first hf) hv
      (hd ▸ Nat.le_add_left _ _) rest hrest
      (hr'.right (h₁.wrote.put (.setElement 0) nofun).toMoved)
    exact ExprWritten.array hv (.cons hv (Nat.le_add_left _ _) h₁ h₂) hr.type
  | .hash node [], .emptyHash hty, hr => by
    subst hty
    have hk := getD_spec hw.key (.inl rfl : Ty.int = .int ∨ Ty.int = .string)
    have hv := (getD_spec hw.value (⟨.int, nofun⟩ : Ty.int.Proper ∧ Ty.int ≠ .void)).2
    exact ExprWritten.hash hk hv .nil hr.only
  | .hash node ((firstKey, firstValue) :: rest), .hash hk hvalue hkey hv hrest, hr => by
    rw [Expr.literals, entryLiterals] at hr
    have hk' := (Ty.Proper.of_key hkey).2
    have hr' := hr.init.moved ((Moved.refl g).put .newHash nofun)
    obtain ⟨g₁, h₁⟩ := ExprTyped.written hs hw.of_key firstKey hk hr'.left.left
    obtain ⟨g₂, h₂⟩ := ExprTyped.written hs hw.of_value firstValue hvalue
      (hr'.left.right h₁.wrote.toMoved)
    have hd : (g₂.put .insertEntry).depth = g.depth + 1 := by
      rw [Generator.depth_put, h₂.depth, h₁.depth, Ty.width_value hv, Ty.width_value hk',
        Generator.depth_put]
      rfl
    have hwrote := (h₁.wrote.trans h₂.wrote).put .insertEntry nofun
    rw [← List.length_append] at hwrote
    obtain ⟨g₃, h₃⟩ := EntriesTyped.written hs hkey
      (ExprTyped.proper hs hw.of_value firstValue hvalue) hv (hd ▸ Nat.le_add_left _ _) rest hrest
      (hr'.right hwrote.toMoved)
    exact ExprWritten.hash hkey hv (.cons hk' hv (Nat.le_add_left _ _) h₁ h₂ h₃) hr.type
  | .fn node params returns (.mk body span), .fn hproper hp hb he, hr => by
    rw [Expr.literals, Block.literals] at hr
    have hcontext : (CallableDecl.layout ⟨literalName g.literals, params, returns.toTy, body,
        false⟩ L.globals).context ((L.context outer).scopes ++ outer) =
          (L.context outer).literal (paramScope params) := by
      rw [← slotScope_types]
      rfl
    have hsane := hs.literal (paramScope_proper hp)
    rw [← hcontext] at hb hsane
    obtain ⟨L', g₁, -, h₁⟩ := StmtsTyped.written hsane (fun _ h => ⟨rfl, Option.some.inj h⟩)
      (.some hproper) body hb
      ⟨ExprWritten.fits_literal hr.fits rfl, hr.literals.tail, hr.table, hr.init.rows⟩
      (Segment.self _) nofun
    exact ExprWritten.fn hr.fits rfl hr.literals.head hp.value he h₁ hr.type
  | .index node target key, .indexArray ht hk, hr => by
    rw [Expr.literals] at hr
    obtain ⟨g₁, h₁⟩ := ExprTyped.written hs .none target ht hr.init.left
    obtain ⟨g₂, h₂⟩ := ExprTyped.written hs (.some .int) key hk
      (hr.init.right h₁.wrote.toMoved)
    exact ExprWritten.indexArray (ExprTyped.proper hs .none target ht).element.2 h₁ h₂ hr.type
  | .index node target key, .indexHash ht hk, hr => by
    rw [Expr.literals] at hr
    obtain ⟨hkey, -, hv⟩ := (ExprTyped.proper hs .none target ht).entry
    obtain ⟨g₁, h₁⟩ := ExprTyped.written hs .none target ht hr.init.left
    obtain ⟨g₂, h₂⟩ := ExprTyped.written hs (.some (Ty.Proper.of_key hkey).1) key hk
      (hr.init.right h₁.wrote.toMoved)
    exact ExprWritten.indexHash hv hkey h₁ h₂ hr.type
  | .call node (.name inner x) args, .callBuiltin found ha hb, hr => by
    rw [Expr.literals, Expr.literals] at hr
    obtain ⟨r, hf⟩ := Layout.find_of_context found
    obtain rfl : r = .builtin _ := by
      rcases hr.fits.refers hf with ⟨_, _, -, h⟩ | h
      · cases h
      · cases h with
        | builtin _ => rfl
    have hproper := BuiltinArgsTyped.proper hs .none args ha
    have hr' := hr.init.right (Moved.refl g)
    obtain ⟨g₁, h₁⟩ := BuiltinArgsTyped.written hs .none args ha (hb.values hproper) hr'
    exact ExprWritten.callBuiltin hr.fits hf hb (hb.proper hproper).2 h₁ hr.type
  | .call node callee args, .call hn hc ha, hr => by
    rw [Expr.literals] at hr
    have hparams := (ExprTyped.proper hs .none callee hc).param
    rcases call_cases hr.fits hn hc with htarget | ⟨inner, x, unit, rfl, hf⟩
    · obtain ⟨g₁, h₁⟩ := ExprTyped.written hs .none callee hc hr.init.left
      obtain ⟨g₂, h₂⟩ := ArgsTyped.written hs hparams args ha
        (hr.init.right h₁.wrote.toMoved)
      exact ExprWritten.callValue htarget h₁ h₂ hr.type
    · rw [Expr.literals] at hr
      obtain ⟨g₁, h₁⟩ := ArgsTyped.written hs hparams args ha (hr.init.right (Moved.refl g))
      exact ExprWritten.callFunction hr.fits hf h₁ hr.type

theorem ItemsTyped.written {p : Program} {types : TypeTable} {c : CallableDecl} {g : Generator}
    {L : Layout} {outer : List Locals} {element : Ty} {rows : Rows} (index : Nat)
    (hs : (L.context outer).Sane) (hp : element.Proper) (hv : element ≠ .void)
    (hd : 1 ≤ g.depth) : (items : List Expr) →
    ItemsTyped (L.context outer) element items rows →
    Ready p types c g L (itemLiterals items) rows →
    ∃ g', ItemsWritten p types c L element index items g g'
  | [], .nil, _ => ⟨g, .nil⟩
  | item :: rest, .cons hi hrest, hr => by
    rw [itemLiterals] at hr
    obtain ⟨g₁, h₁⟩ := ExprTyped.written hs (.some hp) item hi hr.left
    have hd' : 1 ≤ (g₁.put (.setElement index)).depth := by
      rw [Generator.depth_put, h₁.depth, Ty.width_value hv]
      simp only [Op.pops, Op.pushes]
      omega
    obtain ⟨g₂, h₂⟩ := ItemsTyped.written (index + 1) hs hp hv hd' rest hrest
      (hr.right (h₁.wrote.put (.setElement index) nofun).toMoved)
    exact ⟨g₂, .cons hv hd h₁ h₂⟩

theorem EntriesTyped.written {p : Program} {types : TypeTable} {c : CallableDecl}
    {g : Generator} {L : Layout} {outer : List Locals} {key value : Ty} {rows : Rows}
    (hs : (L.context outer).Sane) (hk : key = .int ∨ key = .string) (hp : value.Proper)
    (hv : value ≠ .void) (hd : 1 ≤ g.depth) : (entries : List (Expr × Expr)) →
    EntriesTyped (L.context outer) key value entries rows →
    Ready p types c g L (entryLiterals entries) rows →
    ∃ g', EntriesWritten p types c L key value entries g g'
  | [], .nil, _ => ⟨g, .nil⟩
  | (k, v) :: rest, .cons hkey hvalue hrest, hr => by
    rw [entryLiterals] at hr
    obtain ⟨hkp, hkv⟩ := Ty.Proper.of_key hk
    obtain ⟨g₁, h₁⟩ := ExprTyped.written hs (.some hkp) k hkey hr.left.left
    obtain ⟨g₂, h₂⟩ := ExprTyped.written hs (.some hp) v hvalue (hr.left.right h₁.wrote.toMoved)
    have hd' : 1 ≤ (g₂.put .insertEntry).depth := by
      rw [Generator.depth_put, h₂.depth, h₁.depth, Ty.width_value hv, Ty.width_value hkv]
      simp only [Op.pops, Op.pushes]
      omega
    have hwrote := (h₁.wrote.trans h₂.wrote).put .insertEntry nofun
    rw [← List.length_append] at hwrote
    obtain ⟨g₃, h₃⟩ := EntriesTyped.written hs hk hp hv hd' rest hrest
      (hr.right hwrote.toMoved)
    exact ⟨g₃, .cons hkv hv hd h₁ h₂ h₃⟩

theorem ArgsTyped.written {p : Program} {types : TypeTable} {c : CallableDecl} {g : Generator}
    {L : Layout} {outer : List Locals} {params : List Ty} {rows : Rows}
    (hs : (L.context outer).Sane) (hp : ∀ ty ∈ params, ty.Proper ∧ ty ≠ .void) :
    (args : List Expr) → ArgsTyped (L.context outer) params args rows →
    Ready p types c g L (itemLiterals args) rows →
    ∃ g', ArgsWritten p types c L params args g g'
  | [], .nil, _ => ⟨g, .nil⟩
  | arg :: rest, .cons ha hrest, hr => by
    rw [itemLiterals] at hr
    obtain ⟨hproper, hv⟩ := hp _ List.mem_cons_self
    obtain ⟨g₁, h₁⟩ := ExprTyped.written hs (.some hproper) arg ha hr.left
    obtain ⟨g₂, h₂⟩ := ArgsTyped.written hs (fun ty hty => hp ty (List.mem_cons_of_mem _ hty))
      rest hrest (hr.right h₁.wrote.toMoved)
    exact ⟨g₂, .cons hv h₁ h₂⟩

theorem BuiltinArgsTyped.written {p : Program} {types : TypeTable} {c : CallableDecl}
    {g : Generator} {L : Layout} {outer : List Locals} {b : Builtin} {first : Option Ty}
    {params : List Ty} {rows : Rows} (hs : (L.context outer).Sane) (hw : Wanted first) :
    (args : List Expr) → BuiltinArgsTyped (L.context outer) b first args params rows →
    (∀ ty ∈ params, ty ≠ .void) → Ready p types c g L (itemLiterals args) rows →
    ∃ g', ArgsWritten p types c L params args g g'
  | [], .nil, _, _ => ⟨g, .nil⟩
  | arg :: rest, .cons ha hrest, hv, hr => by
    rw [itemLiterals] at hr
    obtain ⟨g₁, h₁⟩ := ExprTyped.written hs (hw.expectedNext b) arg ha hr.left
    have hw' := hw.orElse (ExprTyped.proper hs (hw.expectedNext b) arg ha)
    obtain ⟨g₂, h₂⟩ := BuiltinArgsTyped.written hs hw' rest hrest
      (fun ty hty => hv ty (List.mem_cons_of_mem _ hty)) (hr.right h₁.wrote.toMoved)
    exact ⟨g₂, .cons (hv _ List.mem_cons_self) h₁ h₂⟩

/-- **A well typed statement can be written,** if its slots and cells come next. -/
theorem StmtTyped.written {p : Program} {types : TypeTable} {c : CallableDecl} {g : Generator}
    {L : Layout} {outer : List Locals} {Γ' : Context} {returns : Option Ty} {rows : Rows}
    (hs : (L.context outer).Sane)
    (hret : ∀ ty, returns = some ty → c.outside = false ∧ c.returns = ty)
    (hw : Wanted returns) : (s : Stmt) → StmtTyped (L.context outer) returns s Γ' rows →
    Ready p types c g L s.literals rows →
    Segment c.slots g.current.locals (s.slots L.scopes.isEmpty) →
    (L.scopes = [] → Segment p.cells g.globalNames.size s.cells) →
    ∃ L' g', Γ' = L'.context outer ∧ StmtWritten p types c L s L' g g'
  | .declare _ _ _ written value, .declare hproper hv he hd, hr, hslots, hcells => by
    rw [Stmt.literals] at hr
    obtain ⟨g₁, h₁⟩ := ExprTyped.written hs (.some hproper) value he hr
    rcases Layout.declares hd with ⟨globals, rfl, hΓ⟩ | ⟨hscopes, hΓ⟩
    · obtain ⟨g', h'⟩ := StmtWritten.declareCell hr.fits hv (hcells rfl).head h₁
      exact ⟨_, g', hΓ _, h'⟩
    · rw [Stmt.slots, if_neg (by simpa using hscopes)] at hslots
      obtain ⟨g', h'⟩ := StmtWritten.declareLocal hr.fits hscopes hv hslots.head h₁
      exact ⟨_, g', hΓ _, h'⟩
  | .returns _ none, .returnsNothing, hr, _, _ => by
    obtain ⟨ho, hreturns⟩ := hret _ rfl
    obtain ⟨g', h'⟩ := StmtWritten.returnsNothing hr.fits ho hreturns
    exact ⟨L, g', rfl, h'⟩
  | .returns _ (some value), .returns he, hr, _, _ => by
    rw [Stmt.literals] at hr
    obtain ⟨ho, rfl⟩ := hret _ rfl
    obtain ⟨g₁, h₁⟩ := ExprTyped.written hs hw value he hr
    by_cases hv : c.returns = .void
    · rw [hv] at h₁
      obtain ⟨g', h'⟩ := StmtWritten.returnsVoid hr.fits ho hv h₁
      exact ⟨L, g', rfl, h'⟩
    · obtain ⟨g', h'⟩ := StmtWritten.returns hr.fits ho hv h₁
      exact ⟨L, g', rfl, h'⟩
  | .expr value, @StmtTyped.expr _ _ _ ty _ he, hr, _, _ => by
    rw [Stmt.literals] at hr
    obtain ⟨g₁, h₁⟩ := ExprTyped.written hs .none value he hr
    by_cases hv : ty = .void
    · subst hv
      obtain ⟨g', h'⟩ := StmtWritten.exprVoid hr.fits h₁
      exact ⟨L, g', rfl, h'⟩
    · obtain ⟨g', h'⟩ := StmtWritten.expr hr.fits hv h₁
      exact ⟨L, g', rfl, h'⟩
  | .branch _ condition (.mk yes _) none, .branch hc hy, hr, hslots, _ => by
    rw [Stmt.literals, Block.literals] at hr
    rw [Stmt.slots, Block.slots] at hslots
    obtain ⟨g₁, h₁⟩ := ExprTyped.written hs (.some .bool) condition hc hr.left
    have hr₁ := (hr.right h₁.wrote.toMoved).moved (.tested g₁)
    have hbranch : (L.branch.context outer).Sane := hs.branch
    obtain ⟨L₁, g₂, -, h₂⟩ := StmtsTyped.written hbranch hret hw yes hy hr₁.enter
      (h₁.wrote.locals ▸ hslots) nofun
    exact ⟨L, _, rfl, .branch hr.fits h₁ h₂⟩
  | .branch _ condition (.mk yes _) (some (.mk no _)), .branchElse hc hy hn, hr, hslots, _ => by
    rw [Stmt.literals, Block.literals, Block.literals] at hr
    rw [Stmt.slots, Block.slots, Block.slots] at hslots
    obtain ⟨g₁, h₁⟩ := ExprTyped.written hs (.some .bool) condition hc hr.left.left
    have hr₁ := (hr.left.right h₁.wrote.toMoved).moved (.tested g₁)
    have hbranch : (L.branch.context outer).Sane := hs.branch
    obtain ⟨L₁, g₂, -, h₂⟩ := StmtsTyped.written hbranch hret hw yes hy hr₁.enter
      (h₁.wrote.locals ▸ hslots.left) nofun
    have harm := h₂.firstArm_named hr.fits h₁
    have hstep := h₁.wrote.whole.trans h₂.firstArm_extends.branch
    have hr₂ := (hr.after harm hstep.types).moved
      (.between (h₂.firstArm_extends.keepsOpen g₁.open_label))
    obtain ⟨L₂, g₃, -, h₃⟩ := StmtsTyped.written hbranch hret hw no hn hr₂.enter
      (harm.locals ▸ hslots.right) nofun
    exact ⟨L, _, rfl, .branchElse hr.fits h₁ h₂ h₃⟩
  | .print _ value, .print he hv, hr, _, _ => by
    rw [Stmt.literals] at hr
    obtain ⟨g₁, h₁⟩ := ExprTyped.written hs .none value he hr
    obtain ⟨g', h'⟩ := StmtWritten.print hr.fits hv h₁
    exact ⟨L, g', rfl, h'⟩
  | .block (.mk body _), .block hb, hr, hslots, hcells => by
    rw [Stmt.literals, Block.literals] at hr
    rw [Stmt.slots, Block.slots] at hslots
    rw [Stmt.cells, Block.cells] at hcells
    obtain ⟨L', g', hΓ, h'⟩ := StmtsTyped.written hs hret hw body hb hr hslots hcells
    exact ⟨L', g', hΓ, .block h'⟩

/-- Well typed statements can be written one after the other. -/
theorem StmtsTyped.written {p : Program} {types : TypeTable} {c : CallableDecl} {g : Generator}
    {L : Layout} {outer : List Locals} {Γ' : Context} {returns : Option Ty} {rows : Rows}
    (hs : (L.context outer).Sane)
    (hret : ∀ ty, returns = some ty → c.outside = false ∧ c.returns = ty)
    (hw : Wanted returns) : (body : List Stmt) →
    StmtsTyped (L.context outer) returns body Γ' rows →
    Ready p types c g L (stmtLiterals body) rows →
    Segment c.slots g.current.locals (stmtSlots L.scopes.isEmpty body) →
    (L.scopes = [] → Segment p.cells g.globalNames.size (stmtCells body)) →
    ∃ L' g', Γ' = L'.context outer ∧ StmtsWritten p types c L body L' g g'
  | [], .nil, hr, _, _ => ⟨L, g, rfl, .nil hr.fits⟩
  | s :: rest, .cons hstmt hrest, hr, hslots, hcells => by
    rw [stmtLiterals] at hr
    rw [stmtSlots] at hslots
    rw [stmtCells] at hcells
    obtain ⟨L₁, g₁, rfl, h₁⟩ := StmtTyped.written hs hret hw s hstmt hr.left hslots.left
      fun hn => (hcells hn).left
    have hsame : L₁.scopes.isEmpty = L.scopes.isEmpty := h₁.wrote.grown.isEmpty
    obtain ⟨L₂, g₂, hΓ, h₂⟩ := StmtsTyped.written (StmtTyped.sane hs s hstmt) hret hw rest hrest
      (hr.after h₁.wrote.toBodyNamed h₁.wrote.whole.types)
      (by rw [h₁.wrote.locals, hsame]; exact hslots.right)
      fun hn => by
        have hn' := h₁.wrote.grown.nil_iff.mp hn
        have hsize : g₁.globalNames.size = g.globalNames.size + s.cells.length := by
          rw [← Array.length_toList, h₁.wrote.outer hn', List.length_append, List.length_map,
            Array.length_toList]
        rw [hsize]
        exact (hcells hn').right
    exact ⟨L₂, g₂, hΓ, .cons h₁ h₂⟩
end

end Stackling
