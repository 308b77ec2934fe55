import Stackling.Proofs.Code.Writing
import Stackling.Proofs.Typing.Proper

/-
  File:     Stackling/Proofs/Code/Fitting.lean
  Subject:  The generator knows the names that the typing rules know.

  The context of a derivation and the scopes of the generator are two halves of one layout:
  the one has the types of the names, the other their places. So a name that is typed is a name
  that code can be written for.

  * `Layout.context`  -- the typing context of a layout;
  * `StmtsPlaced.grown` -- statements only add names to the current scope;
  * `Fits`            -- the generator stands at a layout, in a callable of the program;
  * `Fits.resolve`    -- it finds the place of every name of the layout;
  * `Wrote`           -- what is written for an expression, which declares no name;
  * `Ready`           -- what the generator needs for an expression or statement.
-/
namespace Stackling

/-! ## 1. Layouts and contexts -/

theorem lookup_map {α β : Type} (f : α → β) (l : List (String × α)) (name : String) :
    (l.map fun x => (x.1, f x.2)).lookup name = (l.lookup name).map f := by
  induction l with
  | nil => rfl
  | cons x l ih =>
    rw [List.map_cons, List.lookup_cons, List.lookup_cons]
    cases name == x.1 <;> simp [ih]

theorem findSome?_lookup_map {α β : Type} (f : α → β) (scopes : List (List (String × α)))
    (name : String) :
    (scopes.map fun scope => scope.map fun x => (x.1, f x.2)).findSome? (List.lookup name) =
      (scopes.findSome? (List.lookup name)).map f := by
  induction scopes with
  | nil => rfl
  | cons scope scopes ih =>
    rw [List.map_cons, List.findSome?_cons, List.findSome?_cons, lookup_map]
    cases scope.lookup name <;> simp [ih]

namespace Layout

/-- The types of the names of a layout, below the locals of the callables around. -/
def context (L : Layout) (outer : List Locals) : Context :=
  ⟨L.scopes.map fun scope => scope.map fun x => (x.1, x.2.2), outer,
    L.globals.map fun x => (x.1, x.2.2)⟩

/-- The slots of the names of a layout. -/
def slots (L : Layout) : List (List (String × Slot)) :=
  L.scopes.map fun scope => scope.map fun x => (x.1, x.2.1)

/-- **A name that has a type has a place.** -/
theorem find_of_context {L : Layout} {outer : List Locals} {name : String} {e : Entity}
    (h : (L.context outer).find? name = some e) : ∃ r, L.find? name = some (r, e) := by
  unfold Context.find? context at h
  simp only [findSome?_lookup_map, lookup_map] at h
  unfold find?
  cases hs : L.scopes.findSome? (List.lookup name) with
  | some x =>
    rw [hs] at h
    exact ⟨.slot x.1, by rw [← Option.some.inj h]⟩
  | none =>
    rw [hs] at h
    cases ho : outer.findSome? (List.lookup name) with
    | some ty =>
      rw [ho] at h
      cases h
    | none =>
      rw [ho] at h
      cases hg : L.globals.lookup name with
      | none => simp [hg] at h
      | some x =>
        refine ⟨x.1, ?_⟩
        have : x.2 = e := by simpa [hg] using h
        rw [← this]

/-- The layout has the same scopes as before, with more names in the current one. -/
structure Grown (L L' : Layout) : Prop where
  tail : L'.scopes.tail = L.scopes.tail
  length : L'.scopes.length = L.scopes.length
  globals : L.scopes ≠ [] → L'.globals = L.globals

namespace Grown

theorem refl (L : Layout) : L.Grown L := ⟨rfl, rfl, fun _ => rfl⟩

theorem nil_iff {L L' : Layout} (h : L.Grown L') : L'.scopes = [] ↔ L.scopes = [] := by
  rw [← List.length_eq_zero_iff, h.length, List.length_eq_zero_iff]

theorem isEmpty {L L' : Layout} (h : L.Grown L') : L'.scopes.isEmpty = L.scopes.isEmpty := by
  rw [Bool.eq_iff_iff, List.isEmpty_iff, List.isEmpty_iff]
  exact h.nil_iff

theorem trans {L L₁ L₂ : Layout} (h : L.Grown L₁) (h' : L₁.Grown L₂) : L.Grown L₂ where
  tail := h'.tail.trans h.tail
  length := h'.length.trans h.length
  globals hn := (h'.globals fun he => hn (h.nil_iff.mp he)).trans (h.globals hn)

theorem bind (L : Layout) (name : String) (slot : Slot) (ty : Ty) :
    L.Grown (L.bind name slot ty) := by
  unfold Layout.bind
  cases hs : L.scopes with
  | nil => exact refl L
  | cons scope rest =>
    refine ⟨?_, ?_, fun _ => rfl⟩ <;> rw [hs]
    · rfl
    · rfl

end Grown

end Layout

section

variable {p : Program} {types : TypeTable} {code : Bytecode}

mutual
/-- A statement only adds names to the current scope. -/
theorem StmtPlaced.grown {u : CodeUnit} {c : CallableDecl} {L L' : Layout} {pc pc' : Nat} :
    (s : Stmt) → StmtPlaced p types code u c L pc s L' pc' → L.Grown L'
  | .declare .., .declareCell .. => ⟨rfl, rfl, fun h => absurd rfl h⟩
  | .declare .., .declareLocal .. => .bind _ _ _ _
  | .returns _ none, .returnsNothing .. | .returns _ (some _), .returnsVoid ..
  | .returns _ (some _), .returns .. | .expr _, .exprVoid _ | .expr _, .expr ..
  | .branch _ _ (.mk _ _) none, .branch .. | .branch _ _ (.mk _ _) (some (.mk _ _)), .branchElse ..
  | .print .., .print .. => .refl _
  | .block (.mk body _), .block hb => StmtsPlaced.grown body hb
termination_by structural s => s

theorem StmtsPlaced.grown {u : CodeUnit} {c : CallableDecl} {L L' : Layout} {pc pc' : Nat} :
    (body : List Stmt) → StmtsPlaced p types code u c L pc body L' pc' → L.Grown L'
  | [], .nil => .refl _
  | s :: rest, .cons hs hr => (StmtPlaced.grown s hs).trans (StmtsPlaced.grown rest hr)
termination_by structural body => body
end

end

/-! ## 2. The names of the generator -/

namespace Generator

/-- What a name refers to outside the unit in work. -/
def outside? (g : Generator) (name : String) : Option Resolved :=
  match g.globals.lookup name with
  | some cell => some (.global cell)
  | none =>
    match g.function? name with
    | some f => some (.function f.unit)
    | none => (Builtin.ofName? name).map .builtin

theorem resolve?_eq (g : Generator) (name : String) : g.resolve? name =
    match g.current.resolve? name with
    | some slot => some (.slot slot)
    | none => g.outside? name := rfl

/-- A new global name hides a function or a built-in, and no other name is touched. -/
theorem outside?_declareGlobal (g : Generator) (name other : String) :
    (g.declareGlobal name).2.outside? other =
      if other = name then some (.global g.globalNames.size) else g.outside? other := by
  by_cases hn : other = name
  · simp [outside?, declareGlobal, hn]
  · have hne : (other == name) = false := by simpa using hn
    simp [outside?, declareGlobal, function?, List.lookup_cons, hn, hne]

end Generator

/-- The functions with their units, the first of them with the number `unit`. -/
def functionEntries (unit : UnitId) : List FunctionDecl → List FunctionEntry
  | [] => []
  | f :: rest =>
    ⟨f.name, unit, paramTypes f.params, f.returns.toTy⟩ :: functionEntries (unit + 1) rest

theorem find_functionEntries {fs : List FunctionDecl} {unit i : Nat} {f : FunctionDecl}
    (h : fs[i]? = some f) : (functionEntries unit fs).find? (fun e => e.unit == unit + i) =
      some ⟨f.name, unit + i, paramTypes f.params, f.returns.toTy⟩ := by
  induction fs generalizing unit i with
  | nil => simp at h
  | cons f' fs ih =>
    cases i with
    | zero =>
      obtain rfl : f' = f := by simpa using h
      simp [functionEntries]
    | succ i =>
      have hne : (unit == unit + (i + 1)) = false := by simp
      rw [functionEntries, List.find?_cons, hne, Nat.add_comm i 1, ← Nat.add_assoc]
      exact ih (by simpa using h)

/-- The generator stands at a layout, in a callable of the program. -/
structure Fits (p : Program) (c : CallableDecl) (g : Generator) (L : Layout) : Prop where
  scopes : g.current.scopes = L.slots
  outside : ∀ name, g.outside? name = (L.globals.lookup name).map (·.1)
  names : ∀ x ∈ L.globals, p.Names x.1 x.2.1 x.2.2
  functions : g.functions = functionEntries 0 p.functions
  fresh : ∀ scope ∈ L.scopes, ∀ x ∈ scope, ∀ slot, x.2.1 = .loc slot → slot < g.current.locals
  initializer : g.current.initializer = c.outside
  outermost : L.scopes = [] → c.outside = true
  returns : g.current.returns = c.returns
  counted : g.units.size = p.literalUnit g.literals

namespace Fits

variable {p : Program} {c : CallableDecl} {g : Generator} {L : Layout} {name : String}
  {r : Resolved} {e : Entity}

/-- **The generator finds the place of every name.** -/
theorem resolve (h : Fits p c g L) (hf : L.find? name = some (r, e)) :
    g.resolve? name = some r := by
  have hs : g.current.resolve? name = (L.scopes.findSome? (List.lookup name)).map (·.1) := by
    unfold UnitBuilder.resolve?
    rw [h.scopes, Layout.slots]
    exact findSome?_lookup_map Prod.fst L.scopes name
  rw [Generator.resolve?_eq, hs]
  unfold Layout.find? at hf
  cases hl : L.scopes.findSome? (List.lookup name) with
  | some x =>
    rw [hl] at hf
    cases hf
    rfl
  | none =>
    rw [hl] at hf
    have hf : L.globals.lookup name = some (r, e) := hf
    show g.outside? name = some r
    rw [h.outside, hf]
    rfl

/-- A name refers to a slot, or to what the program has under it. -/
theorem refers (h : Fits p c g L) (hf : L.find? name = some (r, e)) :
    (∃ slot ty, r = .slot slot ∧ e = .value ty) ∨ p.Names name r e := by
  unfold Layout.find? at hf
  split at hf
  · cases hf
    exact .inl ⟨_, _, rfl, rfl⟩
  · exact .inr (h.names _ (mem_of_lookup hf))

/-- The signature of a function is found by its unit. -/
theorem functionOf (h : Fits p c g L) {unit : UnitId} {f : FunctionDecl}
    (hf : p.functions[unit]? = some f) :
    g.functionOf? unit = some ⟨f.name, unit, paramTypes f.params, f.returns.toTy⟩ := by
  unfold Generator.functionOf?
  rw [h.functions]
  have := @find_functionEntries p.functions 0 unit f hf
  simpa using this

end Fits

/-! ## 3. Writing expressions -/

/-- The generator has moved on without a new name. -/
structure Moved (g g' : Generator) (literals : Nat) : Prop where
  step : g.Grows g'
  literals : g'.literals = g.literals + literals
  scopes : g'.current.scopes = g.current.scopes
  locals : g'.current.locals = g.current.locals
  globals : g'.globals = g.globals
  globalNames : g'.globalNames = g.globalNames

namespace Moved

variable {g g₁ g₂ : Generator} {m n : Nat}

theorem refl (g : Generator) : Moved g g 0 := ⟨.refl g, rfl, rfl, rfl, rfl, rfl⟩

theorem trans (h : Moved g g₁ m) (h' : Moved g₁ g₂ n) : Moved g g₂ (m + n) where
  step := h.step.trans h'.step
  literals := by rw [h'.literals, h.literals, Nat.add_assoc]
  scopes := h'.scopes.trans h.scopes
  locals := h'.locals.trans h.locals
  globals := h'.globals.trans h.globals
  globalNames := h'.globalNames.trans h.globalNames

theorem put (h : Moved g g₁ m) (op : Op) (ho : op ≠ .intToBool) : Moved g (g₁.put op) m :=
  h.trans (n := 0) ⟨.put g₁ ho, rfl, rfl, rfl, rfl, rfl⟩

end Moved

/-- What is written for an expression: code and units of literals, and no name. -/
structure Wrote (g g' : Generator) (literals : Nat) : Prop extends Moved g g' literals where
  whole : g.Extends g'

namespace Wrote

variable {g g₁ g₂ : Generator} {m n : Nat}

theorem refl (g : Generator) : Wrote g g 0 := ⟨.refl g, .refl g⟩

theorem trans (h : Wrote g g₁ m) (h' : Wrote g₁ g₂ n) : Wrote g g₂ (m + n) :=
  ⟨h.toMoved.trans h'.toMoved, h.whole.trans h'.whole⟩

theorem put (h : Wrote g g₁ m) (op : Op) (ho : op ≠ .intToBool) : Wrote g (g₁.put op) m :=
  ⟨h.toMoved.put op ho, h.whole.trans (.put g₁ ho)⟩

end Wrote

/-- A generator that declares nothing stays at its layout. -/
theorem Fits.moved {p : Program} {c : CallableDecl} {g g' : Generator} {L : Layout} {n : Nat}
    (h : Fits p c g L) (hw : Moved g g' n) : Fits p c g' L where
  scopes := hw.scopes.trans h.scopes
  outside name := by
    rw [← h.outside]
    unfold Generator.outside? Generator.function?
    rw [hw.globals, hw.step.functions]
  names := h.names
  functions := hw.step.functions.trans h.functions
  fresh scope hs x hx slot hslot := hw.locals ▸ h.fresh scope hs x hx slot hslot
  initializer := hw.step.initializer.trans h.initializer
  outermost := h.outermost
  returns := hw.step.returns.trans h.returns
  counted := by
    have hc := hw.step.counted
    have hl := hw.literals
    have := h.counted
    simp only [Program.literalUnit] at this ⊢
    omega

/-! ## 4. What the generator needs -/

/-- The table of the generator has the type of an expression. -/
structure Filed (types : TypeTable) (g : Generator) (node : Node) (ty : Ty) : Prop where
  table : g.types = types
  row : types.find? node.id = some ty

theorem Filed.find {types : TypeTable} {g : Generator} {node : Node} {ty : Ty}
    (h : Filed types g node ty) : g.types.find? node.id = some ty := h.table ▸ h.row

/-- The generator stands at a layout before something with the given literals and rows. -/
structure Ready (p : Program) (types : TypeTable) (c : CallableDecl) (g : Generator) (L : Layout)
    (literals : List Literal) (rows : Rows) : Prop where
  fits : Fits p c g L
  literals : Segment p.literals g.literals literals
  table : g.types = types
  rows : ∀ row ∈ rows, types.find? row.1 = some row.2

namespace Ready

variable {p : Program} {types : TypeTable} {c : CallableDecl} {g g' : Generator} {L : Layout}
  {ls ls' : List Literal} {rows rows' : Rows}

theorem left (h : Ready p types c g L (ls ++ ls') (rows ++ rows')) : Ready p types c g L ls rows :=
  ⟨h.fits, h.literals.left, h.table, fun row hr => h.rows row (List.mem_append_left _ hr)⟩

theorem right (h : Ready p types c g L (ls ++ ls') (rows ++ rows')) (hw : Moved g g' ls.length) :
    Ready p types c g' L ls' rows' where
  fits := h.fits.moved hw
  literals := by
    rw [hw.literals]
    exact h.literals.right
  table := hw.step.types.trans h.table
  rows row hr := h.rows row (List.mem_append_right _ hr)

/-- The type of an expression whose row is the last one. -/
theorem type {node : Node} {ty : Ty} (h : Ready p types c g L ls (rows ++ [(node.id, ty)])) :
    Filed types g node ty := ⟨h.table, h.rows (node.id, ty) (by simp)⟩

theorem only {node : Node} {ty : Ty} (h : Ready p types c g L ls [(node.id, ty)]) :
    Filed types g node ty := ⟨h.table, h.rows (node.id, ty) List.mem_cons_self⟩

theorem init (h : Ready p types c g L ls (rows ++ rows')) : Ready p types c g L ls rows :=
  ⟨h.fits, h.literals, h.table, fun row hr => h.rows row (List.mem_append_left _ hr)⟩

/-- What was written without a literal changes nothing. -/
theorem moved (h : Ready p types c g L ls rows) (hw : Moved g g' 0) :
    Ready p types c g' L ls rows where
  fits := h.fits.moved hw
  literals := by
    rw [hw.literals]
    exact h.literals
  table := hw.step.types.trans h.table
  rows := h.rows

end Ready

/-! ## 5. Parameters -/

theorem foldl_declareArg (l : List (Param × Nat)) (b : UnitBuilder)
    (scope : List (String × Slot)) (rest : List (List (String × Slot)))
    (h : b.scopes = scope :: rest) :
    l.foldl (fun b (p, i) => b.declareArg p.name i) b =
      { b with
        scopes := ((l.map fun x => (x.1.name, Slot.arg x.2)).reverse ++ scope) :: rest } := by
  induction l generalizing b scope with
  | nil =>
    rw [List.foldl_nil, List.map_nil, List.reverse_nil, List.nil_append, ← h]
  | cons x l ih =>
    obtain ⟨q, i⟩ := x
    have hb : b.declareArg q.name i =
        { b with scopes := ((q.name, .arg i) :: scope) :: rest } := by
      unfold UnitBuilder.declareArg UnitBuilder.bind
      rw [h]
    rw [List.foldl_cons]
    show l.foldl _ (b.declareArg q.name i) = _
    rw [hb, ih _ _ rfl]
    simp

/-- The slots of parameters. -/
def argScope (params : List Param) : List (String × Slot) :=
  (slotScope params).map fun x => (x.1, x.2.1)

/-- The unit of a callable before its body is written, with the parameters bound. -/
def callableBuilder (id : UnitId) (c : CallableDecl) : UnitBuilder :=
  { UnitBuilder.new id c.name c.params.length c.returns with scopes := [argScope c.params] }

/-- **The parameters are bound in a scope of their own.** -/
theorem bindParams_ok (params : List Param) (g : Generator) :
    bindParams params g = .ok ((), { g with current := { g.current with
      scopes := argScope params :: g.current.scopes } }) := by
  unfold bindParams
  rw [Generate.onUnit_ok, foldl_declareArg _ _ [] g.current.scopes rfl]
  simp [argScope, slotScope, UnitBuilder.enterScope, List.map_reverse]

/-- The types of parameters, by name. -/
theorem slotScope_types (params : List Param) :
    ((slotScope params).map fun x => (x.1, x.2.2)) = paramScope params := by
  unfold slotScope paramScope
  rw [List.map_reverse, List.map_map]
  congr 1
  calc params.zipIdx.map _
    _ = (params.zipIdx.map Prod.fst).map fun q => (q.name, q.written.toTy) := by
      rw [List.map_map]
      rfl
    _ = _ := by rw [List.zipIdx_map_fst]

end Stackling
