import Stackling.Code.Lowering
import Stackling.Proofs.Code.Callables

/-
  File:     Stackling/Proofs/Code/Placed.lean
  Subject:  Where the code of a well typed program stands.

  The relations say that the code of an expression or of statements stands in a unit between
  two offsets. They hold the types of the parts, as they were filed by the analysis, and for
  every name the place that its value is kept in. Nothing is said about how the code was
  written.

  * `Layout`       -- the names in scope, each with a place and a type;
  * `ExprPlaced`, `StmtPlaced`, … -- the code of expressions and statements;
  * `CallablePlaced` -- the unit of a callable;
  * `ProgramPlaced` -- the code of a program.
-/
namespace Stackling

/-! ## 1. Layouts -/

/-- Local names with their slots and types, the latest first. -/
abbrev SlotScope := List (String × Slot × Ty)

/-- Global names with what they refer to, the latest first. -/
abbrev GlobalNames := List (String × Resolved × Entity)

/-- The names in scope at a place of a callable. -/
structure Layout where
  /-- the open scopes of the callable, the innermost first -/
  scopes : List SlotScope
  globals : GlobalNames

namespace Layout

/-- What a name refers to, and what it stands for. -/
def find? (L : Layout) (name : String) : Option (Resolved × Entity) :=
  match L.scopes.findSome? (List.lookup name) with
  | some (slot, ty) => some (.slot slot, .value ty)
  | none => L.globals.lookup name

/-- The layout inside a branch. -/
def branch (L : Layout) : Layout := { L with scopes := [] :: L.scopes }

/-- The layout with a new local name. -/
def bind (L : Layout) (name : String) (slot : Slot) (ty : Ty) : Layout :=
  match L.scopes with
  | [] => L
  | scope :: rest => { L with scopes := ((name, slot, ty) :: scope) :: rest }

end Layout

/-- The scope of parameters, each in the slot of its argument. -/
def slotScope (params : List Param) : SlotScope :=
  (params.zipIdx.map fun x => (x.1.name, Slot.arg x.2, x.1.written.toTy)).reverse

/-- The layout at the start of a callable. -/
def CallableDecl.layout (c : CallableDecl) (globals : GlobalNames) : Layout :=
  ⟨if c.outside then [] else [slotScope c.params], globals⟩

/-- What a global name of a program refers to, and what it stands for. -/
inductive Program.Names (p : Program) (name : String) : Resolved → Entity → Prop
  | cell {cell : Nat} {ty : Ty} (h : p.cells[cell]? = some (name, ty)) :
      Names p name (.global cell) (.value ty)
  | function {unit : UnitId} {f : FunctionDecl} (h : p.functions[unit]? = some f)
      (hn : f.name = name) :
      Names p name (.function unit) (.function (paramTypes f.params) f.returns.toTy)
  | builtin {b : Builtin} (h : Builtin.ofName? name = some b) :
      Names p name (.builtin b) (.builtin b)

/-! ## 2. Code -/

/-- The instruction at the end of a unit. -/
def terminatorOf (returns : Ty) : Op := if returns.isVoid then .retVoid else .missingReturn

/-- The instruction for an operator computes with integers, joins strings or compares. -/
theorem BinaryOp.op?_cases {b : BinaryOp} {operand : Ty} {op : Op} (h : b.op? operand = some op) :
    op = .addInt ∨ op = .subInt ∨ op = .mulInt ∨ op = .divInt ∨ op = .concat ∨
      ∃ c k, op = .compare c k := by
  unfold BinaryOp.op? at h
  split at h
  · obtain ⟨k, -, rfl⟩ := Option.map_eq_some_iff.mp h
    simp
  · split at h <;> cases h <;> simp

variable (p : Program) (types : TypeTable) (code : Bytecode)

mutual
/-- The code of an expression stands in the unit `u` of the callable `c` between two offsets. -/
inductive ExprPlaced : CodeUnit → CallableDecl → Layout → Nat → Expr → Ty → Nat → Prop
  | int {u c L pc node value} (ht : types.find? node.id = some .int)
      (hop : u.ops[pc]? = some (.pushInt value)) :
      ExprPlaced u c L pc (.int node value) .int (pc + 1)
  | text {u c L pc node value} (ht : types.find? node.id = some .string)
      (hop : u.ops[pc]? = some (.pushText value)) :
      ExprPlaced u c L pc (.text node value) .string (pc + 1)
  | char {u c L pc node value} (ht : types.find? node.id = some .char)
      (hop : u.ops[pc]? = some (.pushChar value)) :
      ExprPlaced u c L pc (.char node value) .char (pc + 1)
  | bool {u c L pc node} {value : Bool} (ht : types.find? node.id = some .bool)
      (hop : u.ops[pc]? = some (.pushInt (if value then 1 else 0))) :
      ExprPlaced u c L pc (.bool node value) .bool (pc + 1)
  | name {u c L pc node name r e} (ht : types.find? node.id = some e.ty)
      (hf : L.find? name = some (r, e)) (hv : e.ty ≠ .void) (hop : u.ops[pc]? = some r.load) :
      ExprPlaced u c L pc (.name node name) e.ty (pc + 1)
  | binary {u c L pc pc₁ pc₂ node op left right l r ty o}
      (ht : types.find? node.id = some ty) (hl : ExprPlaced u c L pc left l pc₁)
      (hr : ExprPlaced u c L pc₁ right r pc₂) (hty : op.Typed l r ty) (ho : op.op? l = some o)
      (hop : u.ops[pc₂]? = some o) :
      ExprPlaced u c L pc (.binary node op left right) ty (pc₂ + 1)
  | array {u c L pc pc' node items element} (ht : types.find? node.id = some (.array element))
      (hv : element ≠ .void) (hop : u.ops[pc]? = some (.newArray items.length))
      (hi : ItemsPlaced u c L element 0 (pc + 1) items pc') :
      ExprPlaced u c L pc (.array node items) (.array element) pc'
  | hash {u c L pc pc' node entries key value} (ht : types.find? node.id = some (.hash key value))
      (hk : key = .int ∨ key = .string) (hv : value ≠ .void) (hop : u.ops[pc]? = some .newHash)
      (he : EntriesPlaced u c L key value (pc + 1) entries pc') :
      ExprPlaced u c L pc (.hash node entries) (.hash key value) pc'
  | fn {u c L pc node params returns body span place}
      (ht : types.find? node.id = some (.fn (paramTypes params) returns.toTy))
      (hp : p.literals[place]? = some ⟨node, params, returns, .mk body span⟩)
      (hc : CallablePlaced (p.literalUnit place)
        ⟨literalName place, params, returns.toTy, body, false⟩ L.globals)
      (hop : u.ops[pc]? = some (.pushUnit (p.literalUnit place))) :
      ExprPlaced u c L pc (.fn node params returns (.mk body span))
        (.fn (paramTypes params) returns.toTy) (pc + 1)
  | indexArray {u c L pc pc₁ pc₂ node target key element}
      (ht : types.find? node.id = some element) (hv : element ≠ .void)
      (hg : ExprPlaced u c L pc target (.array element) pc₁)
      (hk : ExprPlaced u c L pc₁ key .int pc₂) (hop : u.ops[pc₂]? = some .indexArray) :
      ExprPlaced u c L pc (.index node target key) element (pc₂ + 1)
  | indexHash {u c L pc pc₁ pc₂ node target key keyTy value}
      (ht : types.find? node.id = some value) (hv : value ≠ .void)
      (hkt : keyTy = .int ∨ keyTy = .string)
      (hg : ExprPlaced u c L pc target (.hash keyTy value) pc₁)
      (hk : ExprPlaced u c L pc₁ key keyTy pc₂) (hop : u.ops[pc₂]? = some .indexHash) :
      ExprPlaced u c L pc (.index node target key) value (pc₂ + 1)
  | callFunction {u c L pc pc₁ node inner name args unit params ty}
      (ht : types.find? node.id = some ty)
      (hf : L.find? name = some (.function unit, .function params ty))
      (ha : ArgsPlaced u c L pc args params pc₁)
      (hop : u.ops[pc₁]? = some (.call unit args.length !ty.isVoid)) :
      ExprPlaced u c L pc (.call node (.name inner name) args) ty (pc₁ + 1)
  | callBuiltin {u c L pc pc₁ node inner name args b params ty}
      (ht : types.find? node.id = some ty) (hv : ty ≠ .void)
      (hf : L.find? name = some (.builtin b, .builtin b))
      (ha : ArgsPlaced u c L pc args params pc₁) (hb : b.Typed params ty)
      (hop : u.ops[pc₁]? = some (.callBuiltin b)) :
      ExprPlaced u c L pc (.call node (.name inner name) args) ty (pc₁ + 1)
  | callValue {u c L pc pc₁ pc₂ node callee args params ty}
      (ht : types.find? node.id = some ty)
      (hc : ExprPlaced u c L pc callee (.fn params ty) pc₁)
      (ha : ArgsPlaced u c L pc₁ args params pc₂)
      (hop : u.ops[pc₂]? = some (.callIndirect args.length !ty.isVoid)) :
      ExprPlaced u c L pc (.call node callee args) ty (pc₂ + 1)

/-- The code that stores items in an array, the first of them at `index`. -/
inductive ItemsPlaced :
    CodeUnit → CallableDecl → Layout → Ty → Nat → Nat → List Expr → Nat → Prop
  | nil {u c L element index pc} : ItemsPlaced u c L element index pc [] pc
  | cons {u c L element index pc pc₁ pc₂ item rest} (hi : ExprPlaced u c L pc item element pc₁)
      (hop : u.ops[pc₁]? = some (.setElement index))
      (hr : ItemsPlaced u c L element (index + 1) (pc₁ + 1) rest pc₂) :
      ItemsPlaced u c L element index pc (item :: rest) pc₂

/-- The code that adds entries to a hash. -/
inductive EntriesPlaced :
    CodeUnit → CallableDecl → Layout → Ty → Ty → Nat → List (Expr × Expr) → Nat → Prop
  | nil {u c L key value pc} : EntriesPlaced u c L key value pc [] pc
  | cons {u c L key value pc pc₁ pc₂ pc₃ k v rest} (hk : ExprPlaced u c L pc k key pc₁)
      (hv : ExprPlaced u c L pc₁ v value pc₂) (hop : u.ops[pc₂]? = some .insertEntry)
      (hr : EntriesPlaced u c L key value (pc₂ + 1) rest pc₃) :
      EntriesPlaced u c L key value pc ((k, v) :: rest) pc₃

/-- The code of arguments, with their types. -/
inductive ArgsPlaced :
    CodeUnit → CallableDecl → Layout → Nat → List Expr → List Ty → Nat → Prop
  | nil {u c L pc} : ArgsPlaced u c L pc [] [] pc
  | cons {u c L pc pc₁ pc₂ arg rest ty params} (hv : ty ≠ .void)
      (ha : ExprPlaced u c L pc arg ty pc₁) (hr : ArgsPlaced u c L pc₁ rest params pc₂) :
      ArgsPlaced u c L pc (arg :: rest) (ty :: params) pc₂

/-- The code of a statement, and the names in scope after it. -/
inductive StmtPlaced : CodeUnit → CallableDecl → Layout → Nat → Stmt → Layout → Nat → Prop
  | declareCell {u c globals pc pc₁ span constant name written value cell}
      (ho : c.outside = true) (hv : written.toTy ≠ .void)
      (he : ExprPlaced u c ⟨[], globals⟩ pc value written.toTy pc₁)
      (hcell : p.cells[cell]? = some (name, written.toTy))
      (hop : u.ops[pc₁]? = some (.storeGlobal cell)) :
      StmtPlaced u c ⟨[], globals⟩ pc (.declare span constant name written value)
        ⟨[], (name, .global cell, .value written.toTy) :: globals⟩ (pc₁ + 1)
  | declareLocal {u c L pc pc₁ span constant name written value slot}
      (hs : L.scopes ≠ []) (hv : written.toTy ≠ .void)
      (he : ExprPlaced u c L pc value written.toTy pc₁)
      (hslot : c.slots[slot]? = some written.toTy)
      (hfresh : ∀ scope ∈ L.scopes, ∀ x ∈ scope, x.2.1 ≠ .loc slot)
      (hop : u.ops[pc₁]? = some (.storeLocal slot)) :
      StmtPlaced u c L pc (.declare span constant name written value)
        (L.bind name (.loc slot) written.toTy) (pc₁ + 1)
  | returnsNothing {u c L pc span} (ho : c.outside = false) (hr : c.returns = .void)
      (hop : u.ops[pc]? = some .retVoid) :
      StmtPlaced u c L pc (.returns span none) L (pc + 1)
  | returnsVoid {u c L pc pc₁ span value} (ho : c.outside = false) (hr : c.returns = .void)
      (he : ExprPlaced u c L pc value .void pc₁) (hop : u.ops[pc₁]? = some .retVoid) :
      StmtPlaced u c L pc (.returns span (some value)) L (pc₁ + 1)
  | returns {u c L pc pc₁ span value} (ho : c.outside = false) (hr : c.returns ≠ .void)
      (he : ExprPlaced u c L pc value c.returns pc₁) (hop : u.ops[pc₁]? = some .ret) :
      StmtPlaced u c L pc (.returns span (some value)) L (pc₁ + 1)
  | exprVoid {u c L pc pc₁ value} (he : ExprPlaced u c L pc value .void pc₁) :
      StmtPlaced u c L pc (.expr value) L pc₁
  | expr {u c L pc pc₁ value ty} (hv : ty ≠ .void) (he : ExprPlaced u c L pc value ty pc₁)
      (hop : u.ops[pc₁]? = some .pop) : StmtPlaced u c L pc (.expr value) L (pc₁ + 1)
  | branch {u c L L' pc pc₁ pc₂ span condition yes spanYes after}
      (hc : ExprPlaced u c L pc condition .bool pc₁) (hnot : u.ops[pc₁]? = some .not)
      (hjump : u.ops[pc₁ + 1]? = some (.jumpIf after)) (hafter : u.offset? after = some pc₂)
      (hy : StmtsPlaced u c L.branch (pc₁ + 2) yes L' pc₂) :
      StmtPlaced u c L pc (.branch span condition (.mk yes spanYes) none) L pc₂
  | branchElse {u c L L₁ L₂ pc pc₁ pc₂ pc₃ span condition yes spanYes no spanNo otherwise after}
      (hc : ExprPlaced u c L pc condition .bool pc₁) (hnot : u.ops[pc₁]? = some .not)
      (hjump : u.ops[pc₁ + 1]? = some (.jumpIf otherwise))
      (hother : u.offset? otherwise = some (pc₂ + 1))
      (hy : StmtsPlaced u c L.branch (pc₁ + 2) yes L₁ pc₂)
      (hskip : u.ops[pc₂]? = some (.jump after)) (hafter : u.offset? after = some pc₃)
      (hn : StmtsPlaced u c L.branch (pc₂ + 1) no L₂ pc₃) :
      StmtPlaced u c L pc (.branch span condition (.mk yes spanYes) (some (.mk no spanNo))) L pc₃
  | print {u c L pc pc₁ span value ty} (hv : ty ≠ .void) (he : ExprPlaced u c L pc value ty pc₁)
      (hop : u.ops[pc₁]? = some (.print ty)) : StmtPlaced u c L pc (.print span value) L (pc₁ + 1)
  | block {u c L L' pc pc' body span} (hb : StmtsPlaced u c L pc body L' pc') :
      StmtPlaced u c L pc (.block (.mk body span)) L' pc'

/-- The code of statements, one after the other. -/
inductive StmtsPlaced :
    CodeUnit → CallableDecl → Layout → Nat → List Stmt → Layout → Nat → Prop
  | nil {u c L pc} : StmtsPlaced u c L pc [] L pc
  | cons {u c L L₁ L₂ pc pc₁ pc₂ s rest} (hs : StmtPlaced u c L pc s L₁ pc₁)
      (hr : StmtsPlaced u c L₁ pc₁ rest L₂ pc₂) : StmtsPlaced u c L pc (s :: rest) L₂ pc₂

/-- The unit of a callable, given the global names its body may use. -/
inductive CallablePlaced : UnitId → CallableDecl → GlobalNames → Prop
  | mk {id c globals u L pc} (hu : code.unit? id = some u) (hn : u.name = c.name)
      (ha : u.arity = c.params.length) (hl : u.locals = c.slots.length)
      (hg : ∀ x ∈ globals, p.Names x.1 x.2.1 x.2.2)
      (hv : ∀ x ∈ c.params, x.written.toTy ≠ .void)
      (hb : StmtsPlaced u c (c.layout globals) 0 c.body L pc)
      (ht : u.ops[pc]? = some (terminatorOf c.returns))
      (he : c.returns = .void ∨ anyAlwaysReturns c.body = true) (hs : u.ops.size = pc + 1) :
      CallablePlaced id c globals
end

variable {p types code} in
theorem ArgsPlaced.length {u : CodeUnit} {c : CallableDecl} {L : Layout} {pc pc' : Nat}
    {params : List Ty} : (args : List Expr) →
    ArgsPlaced p types code u c L pc args params pc' → args.length = params.length
  | [], .nil => rfl
  | _ :: rest, .cons _ _ hr => congrArg Nat.succ (ArgsPlaced.length rest hr)

/-- The code of a program: a unit for everything that has one, and last the unit that a run
    starts with. -/
structure ProgramPlaced : Prop where
  callables : ∀ id c, p.callables[id]? = some c →
    ∃ globals, CallablePlaced p types code id c globals
  entry : ∃ u, code.unit? code.entry = some u ∧ u.arity = 0 ∧ u.locals = 0 ∧
    u.ops = #[.call p.globalsUnit 0 false, .call p.mainUnit 0 false, .retVoid]
  last : code.entry = p.entryUnit
  size : code.units.size = p.entryUnit + 1
  globals : code.globals.toList = p.cells.map (·.1)

end Stackling
