import Stackling.Proofs.Code.Placed
import Stackling.Proofs.Run.Stepping

/-
  File:     Stackling/Proofs/Run/CodeTyping.lean
  Subject:  The operands that code finds on the stack.

  Code is typed from its end: an offset is typed with some operands if the instruction there
  takes what stands on top of them, and the offset it goes on at is typed with what is left. An
  operand is known by the expression it is the value of, and its type is the one that was filed
  for this expression.

  * `Computes`         -- instructions that turn operands into one operand, with the expressions;
  * `Computes.gives`   -- what they do at run time;
  * `CodeTyped`        -- an offset of a unit, the slots that have been stored, and the operands.
-/
namespace Stackling

/-! ## 1. Instructions that compute -/

/-- The values of some arguments, which have the given types, the last of them on top. -/
def argOperands (args : List Expr) (types : List Ty) : List Operand :=
  (List.zipWith Operand.value args types).reverse

/-- **An instruction takes operands off the stack and leaves one,** that of the expression it is
    the last instruction of. -/
inductive Computes (p : Program) : Op → List Operand → Operand → Prop
  | int {node n} : Computes p (.pushInt n) [] (.value (.int node n) .int)
  | text {node s} : Computes p (.pushText s) [] (.value (.text node s) .string)
  | char {node c} : Computes p (.pushChar c) [] (.value (.char node c) .char)
  | bool {node} {b : Bool} :
      Computes p (.pushInt (if b then 1 else 0)) [] (.value (.bool node b) .bool)
  | function {node name id f} (h : p.functions[id]? = some f) (hn : f.name = name) :
      Computes p (.pushUnit id) [] (.value (.name node name) f.callable.ty)
  | builtin {node name b} (h : Builtin.ofName? name = some b) :
      Computes p (.pushBuiltin b) [] (.value (.name node name) b.signature)
  | literal {node params returns body place}
      (h : p.literals[place]? = some ⟨node, params, returns, body⟩) :
      Computes p (.pushUnit (p.literalUnit place)) []
        (.value (.fn node params returns body) (.fn (paramTypes params) returns.toTy))
  | binary {node op left right l r ty o} (h : op.Typed l r ty) (ho : op.op? l = some o) :
      Computes p o [.value right r, .value left l] (.value (.binary node op left right) ty)
  | newArray {e element length} :
      Computes p (.newArray length) [] (.array e element 0 length)
  | setElement {e item element index length} :
      Computes p (.setElement index) [.value item element, .items e element index length]
        (.array e element (index + 1) length)
  | newHash {e key value} : Computes p .newHash [] (.value e (.hash key value))
  | insertEntry {e k v key value} (hk : key = .int ∨ key = .string) :
      Computes p .insertEntry [.value v value, .value k key, .value e (.hash key value)]
        (.value e (.hash key value))
  | indexArray {node target key element} :
      Computes p .indexArray [.value key .int, .value target (.array element)]
        (.value (.index node target key) element)
  | indexHash {node target key keyTy value} (hk : keyTy = .int ∨ keyTy = .string) :
      Computes p .indexHash [.value key keyTy, .value target (.hash keyTy value)]
        (.value (.index node target key) value)
  | callBuiltin {node callee args b params ty} (hb : b.Typed params ty)
      (hlen : args.length = params.length) :
      Computes p (.callBuiltin b) (argOperands args params) (.value (.call node callee args) ty)
  | not {e} : Computes p .not [.value e .bool] (.negated e)

/-- The result is an operand, or the fault is the program's own doing. -/
def Operand.Results (p : Program) (types : TypeTable) (o : Operand) (r : Except Fault Value) :
    Prop :=
  match r with
  | .ok v => o.Holds p types v
  | .error f => f.isOwn = true

section

variable {p : Program} {types : TypeTable} {code : Bytecode} {o : Operand} {op : Op}
  {r : Except Fault Value} {ty : Ty} {e : Expr}

theorem Yields.results (h : Yields p r ty) (ht : types.find? e.id = some ty) :
    (Operand.value e ty).Results p types r := by
  cases r with
  | ok v => exact .value ht h
  | error f => exact h

/-- The values of arguments that stand on the stack. -/
theorem holds_argOperands {args : List Expr} {tys : List Ty} {vs : List Value}
    (h : List.Forall₂ (Operand.Holds p types) vs (argOperands args tys))
    (hlen : args.length = tys.length) :
    ∃ vals, vs = vals.reverse ∧ List.Forall₂ (Value.Of p) vals tys := by
  refine ⟨vs.reverse, (List.reverse_reverse vs).symm, ?_⟩
  rw [← List.forall₂_reverse_iff, argOperands, List.reverse_reverse] at h
  generalize vs.reverse = vals at h
  induction args generalizing tys vals with
  | nil =>
    cases tys with
    | nil =>
      cases h
      exact .nil
    | cons => cases hlen
  | cons arg args ih =>
    cases tys with
    | nil => cases hlen
    | cons ty tys =>
      rw [List.zipWith_cons_cons] at h
      obtain - | ⟨hv, h⟩ := h
      cases hv with
      | value _ hv => exact .cons hv (ih (Nat.succ.inj hlen) _ h)

namespace Computes

variable {needs : List Operand}

/-- It neither writes nor loads a local. -/
theorem ne (h : Computes p op needs o) :
    (∀ ty, op ≠ .print ty) ∧ ∀ slot, op ≠ .loadLocal slot := by
  cases h with
  | binary _ ho =>
    obtain rfl | rfl | rfl | rfl | rfl | ⟨c, k, rfl⟩ := BinaryOp.op?_cases ho <;>
      exact ⟨nofun, nofun⟩
  | _ => exact ⟨nofun, nofun⟩

/-- The unit of a callable of a program has its name. -/
theorem unit_name (hp : ProgramPlaced p types code) {id : UnitId} {c : CallableDecl}
    (h : p.callables[id]? = some c) : ∃ u, code.unit? id = some u ∧ u.name = c.name := by
  obtain ⟨globals, hc⟩ := hp.callables id c h
  cases hc with
  | mk hu hn => exact ⟨_, hu, hn⟩

/-- The unit of a callee is put on the stack. -/
theorem gives_pushUnit (hp : ProgramPlaced p types code) {id : UnitId} {c : CallableDecl}
    (h : p.Callee id c) :
    (Op.pushUnit id).Gives code [] (.ok (.callable (.unit id c.name))) := by
  obtain ⟨u, hu, hn⟩ := unit_name hp h.callable
  intro limit w vs frames globals sink
  simp only [exec, hu, hn]
  rfl

/-- **The instruction does at run time what it says:** from the values of its operands it makes
    the value of its result, or ends with a fault of the program's own. -/
theorem gives (h : Computes p op needs o) (hp : ProgramPlaced p types code)
    (ht : o.Filed types) {vs : List Value}
    (hs : List.Forall₂ (Operand.Holds p types) vs needs) :
    ∃ r, op.Gives code vs r ∧ o.Results p types r := by
  cases h with
  | @int _ n =>
    cases hs
    exact ⟨.ok (.int n), fun _ _ _ _ _ _ => rfl, .value ht .int⟩
  | @text _ s =>
    cases hs
    exact ⟨.ok (.text s), fun _ _ _ _ _ _ => rfl, .value ht .text⟩
  | @char _ c =>
    cases hs
    exact ⟨.ok (.char c), fun _ _ _ _ _ _ => rfl, .value ht .char⟩
  | @bool _ b =>
    cases hs
    exact ⟨.ok (.ofBool b), fun _ _ _ _ _ _ => by cases b <;> rfl, .value ht (.ofBool b)⟩
  | function hf =>
    cases hs
    exact ⟨_, gives_pushUnit hp (.function hf), .value ht (.unit (.function hf))⟩
  | @builtin _ _ b =>
    cases hs
    exact ⟨.ok (.callable (.builtin b)), fun _ _ _ _ _ _ => rfl, .value ht .builtin⟩
  | literal hl =>
    cases hs
    exact ⟨_, gives_pushUnit hp (.literal hl), .value ht (.unit (.literal hl))⟩
  | binary hty ho =>
    obtain - | ⟨⟨_, hb⟩, - | ⟨⟨_, ha⟩, - | _⟩⟩ := hs
    obtain ⟨r, hg, -, hy⟩ := hty.gives ho ha hb
    exact ⟨r, hg, hy.results ht⟩
  | @newArray e element length =>
    cases hs
    have ht' : types.find? e.id = some (.array element) := by
      unfold Operand.array at ht
      split at ht <;> exact ht
    refine ⟨.ok (.array (List.replicate length .void)), fun _ _ _ _ _ _ => rfl, ?_⟩
    have h := @Operand.Holds.array p element types e [] length ht' nofun
    rwa [List.nil_append, List.length_nil, Nat.zero_add] at h
  | setElement =>
    obtain - | ⟨hv, - | ⟨ha, - | _⟩⟩ := hs
    cases hv with
    | @value v _ _ _ hv =>
      cases ha with
      | @items _ _ done missing ht' hd =>
        refine ⟨_, gives_setElement _ done missing, ?_⟩
        have h := @Operand.Holds.array p _ types _ (done ++ [_]) missing ht'
          (List.forall_mem_append.mpr ⟨hd, List.forall_mem_singleton.mpr hv⟩)
        rw [List.length_append, List.length_singleton] at h
        rwa [show done.length + (missing + 1) = done.length + 1 + missing by omega]
  | newHash =>
    cases hs
    exact ⟨.ok (.hash []), fun _ _ _ _ _ _ => rfl, .value ht (.hash nofun nofun)⟩
  | insertEntry hk =>
    obtain - | ⟨⟨_, hv⟩, - | ⟨⟨_, hkey⟩, - | ⟨⟨_, hh⟩, - | _⟩⟩⟩ := hs
    obtain ⟨entries, rfl, -, -⟩ := hh.hash_inv
    obtain ⟨k, -, rfl⟩ := hkey.key_inv hk
    exact ⟨_, gives_insertEntry k _ entries, .value ht (hh.insertEntry hkey hv)⟩
  | indexArray =>
    obtain - | ⟨⟨_, hi⟩, - | ⟨⟨_, ha⟩, - | _⟩⟩ := hs
    obtain ⟨r, hg, -, hy⟩ := gives_indexArray ha hi
    exact ⟨r, hg, hy.results ht⟩
  | indexHash hk =>
    obtain - | ⟨⟨_, hi⟩, - | ⟨⟨_, ha⟩, - | _⟩⟩ := hs
    obtain ⟨r, hg, -, hy⟩ := gives_indexHash hk ha hi
    exact ⟨r, hg, hy.results ht⟩
  | callBuiltin hb hlen =>
    obtain ⟨vals, rfl, hvals⟩ := holds_argOperands hs hlen
    obtain ⟨harity, hy⟩ := hb.yields hvals
    exact ⟨_, gives_callBuiltin harity, hy.results ht⟩
  | not =>
    obtain - | ⟨⟨_, hv⟩, - | _⟩ := hs
    obtain ⟨b, rfl⟩ := hv.bool_inv
    refine ⟨.ok (.ofBool !b), fun _ _ _ _ _ _ => ?_, .negated⟩
    cases b <;> rfl

end Computes

end

/-! ## 2. Code -/

/-- The operands for the result of a call, which returns a value of the type. -/
def Operand.Returned (types : TypeTable) (ty : Ty) (after : List Operand) : Prop :=
  ty = .void ∧ after = [] ∨ ty ≠ .void ∧ ∃ e, after = [.value e ty] ∧ types.find? e.id = some ty

/-- **An offset of the unit `u` of the callable `c` is typed:** where the slots `M` have been
    stored and the given operands stand on the stack, the code from there on can be run. -/
inductive CodeTyped (p : Program) (types : TypeTable) (u : CodeUnit) (c : CallableDecl) :
    Nat → (Nat → Prop) → List Operand → Prop
  | computes {pc M S op needs o} (hop : u.ops[pc]? = some op) (h : Computes p op needs o)
      (ht : o.Filed types) (next : CodeTyped p types u c (pc + 1) M (o :: S)) :
      CodeTyped p types u c pc M (needs ++ S)
  | loadArg {pc M S node name index q} (hop : u.ops[pc]? = some (.loadArg index))
      (hq : c.params[index]? = some q) (ht : types.find? node.id = some q.written.toTy)
      (next : CodeTyped p types u c (pc + 1) M (.value (.name node name) q.written.toTy :: S)) :
      CodeTyped p types u c pc M S
  | loadLocal {pc M S node name slot ty} (hop : u.ops[pc]? = some (.loadLocal slot))
      (hm : M slot) (hs : c.slots[slot]? = some ty) (ht : types.find? node.id = some ty)
      (next : CodeTyped p types u c (pc + 1) M (.value (.name node name) ty :: S)) :
      CodeTyped p types u c pc M S
  | loadGlobal {pc M S node name cell ty} (hop : u.ops[pc]? = some (.loadGlobal cell))
      (hc : p.cells[cell]? = some (name, ty)) (ht : types.find? node.id = some ty)
      (next : CodeTyped p types u c (pc + 1) M (.value (.name node name) ty :: S)) :
      CodeTyped p types u c pc M S
  | storeLocal {pc M S slot e ty} (hop : u.ops[pc]? = some (.storeLocal slot))
      (hs : c.slots[slot]? = some ty)
      (next : CodeTyped p types u c (pc + 1) (fun i => M i ∨ i = slot) S) :
      CodeTyped p types u c pc M (.value e ty :: S)
  | storeGlobal {pc M S cell e name ty} (hop : u.ops[pc]? = some (.storeGlobal cell))
      (hc : p.cells[cell]? = some (name, ty)) (next : CodeTyped p types u c (pc + 1) M S) :
      CodeTyped p types u c pc M (.value e ty :: S)
  | pop {pc M S e ty} (hop : u.ops[pc]? = some .pop)
      (next : CodeTyped p types u c (pc + 1) M S) :
      CodeTyped p types u c pc M (.value e ty :: S)
  | print {pc M S e ty} (hop : u.ops[pc]? = some (.print ty))
      (next : CodeTyped p types u c (pc + 1) M S) :
      CodeTyped p types u c pc M (.value e ty :: S)
  | jumpIf {pc M S e l offset} (hop : u.ops[pc]? = some (.jumpIf l))
      (ho : u.offset? l = some offset) (next : CodeTyped p types u c (pc + 1) M S)
      (target : CodeTyped p types u c offset M S) :
      CodeTyped p types u c pc M (.negated e :: S)
  | jump {pc M S l offset} (hop : u.ops[pc]? = some (.jump l)) (ho : u.offset? l = some offset)
      (target : CodeTyped p types u c offset M S) : CodeTyped p types u c pc M S
  | call {pc M S id callee args returns after}
      (hop : u.ops[pc]? = some (.call id args.length returns))
      (hc : p.callables[id]? = some callee) (hlen : args.length = (paramTypes callee.params).length)
      (hr : Operand.Returned types callee.returns after)
      (next : CodeTyped p types u c (pc + 1) M (after ++ S)) :
      CodeTyped p types u c pc M (argOperands args (paramTypes callee.params) ++ S)
  | callValue {pc M S e args returns params ty after}
      (hop : u.ops[pc]? = some (.callIndirect args.length returns))
      (hlen : args.length = params.length) (hr : Operand.Returned types ty after)
      (next : CodeTyped p types u c (pc + 1) M (after ++ S)) :
      CodeTyped p types u c pc M (argOperands args params ++ .value e (.fn params ty) :: S)
  | ret {pc M e} (hop : u.ops[pc]? = some .ret) (hr : c.returns ≠ .void) :
      CodeTyped p types u c pc M [.value e c.returns]
  | retVoid {pc M} (hop : u.ops[pc]? = some .retVoid) (hr : c.returns = .void) :
      CodeTyped p types u c pc M []

/-- **A local is loaded only where it has been stored.** -/
theorem CodeTyped.loads {p : Program} {types : TypeTable} {u : CodeUnit} {c : CallableDecl}
    {pc slot : Nat} {M : Nat → Prop} {S : List Operand} (h : CodeTyped p types u c pc M S)
    (hop : u.ops[pc]? = some (.loadLocal slot)) : M slot ∧ ∃ ty, c.slots[slot]? = some ty := by
  have same : ∀ {op : Op}, u.ops[pc]? = some op → op = .loadLocal slot :=
    fun h' => Option.some.inj (h'.symm.trans hop)
  cases h with
  | computes hop' hc => exact absurd (same hop') (hc.ne.2 slot)
  | loadLocal hop' hm hs =>
    cases same hop'
    exact ⟨hm, _, hs⟩
  | loadArg hop' | loadGlobal hop' | storeLocal hop' | storeGlobal hop' | pop hop' | print hop'
  | jumpIf hop' | jump hop' | call hop' | callValue hop' | ret hop' | retVoid hop' =>
    cases same hop'

end Stackling
