import Stackling.Proofs.Code.Fitting
import Stackling.Proofs.Run.CodeTyping

/-
  File:     Stackling/Proofs/Run/PlacedCode.lean
  Subject:  Code that stands where it should is typed.

  What comes after an expression is typed with its value on the stack, so the code of the
  expression is typed without it; and so on, back to the first instruction of the unit. A name
  in scope has its slot stored, on every way to the place.

  * `Layout.Stored`     -- the local names of a layout have their slots stored;
  * `ExprPlaced.coded`, `StmtsPlaced.coded` -- the code of expressions and statements;
  * `CallablePlaced.coded` -- the unit of a callable, from its first instruction on.
-/
namespace Stackling

variable {p : Program} {types : TypeTable} {code : Bytecode}

/-! ## 1. Names in scope -/

/-- A slot holds values of the type: it is that of a parameter, or it has been stored. -/
def Slot.Has (c : CallableDecl) (M : Nat → Prop) (ty : Ty) : Slot → Prop
  | .arg index => ∃ q, c.params[index]? = some q ∧ q.written.toTy = ty
  | .loc slot => M slot ∧ c.slots[slot]? = some ty

/-- The local names of a layout have their slots stored, and the others stand for what the
    program has under them. -/
structure Layout.Stored (p : Program) (c : CallableDecl) (M : Nat → Prop) (L : Layout) : Prop where
  slots : ∀ scope ∈ L.scopes, ∀ x ∈ scope, x.2.1.Has c M x.2.2
  globals : ∀ x ∈ L.globals, p.Names x.1 x.2.1 x.2.2

namespace Layout.Stored

variable {c : CallableDecl} {M : Nat → Prop} {L L' : Layout}

/-- What a name of the layout refers to. -/
theorem find {name : String} {r : Resolved} {e : Entity} (h : L.Stored p c M)
    (hf : L.find? name = some (r, e)) :
    (∃ slot ty, r = .slot slot ∧ e = .value ty ∧ slot.Has c M ty) ∨ p.Names name r e := by
  unfold Layout.find? at hf
  split at hf
  · rename_i slot ty hs
    cases hf
    obtain ⟨scope, hscope, hx⟩ := List.exists_of_findSome?_eq_some hs
    exact .inl ⟨slot, ty, rfl, rfl, h.slots scope hscope _ (mem_of_lookup hx)⟩
  · exact .inr (h.globals _ (mem_of_lookup hf))

theorem branch (h : L.Stored p c M) : L.branch.Stored p c M :=
  ⟨List.forall_mem_cons.mpr ⟨nofun, h.slots⟩, h.globals⟩

/-- Names that were added are forgotten after a branch. -/
theorem of_branch (h : L'.Stored p c M) (hg : L.branch.Grown L') : L.Stored p c M where
  slots scope hs := h.slots scope (List.mem_of_mem_tail (hg.tail ▸ hs))
  globals := (hg.globals (List.cons_ne_nil _ _)) ▸ h.globals

/-- A new name, in a slot that is stored now. -/
theorem bind {name : String} {slot : Nat} {ty : Ty} (h : L.Stored p c M)
    (hs : c.slots[slot]? = some ty) :
    (L.bind name (.loc slot) ty).Stored p c fun i => M i ∨ i = slot := by
  have hslots : ∀ scope ∈ L.scopes, ∀ x ∈ scope, x.2.1.Has c (fun i => M i ∨ i = slot) x.2.2 := by
    intro scope hscope x hx
    have hhas := h.slots scope hscope x hx
    cases hslot : x.2.1 with
    | arg index =>
      rw [hslot] at hhas
      exact hhas
    | loc i =>
      rw [hslot] at hhas
      exact ⟨.inl hhas.1, hhas.2⟩
  unfold Layout.bind
  cases hscopes : L.scopes with
  | nil => exact ⟨hslots, h.globals⟩
  | cons scope rest =>
    rw [hscopes, List.forall_mem_cons] at hslots
    exact ⟨List.forall_mem_cons.mpr ⟨List.forall_mem_cons.mpr ⟨⟨.inr rfl, hs⟩, hslots.1⟩,
      hslots.2⟩, h.globals⟩

/-- A new cell. -/
theorem cell {globals : GlobalNames} {name : String} {cell : Nat} {ty : Ty}
    (h : (⟨[], globals⟩ : Layout).Stored p c M) (hc : p.cells[cell]? = some (name, ty)) :
    (⟨[], (name, .global cell, .value ty) :: globals⟩ : Layout).Stored p c M :=
  ⟨nofun, List.forall_mem_cons.mpr ⟨.cell hc, h.globals⟩⟩

end Layout.Stored

/-! ## 2. Expressions -/

/-- The type of a placed expression is the one that was filed. -/
theorem ExprPlaced.filed {u : CodeUnit} {c : CallableDecl} {L : Layout} {pc pc' : Nat} {e : Expr}
    {ty : Ty} (h : ExprPlaced p types code u c L pc e ty pc') : types.find? e.id = some ty := by
  cases h <;> assumption

/-- An expression that leaves a value. -/
theorem CodeTyped.ofValue {u : CodeUnit} {c : CallableDecl} {pc : Nat} {M : Nat → Prop}
    {S : List Operand} {ty : Ty} {e : Expr} (h : CodeTyped p types u c pc M (.value e ty :: S))
    (hv : ty ≠ .void) : CodeTyped p types u c pc M (ty.operands e ++ S) := by
  rwa [Ty.operands_of_ne hv]

theorem Ty.operands_returned {ty : Ty} {e : Expr} (h : types.find? e.id = some ty) :
    Operand.Returned types ty (ty.operands e) := by
  by_cases hv : ty = .void
  · subst hv
    exact .inl ⟨rfl, rfl⟩
  · exact .inr ⟨hv, e, Ty.operands_of_ne hv, h⟩

/-- The value of a name is put on the stack. -/
theorem Layout.Stored.coded {u : CodeUnit} {c : CallableDecl} {M : Nat → Prop} {L : Layout}
    {pc : Nat} {node : Node} {name : String} {r : Resolved} {e : Entity} {S : List Operand}
    (h : L.Stored p c M) (hf : L.find? name = some (r, e)) (hop : u.ops[pc]? = some r.load)
    (ht : types.find? node.id = some e.ty)
    (next : CodeTyped p types u c (pc + 1) M (.value (.name node name) e.ty :: S)) :
    CodeTyped p types u c pc M S := by
  rcases h.find hf with ⟨slot, ty, rfl, rfl, hhas⟩ | hn
  · cases slot with
    | arg index =>
      obtain ⟨q, hq, rfl⟩ := hhas
      exact .loadArg hop hq ht next
    | loc slot => exact .loadLocal hop hhas.1 hhas.2 ht next
  · cases hn with
    | cell hc => exact .loadGlobal hop hc ht next
    | function hfun hname => exact .computes hop (.function hfun hname) ht next
    | builtin hb => exact .computes hop (.builtin hb) ht next

theorem BinaryOp.Typed.ne_void {op : BinaryOp} {l r ty : Ty} (h : op.Typed l r ty) :
    l ≠ .void ∧ r ≠ .void ∧ ty ≠ .void := by
  cases h with
  | equality _ hv => exact ⟨hv, hv, by simp⟩
  | order _ hv =>
    have hne : l ≠ .void := by
      rintro rfl
      cases hv
    exact ⟨hne, hne, by simp⟩
  | _ => exact ⟨by simp, by simp, by simp⟩

theorem Ty.key_ne_void {key : Ty} (h : key = .int ∨ key = .string) : key ≠ .void := by
  rcases h with rfl | rfl <;> simp

theorem Operand.filed_array {e : Expr} {element : Ty} {stored length : Nat}
    (h : types.find? e.id = some (.array element)) :
    (Operand.array e element stored length).Filed types := by
  unfold Operand.array
  split <;> exact h

theorem argOperands_cons (arg : Expr) (args : List Expr) (ty : Ty) (tys : List Ty) :
    argOperands (arg :: args) (ty :: tys) = argOperands args tys ++ [.value arg ty] := by
  rw [argOperands, List.zipWith_cons_cons, List.reverse_cons]
  rfl

mutual
/-- **The code of an expression is typed** if what comes after it is typed with its value. -/
theorem ExprPlaced.coded {u : CodeUnit} {c : CallableDecl} {L : Layout} {M : Nat → Prop}
    {pc pc' : Nat} {ty : Ty} {S : List Operand} : (e : Expr) →
    ExprPlaced p types code u c L pc e ty pc' → L.Stored p c M →
    CodeTyped p types u c pc' M (ty.operands e ++ S) → CodeTyped p types u c pc M S
  | .int .., .int ht hop, _, next => .computes hop .int ht next
  | .text .., .text ht hop, _, next => .computes hop .text ht next
  | .char .., .char ht hop, _, next => .computes hop .char ht next
  | .bool .., .bool ht hop, _, next => .computes hop .bool ht next
  | .name .., .name ht hf hv hop, hL, next => by
    rw [Ty.operands_of_ne hv] at next
    exact hL.coded hf hop ht next
  | .binary node op left right, .binary ht hl hr hty ho hop, hL, next => by
    obtain ⟨hvl, hvr, hv⟩ := hty.ne_void
    rw [Ty.operands_of_ne hv] at next
    have hcomp := CodeTyped.computes hop (.binary hty ho) ht next
    exact ExprPlaced.coded left hl hL
      (.ofValue (ExprPlaced.coded right hr hL (.ofValue hcomp hvr)) hvl)
  | .array node items, .array ht hv hop hi, hL, next =>
    .computes hop (.newArray (e := .array node items)) (Operand.filed_array ht)
      (ItemsPlaced.coded items hi hL ht hv (Nat.zero_add _) next)
  | .hash node entries, .hash ht hk hv hop he, hL, next =>
    .computes hop (.newHash (e := .hash node entries)) ht
      (EntriesPlaced.coded entries he hL ht hk hv next)
  | .fn _ _ _ (.mk _ _), .fn ht hl _ hop, _, next => .computes hop (.literal hl) ht next
  | .index node target key, .indexArray ht hv hg hk hop, hL, next => by
    rw [Ty.operands_of_ne hv] at next
    have hcomp := CodeTyped.computes hop .indexArray ht next
    exact ExprPlaced.coded target hg hL
      (.ofValue (ExprPlaced.coded key hk hL (.ofValue hcomp nofun)) nofun)
  | .index node target key, .indexHash ht hv hkt hg hk hop, hL, next => by
    rw [Ty.operands_of_ne hv] at next
    have hcomp := CodeTyped.computes hop (.indexHash hkt) ht next
    exact ExprPlaced.coded target hg hL
      (.ofValue (ExprPlaced.coded key hk hL (.ofValue hcomp (Ty.key_ne_void hkt))) nofun)
  | .call node (.name inner name) args, .callFunction ht hf ha hop, hL, next => by
    obtain ⟨slot, ty, hr, -⟩ | hn := hL.find hf
    · cases hr
    · cases hn with
      | function hfun _ =>
        exact ArgsPlaced.coded args ha hL
          (.call hop (Program.callable_function hfun) (ArgsPlaced.length args ha)
            (Ty.operands_returned (e := .call node (.name inner name) args) ht) next)
  | .call node (.name inner name) args, .callBuiltin ht hv hf ha hb hop, hL, next => by
    rw [Ty.operands_of_ne hv] at next
    exact ArgsPlaced.coded args ha hL
      (.computes hop (.callBuiltin hb (ArgsPlaced.length args ha)) ht next)
  | .call node callee args, .callValue ht hc ha hop, hL, next =>
    ExprPlaced.coded callee hc hL (.ofValue (ArgsPlaced.coded args ha hL
      (.callValue hop (ArgsPlaced.length args ha)
        (Ty.operands_returned (e := .call node callee args) ht) next)) nofun)
termination_by structural e => e

/-- The code that stores items is typed with the array on the stack. -/
theorem ItemsPlaced.coded {u : CodeUnit} {c : CallableDecl} {L : Layout} {M : Nat → Prop}
    {pc pc' index length : Nat} {element : Ty} {S : List Operand} {e : Expr} :
    (items : List Expr) → ItemsPlaced p types code u c L element index pc items pc' →
    L.Stored p c M → types.find? e.id = some (.array element) → element ≠ .void →
    index + items.length = length →
    CodeTyped p types u c pc' M (.value e (.array element) :: S) →
    CodeTyped p types u c pc M (.array e element index length :: S)
  | [], .nil, _, _, _, hlen, next => by
    rwa [Operand.array, if_neg (by rw [List.length_nil] at hlen; omega)]
  | item :: rest, .cons hi hop hr, hL, ht, hv, hlen, next => by
    rw [List.length_cons] at hlen
    have hstored := ItemsPlaced.coded rest hr hL ht hv
      ((Nat.succ_add_eq_add_succ index rest.length).trans hlen) next
    rw [Operand.array, if_pos (by omega)]
    exact ExprPlaced.coded item hi hL
      (.ofValue (.computes hop .setElement (Operand.filed_array ht) hstored) hv)
termination_by structural items => items

/-- So is the code that adds entries, with the hash on the stack. -/
theorem EntriesPlaced.coded {u : CodeUnit} {c : CallableDecl} {L : Layout} {M : Nat → Prop}
    {pc pc' : Nat} {key value : Ty} {S : List Operand} {e : Expr} :
    (entries : List (Expr × Expr)) → EntriesPlaced p types code u c L key value pc entries pc' →
    L.Stored p c M → types.find? e.id = some (.hash key value) → key = .int ∨ key = .string →
    value ≠ .void → CodeTyped p types u c pc' M (.value e (.hash key value) :: S) →
    CodeTyped p types u c pc M (.value e (.hash key value) :: S)
  | [], .nil, _, _, _, _, next => next
  | (k, v) :: rest, .cons hk hw hop hr, hL, ht, hkey, hv, next => by
    have hstored := EntriesPlaced.coded rest hr hL ht hkey hv next
    have hkeys := ExprPlaced.coded v hw hL
      (.ofValue (.computes hop (.insertEntry (e := e) (k := k) hkey) ht hstored) hv)
    exact ExprPlaced.coded k hk hL (.ofValue hkeys (Ty.key_ne_void hkey))
termination_by structural entries => entries

/-- The code of arguments is typed if what comes after it is typed with their values. -/
theorem ArgsPlaced.coded {u : CodeUnit} {c : CallableDecl} {L : Layout} {M : Nat → Prop}
    {pc pc' : Nat} {params : List Ty} {S : List Operand} : (args : List Expr) →
    ArgsPlaced p types code u c L pc args params pc' → L.Stored p c M →
    CodeTyped p types u c pc' M (argOperands args params ++ S) → CodeTyped p types u c pc M S
  | [], .nil, _, next => next
  | arg :: rest, .cons hv ha hr, hL, next => by
    rw [argOperands_cons, List.append_assoc] at next
    exact ExprPlaced.coded arg ha hL (.ofValue (ArgsPlaced.coded rest hr hL next) hv)
termination_by structural args => args
end

/-! ## 3. Statements -/

mutual
/-- **The code of a statement is typed** if what comes after it is: that is asked for only where
    the statement does not always return. -/
theorem StmtPlaced.coded {u : CodeUnit} {c : CallableDecl} {L L' : Layout} {M : Nat → Prop}
    {pc pc' : Nat} : (s : Stmt) → StmtPlaced p types code u c L pc s L' pc' → L.Stored p c M →
    (s.alwaysReturns = false → ∀ M', L'.Stored p c M' → CodeTyped p types u c pc' M' []) →
    CodeTyped p types u c pc M []
  | .declare _ _ _ _ value, .declareCell ho hv he hcell hop, hL, next =>
    ExprPlaced.coded value he hL (.ofValue (.storeGlobal hop hcell (next rfl M (hL.cell hcell))) hv)
  | .declare _ _ _ _ value, .declareLocal hs hv he hslot _ hop, hL, next =>
    ExprPlaced.coded value he hL (.ofValue (.storeLocal hop hslot (next rfl _ (hL.bind hslot))) hv)
  | .returns _ none, .returnsNothing _ hr hop, _, _ => .retVoid hop hr
  | .returns _ (some value), .returnsVoid _ hr he hop, hL, _ =>
    ExprPlaced.coded value he hL (.retVoid hop hr)
  | .returns _ (some value), .returns _ hr he hop, hL, _ =>
    ExprPlaced.coded value he hL (.ofValue (.ret hop hr) hr)
  | .expr value, .exprVoid he, hL, next => ExprPlaced.coded value he hL (next rfl M hL)
  | .expr value, .expr hv he hop, hL, next =>
    ExprPlaced.coded value he hL (.ofValue (.pop hop (next rfl M hL)) hv)
  | .branch _ condition (.mk yes _) none, .branch hc hnot hjump hafter hy, hL, next => by
    have hyes := StmtsPlaced.coded yes hy hL.branch fun _ M' hM' =>
      next rfl M' (hM'.of_branch (StmtsPlaced.grown yes hy))
    have hbranch := CodeTyped.jumpIf (e := condition) hjump hafter hyes (next rfl M hL)
    exact ExprPlaced.coded condition hc hL (.ofValue (.computes hnot .not trivial hbranch) nofun)
  | .branch _ condition (.mk yes _) (some (.mk no _)),
      .branchElse hc hnot hjump hother hy hskip hafter hn, hL, next => by
    have hreturns : (anyAlwaysReturns yes && anyAlwaysReturns no) = false →
        ∀ M', L'.Stored p c M' → CodeTyped p types u c pc' M' [] := fun hr =>
      next (by rwa [Stmt.alwaysReturns, Block.alwaysReturns, Block.alwaysReturns])
    have hyes := StmtsPlaced.coded yes hy hL.branch fun hr M' hM' =>
      .jump hskip hafter (hreturns (by rw [hr]; rfl) M'
        (hM'.of_branch (StmtsPlaced.grown yes hy)))
    have hno := StmtsPlaced.coded no hn hL.branch fun hr M' hM' =>
      hreturns (by rw [hr, Bool.and_false]) M' (hM'.of_branch (StmtsPlaced.grown no hn))
    have hbranch := CodeTyped.jumpIf (e := condition) hjump hother hyes hno
    exact ExprPlaced.coded condition hc hL (.ofValue (.computes hnot .not trivial hbranch) nofun)
  | .print _ value, .print hv he hop, hL, next =>
    ExprPlaced.coded value he hL (.ofValue (.print hop (next rfl M hL)) hv)
  | .block (.mk body _), .block hb, hL, next =>
    StmtsPlaced.coded body hb hL fun hr => next (by rwa [Stmt.alwaysReturns, Block.alwaysReturns])
termination_by structural s => s

theorem StmtsPlaced.coded {u : CodeUnit} {c : CallableDecl} {L L' : Layout} {M : Nat → Prop}
    {pc pc' : Nat} : (body : List Stmt) → StmtsPlaced p types code u c L pc body L' pc' →
    L.Stored p c M →
    (anyAlwaysReturns body = false → ∀ M', L'.Stored p c M' → CodeTyped p types u c pc' M' []) →
    CodeTyped p types u c pc M []
  | [], .nil, hL, next => next rfl M hL
  | s :: rest, .cons hs hr, hL, next =>
    StmtPlaced.coded s hs hL fun hno M' hM' => StmtsPlaced.coded rest hr hM' fun hno' =>
      next (by rw [anyAlwaysReturns, hno, hno']; rfl)
termination_by structural body => body
end

/-! ## 4. Units -/

theorem slotScope_has {c : CallableDecl} {M : Nat → Prop} :
    ∀ x ∈ slotScope c.params, x.2.1.Has c M x.2.2 := by
  intro x hx
  obtain ⟨⟨q, i⟩, hq, rfl⟩ := List.mem_map.mp (List.mem_reverse.mp hx)
  exact ⟨q, List.mem_zipIdx_iff_getElem?.mp hq, rfl⟩

/-- A unit can be run from its first instruction on, before any slot is stored. -/
structure Enterable (p : Program) (types : TypeTable) (u : CodeUnit) (c : CallableDecl) : Prop where
  arity : u.arity = c.params.length
  locals : u.locals = c.slots.length
  code : CodeTyped p types u c 0 (fun _ => False) []

/-- It takes a value for each parameter of its callable. -/
theorem Enterable.takes {α : Type} {R : α → Ty → Prop} {u : CodeUnit} {c : CallableDecl}
    {args : List α} (h : Enterable p types u c)
    (ha : List.Forall₂ R args (paramTypes c.params)) : u.arity = args.length := by
  rw [h.arity, ha.length_eq, paramTypes, List.length_map]

/-- **The unit of a callable can be run.** -/
theorem CallablePlaced.coded {id : UnitId} {c : CallableDecl} {globals : GlobalNames}
    (h : CallablePlaced p types code id c globals) :
    ∃ u, code.unit? id = some u ∧ Enterable p types u c := by
  cases h with
  | mk hu _ ha hl hg _ hb ht he =>
    refine ⟨_, hu, ha, hl, StmtsPlaced.coded c.body hb ⟨fun scope hs => ?_, hg⟩ fun hr M' _ => ?_⟩
    · unfold CallableDecl.layout at hs
      split at hs
      · cases hs
      · rw [List.mem_singleton.mp hs]
        exact slotScope_has
    · -- a body that may come to its end belongs to a callable without a result
      have hvoid := he.resolve_right (by rw [hr]; exact Bool.false_ne_true)
      rw [terminatorOf, hvoid] at ht
      exact .retVoid ht hvoid

theorem ProgramPlaced.coded (hp : ProgramPlaced p types code) {id : UnitId} {c : CallableDecl}
    (h : p.callables[id]? = some c) : ∃ u, code.unit? id = some u ∧ Enterable p types u c :=
  have ⟨_, hc⟩ := hp.callables id c h
  hc.coded

/-- What the unit that a run starts with stands for. -/
def entryCallable : CallableDecl := ⟨"<entry>", [], .void, [], false⟩

/-- A call that takes nothing and leaves nothing. -/
theorem CodeTyped.callNothing {u : CodeUnit} {c callee : CallableDecl} {pc : Nat}
    {M : Nat → Prop} {S : List Operand} {id : UnitId}
    (hop : u.ops[pc]? = some (.call id 0 false)) (hc : p.callables[id]? = some callee)
    (hparams : callee.params = []) (hr : callee.returns = .void)
    (next : CodeTyped p types u c (pc + 1) M S) : CodeTyped p types u c pc M S := by
  have hlen : ([] : List Expr).length = (paramTypes callee.params).length := by rw [hparams]; rfl
  exact .call hop hc hlen (.inl ⟨hr, rfl⟩) next

/-- **The unit that a run starts with can be run.** -/
theorem ProgramPlaced.entry_coded (hp : ProgramPlaced p types code) :
    ∃ u, code.unit? code.entry = some u ∧ Enterable p types u entryCallable := by
  obtain ⟨u, hu, ha, hl, hops⟩ := hp.entry
  refine ⟨u, hu, ha, hl, ?_⟩
  exact .callNothing (by rw [hops]; rfl) Program.callable_globals rfl rfl
    (.callNothing (by rw [hops]; rfl) Program.callable_main rfl rfl
      (.retVoid (by rw [hops]; rfl) rfl))

end Stackling
