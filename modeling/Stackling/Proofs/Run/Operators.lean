import Stackling.Code.Lowering
import Stackling.Proofs.Run.Shapes

/-
  File:     Stackling/Proofs/Run/Operators.lean
  Subject:  Instructions that only look at their operands.

  The machine and the evaluator give the same result, or end with the same fault, and the
  result has the static type.

  * `Op.Gives`          -- an instruction turns the operands on top into a result;
  * `BinaryOp.gives`    -- operators;
  * `gives_indexArray`, `gives_indexHash`, `gives_callBuiltin`, … -- the other instructions.
-/
namespace Stackling

/-! ## 1. Operands as a list -/

@[simp] theorem Pile.push_ofList {α : Type} (a : α) (as : List α) :
    (Pile.ofList as).push a = .ofList (a :: as) := rfl

/-- Items that were pushed one after the other are popped in that order. -/
theorem Pile.popMany?_ofList {α : Type} (as rest : List α) :
    (Pile.ofList (as.reverse ++ rest)).popMany? as.length = some (as, .ofList rest) := by
  have hlt : ¬ (Pile.ofList (as.reverse ++ rest)).size < as.length := by
    show ¬ (as.reverse ++ rest).length < as.length
    simp
  rw [popMany?, if_neg hlt]
  refine congrArg some (Prod.ext ?_ (eq_of_items ?_))
  · show ((as.reverse ++ rest).take as.length).reverse = as
    rw [List.take_left' (by simp), List.reverse_reverse]
  · show (as.reverse ++ rest).drop as.length = rest
    rw [List.drop_left' (by simp)]

/-- Cutting to the height of the lower items leaves these. -/
theorem Pile.cutTo_ofList {α : Type} (as rest : List α) :
    (Pile.ofList (as ++ rest)).cutTo rest.length = .ofList rest := by
  refine eq_of_items ?_
  show (as ++ rest).drop ((as ++ rest).length - rest.length) = rest
  rw [List.drop_left' (by simp)]

/-- The instruction pops `popped`, the top first, and pushes the result or faults. -/
def Op.Gives (code : Bytecode) (op : Op) (popped : List Value) (r : Except Fault Value) : Prop :=
  ∀ limit u vs frames globals sink,
    exec code limit u ⟨.ofList (popped ++ vs), frames, globals, sink⟩ op =
      r.map fun v => ⟨.ofList (v :: vs), frames, globals, sink⟩

section

variable (u : CodeUnit) (vs : List Value) (frames : Pile Frame) (globals : Array (Option Value))
  (sink : Sink)

theorem State.popInt_ofList (n : Int64) :
    (⟨.ofList (.int n :: vs), frames, globals, sink⟩ : State).popInt u =
      .ok (n, ⟨.ofList vs, frames, globals, sink⟩) := rfl

theorem State.popArray_ofList (items : List Value) :
    (⟨.ofList (.array items :: vs), frames, globals, sink⟩ : State).popArray u =
      .ok (items, ⟨.ofList vs, frames, globals, sink⟩) := rfl

theorem State.popHash_ofList (entries : List (HashKey × Value)) :
    (⟨.ofList (.hash entries :: vs), frames, globals, sink⟩ : State).popHash u =
      .ok (entries, ⟨.ofList vs, frames, globals, sink⟩) := rfl

theorem State.popKey_ofList (key : HashKey) :
    (⟨.ofList (key.value :: vs), frames, globals, sink⟩ : State).popKey u =
      .ok (key, ⟨.ofList vs, frames, globals, sink⟩) := by
  cases key <;> rfl

end

variable {p : Program} {code : Bytecode} {a b : Value}

/-! ## 2. Comparisons -/

/-- How two values of a sort that has an order compare. -/
structure Compared (a b : Value) (o : Ordering) : Prop where
  equal : a.equal b = (o == .eq)
  less : a.less? b = some (o == .lt)
  greater : b.less? a = some (o == .gt)

/-- Values that are equal and in order just as what they hold compare as it does. -/
theorem Compared.of_order {α : Type} [LT α] [LE α] [DecidableEq α] [DecidableLT α] [DecidableLE α]
    [Std.IsLinearOrder α] [Std.LawfulOrderLT α] {x y : α} (he : a.equal b = decide (x = y))
    (hl : a.less? b = some (decide (x < y))) (hg : b.less? a = some (decide (y < x))) :
    Compared a b (compareOfLessAndEq x y) where
  equal := by
    rw [he, Bool.eq_iff_iff, decide_eq_true_iff, beq_iff_eq,
      compareOfLessAndEq_eq_eq Std.le_refl Std.not_le]
  less := by
    rw [hl]
    refine congrArg some ?_
    rw [Bool.eq_iff_iff, decide_eq_true_iff, beq_iff_eq, compareOfLessAndEq_eq_lt]
  greater := by
    rw [hg]
    refine congrArg some ?_
    rw [Bool.eq_iff_iff, decide_eq_true_iff, beq_iff_eq,
      compareOfLessAndEq_eq_gt Std.le_antisymm (fun _ _ => Std.le_total) Std.not_le]

theorem compared_int (m n : Int64) : Compared (.int m) (.int n) (compareOfLessAndEq m n) :=
  .of_order rfl rfl rfl

theorem compared_char (c d : Char) : Compared (.char c) (.char d) (compareOfLessAndEq c d) :=
  .of_order rfl rfl rfl

theorem compared_text (s t : String) : Compared (.text s) (.text t) (compareOfLessAndEq s t) :=
  .of_order rfl rfl rfl

/-- An operator that compares tells how its operands compare. -/
theorem Compared.eval {o : Ordering} (h : Compared a b o) {op : BinaryOp} {c : Comparison}
    (hc : op.comparison? = some c) : op.eval a b = pure (.ofBool (c.holds o)) := by
  obtain ⟨he, hl, hg⟩ := h
  cases op <;> cases hc
  · show pure (Value.ofBool (a.equal b)) = _
    rw [he]
    rfl
  · show pure (Value.ofBool !(a.equal b)) = _
    rw [he]
    rfl
  · show (do return Value.ofBool (← Eval.get? (a.less? b))) = _
    rw [hl]
    rfl
  · show (do return Value.ofBool !(← Eval.get? (b.less? a))) = _
    rw [hg]
    rfl
  · show (do return Value.ofBool (← Eval.get? (b.less? a))) = _
    rw [hg]
    rfl
  · show (do return Value.ofBool !(← Eval.get? (a.less? b))) = _
    rw [hl]
    rfl

/-- A comparison gives a truth value. -/
theorem gives_compare {c : Comparison} {kind : OperandKind} {r : Bool}
    (h : compareValues c kind a b = .ok r) :
    (Op.compare c kind).Gives code [b, a] (.ok (.ofBool r)) := by
  intro limit u vs frames globals sink
  show (do
    let r ← compareValues c kind a b
    return (⟨.ofList (.ofBool r :: vs), frames, globals, sink⟩ : State)) = _
  rw [h]
  rfl

/-- Values of a type that has an order are compared alike by the machine and the evaluator. -/
theorem gives_order {op : BinaryOp} {c : Comparison} {ty : Ty} (hc : op.comparison? = some c)
    (ht : ty.isOrdered = true) (ha : a.Of p ty) (hb : b.Of p ty) :
    ∃ kind r, c.operandKind? ty = some kind ∧
      (Op.compare c kind).Gives code [b, a] (.ok (.ofBool r)) ∧
      op.eval a b = pure (.ofBool r) := by
  cases ha with
  | int =>
    obtain ⟨n, rfl⟩ := hb.int_inv
    exact ⟨.int, _, rfl, gives_compare rfl, (compared_int _ n).eval hc⟩
  | bool =>
    cases hb with
    | bool => exact ⟨.int, _, rfl, gives_compare rfl, (compared_int _ _).eval hc⟩
  | char =>
    cases hb with
    | char => exact ⟨.char, _, rfl, gives_compare rfl, (compared_char _ _).eval hc⟩
  | text =>
    cases hb with
    | text => exact ⟨.str, _, rfl, gives_compare rfl, (compared_text _ _).eval hc⟩
  | _ => cases ht

/-! ## 3. Operators -/

/-- **An operator on operands of its types** does in the machine what it means, and its result
    has its type. -/
theorem BinaryOp.Typed.gives {op : BinaryOp} {l r ty : Ty} {o : Op} (h : op.Typed l r ty)
    (ho : op.op? l = some o) (ha : a.Of p l) (hb : b.Of p r) :
    ∃ res, o.Gives code [b, a] res ∧ op.eval a b = Eval.lift res ∧ Yields p res ty := by
  have ordered : ∀ {op : BinaryOp} {c : Comparison} {ty : Ty}, op.comparison? = some c →
      op.op? ty = some o → ty.isOrdered = true → a.Of p ty → b.Of p ty →
      ∃ res, o.Gives code [b, a] res ∧ op.eval a b = Eval.lift res ∧ Yields p res .bool := by
    intro op c ty hc ho ht ha hb
    obtain ⟨kind, res, hk, hg, he⟩ := @gives_order _ code _ _ _ _ _ hc ht ha hb
    unfold BinaryOp.op? at ho
    rw [hc] at ho
    simp only [hk, Option.map_some, Option.some.injEq] at ho
    subst ho
    exact ⟨_, hg, he, .ofBool _⟩
  cases h with
  | addInt =>
    cases ho
    obtain ⟨m, rfl⟩ := ha.int_inv
    obtain ⟨n, rfl⟩ := hb.int_inv
    exact ⟨.ok (.int (m + n)), fun _ _ _ _ _ _ => rfl, rfl, .int⟩
  | addText =>
    cases ho
    cases ha with
    | text =>
      cases hb with
      | text => exact ⟨.ok (.text (_ ++ _)), fun _ _ _ _ _ _ => rfl, rfl, .text⟩
  | sub =>
    cases ho
    obtain ⟨m, rfl⟩ := ha.int_inv
    obtain ⟨n, rfl⟩ := hb.int_inv
    exact ⟨.ok (.int (m - n)), fun _ _ _ _ _ _ => rfl, rfl, .int⟩
  | mul =>
    cases ho
    obtain ⟨m, rfl⟩ := ha.int_inv
    obtain ⟨n, rfl⟩ := hb.int_inv
    exact ⟨.ok (.int (m * n)), fun _ _ _ _ _ _ => rfl, rfl, .int⟩
  | div =>
    cases ho
    obtain ⟨m, rfl⟩ := ha.int_inv
    obtain ⟨n, rfl⟩ := hb.int_inv
    by_cases hn : n = 0
    · subst hn
      exact ⟨.error .divisionByZero, fun _ _ _ _ _ _ => rfl, rfl, rfl⟩
    · refine ⟨.ok (.int (m / n)), fun _ _ vs frames globals sink => ?_, ?_, .int⟩
      · show (if n = 0 then throw Fault.divisionByZero
          else return (⟨.ofList (.int (m / n) :: vs), frames, globals, sink⟩ : State)) = _
        rw [if_neg hn]
        rfl
      · show (if n = 0 then Eval.fault .divisionByZero else pure (Value.int (m / n))) = _
        rw [if_neg hn]
        rfl
  | equality hop hv =>
    by_cases ht : l.isOrdered = true
    · rcases hop with rfl | rfl
      · exact ordered rfl ho ht ha hb
      · exact ordered rfl ho ht ha hb
    · have hk : l.isOrdered = false := by simpa using ht
      rcases hop with rfl | rfl
      · have ho' : o = .compare .equal .structural := by
          cases l <;> first | exact absurd rfl hv | cases hk; done | exact (Option.some.inj ho).symm
        subst ho'
        exact ⟨_, gives_compare rfl, rfl, .ofBool (a.equal b)⟩
      · have ho' : o = .compare .notEqual .structural := by
          cases l <;> first | exact absurd rfl hv | cases hk; done | exact (Option.some.inj ho).symm
        subst ho'
        exact ⟨_, gives_compare rfl, rfl, .ofBool !(a.equal b)⟩
  | order hop hv =>
    rcases hop with rfl | rfl | rfl | rfl
    · exact ordered rfl ho hv ha hb
    · exact ordered rfl ho hv ha hb
    · exact ordered rfl ho hv ha hb
    · exact ordered rfl ho hv ha hb

/-! ## 4. Other instructions -/

/-- **An index into an array** finds an item or is out of range. -/
theorem gives_indexArray {element : Ty} (ha : a.Of p (.array element)) (hb : b.Of p .int) :
    ∃ res, Op.indexArray.Gives code [b, a] res ∧ evalIndex a b = Eval.lift res ∧
      Yields p res element := by
  obtain ⟨items, rfl, hi⟩ := ha.array_inv
  obtain ⟨index, rfl⟩ := hb.int_inv
  cases h : itemAt? items index with
  | some v =>
    refine ⟨.ok v, fun _ _ _ _ _ _ => ?_, ?_, hi v (mem_of_itemAt? h)⟩
    · simp only [exec, List.cons_append, State.popInt_ofList, State.popArray_ofList, bind,
        Except.bind, h]
      rfl
    · rw [evalIndex, h]
      rfl
  | none =>
    refine ⟨.error (.indexOutOfRange index items.length), fun _ _ _ _ _ _ => ?_, ?_, rfl⟩
    · simp only [exec, List.cons_append, State.popInt_ofList, State.popArray_ofList, bind,
        Except.bind, h]
      rfl
    · rw [evalIndex, h]
      rfl

/-- **A key of a hash** has a value or is not found. -/
theorem gives_indexHash {key value : Ty} (hk : key = .int ∨ key = .string)
    (ha : a.Of p (.hash key value)) (hb : b.Of p key) :
    ∃ res, Op.indexHash.Gives code [b, a] res ∧ evalIndex a b = Eval.lift res ∧
      Yields p res value := by
  obtain ⟨entries, rfl, -, hv⟩ := ha.hash_inv
  obtain ⟨k, -, rfl⟩ := hb.key_inv hk
  cases h : valueAt? k entries with
  | some v =>
    refine ⟨.ok v, fun _ _ _ _ _ _ => ?_, ?_, hv _ (mem_of_valueAt? h)⟩
    · simp only [exec, List.cons_append, State.popKey_ofList, State.popHash_ofList, bind,
        Except.bind, h]
      rfl
    · rw [evalIndex, HashKey.key?_value, Eval.get?, pure_bind, h]
      rfl
  | none =>
    refine ⟨.error (.keyNotFound k.show), fun _ _ _ _ _ _ => ?_, ?_, rfl⟩
    · simp only [exec, List.cons_append, State.popKey_ofList, State.popHash_ofList, bind,
        Except.bind, h]
      rfl
    · rw [evalIndex, HashKey.key?_value, Eval.get?, pure_bind, h]
      rfl

/-- An item is stored at the first place that lacks one. -/
theorem gives_setElement (v : Value) (done : List Value) (missing : Nat) :
    (Op.setElement done.length).Gives code
      [v, .array (done ++ List.replicate (missing + 1) .void)]
      (.ok (.array (done ++ [v] ++ List.replicate missing .void))) := by
  intro limit u vs frames globals sink
  have hlt : done.length < (done ++ List.replicate (missing + 1) Value.void).length := by simp
  have hset : (done ++ List.replicate (missing + 1) Value.void).set done.length v =
      done ++ [v] ++ List.replicate missing .void := by
    rw [List.set_append_right _ _ (Nat.le_refl _), Nat.sub_self, List.replicate_succ]
    simp
  show (if done.length < (done ++ List.replicate (missing + 1) Value.void).length then
      return (⟨.ofList (.array ((done ++ List.replicate (missing + 1) Value.void).set done.length v)
        :: vs), frames, globals, sink⟩ : State)
    else throw _) = _
  rw [if_pos hlt, hset]
  rfl

theorem gives_insertEntry (k : HashKey) (v : Value) (entries : List (HashKey × Value)) :
    Op.insertEntry.Gives code [v, k.value, .hash entries]
      (.ok (.hash (insertEntry k v entries))) := by
  intro limit u vs frames globals sink
  cases k <;> rfl

theorem gives_not (n : Int64) : Op.not.Gives code [.int n] (.ok (.ofBool (n == 0))) :=
  fun _ _ _ _ _ _ => rfl

/-- A built-in takes its arguments off the stack. -/
theorem gives_callBuiltin {b : Builtin} {args : List Value} (h : args.length = b.arity) :
    (Op.callBuiltin b).Gives code args.reverse (b.apply args) := by
  intro limit u vs frames globals sink
  simp only [exec, State.popMany, ← h, Pile.popMany?_ofList]
  show (do
    let v ← b.apply args
    return (⟨.ofList (v :: vs), frames, globals, sink⟩ : State)) = _
  cases b.apply args <;> rfl

/-- So does a built-in that is called as a value. -/
theorem gives_callIndirect (b : Builtin) (args : List Value) (returns : Bool) :
    (Op.callIndirect args.length returns).Gives code
      (args.reverse ++ [.callable (.builtin b)]) (b.apply args) := by
  intro limit u vs frames globals sink
  simp only [exec, State.popMany, List.append_assoc, Pile.popMany?_ofList]
  show (do
    let v ← b.apply args
    return (⟨.ofList (v :: vs), frames, globals, sink⟩ : State)) = _
  cases b.apply args <;> rfl

end Stackling
