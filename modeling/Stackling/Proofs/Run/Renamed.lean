import Stackling.Proofs.Run.Evaluator

/-
  File:     Stackling/Proofs/Run/Renamed.lean
  Subject:  Values under other numbers of the units.

  A function value holds the number of its unit, and its name. Programs never see the number:
  the value is printed by its name, and two such values are compared. So no operation on values
  tells a value from the same value under other numbers, as long as different units keep
  different numbers.

  * `Value.renamed`          -- a value under other numbers;
  * `Value.show_renamed`, `Value.format_renamed` -- it is written alike;
  * `Value.equal_renamed`    -- it is equal to the same values;
  * `Eval.Renamed`           -- an evaluation and the same under other numbers;
  * `BinaryOp.eval_renamed`, `evalIndex_renamed` -- operators and places in collections.
-/
namespace Stackling

variable (π : UnitId → UnitId)

/-! ## 1. Renamed values -/

def Callable.renamed : Callable → Callable
  | .unit id name => .unit (π id) name
  | .builtin b => .builtin b

mutual
/-- The value, with every unit under another number. -/
def Value.renamed : Value → Value
  | .int n => .int n
  | .char c => .char c
  | .text s => .text s
  | .array items => .array (renamedItems items)
  | .hash entries => .hash (renamedEntries entries)
  | .callable target => .callable (target.renamed π)
  | .void => .void

def renamedItems : List Value → List Value
  | [] => []
  | v :: rest => v.renamed :: renamedItems rest

def renamedEntries : List (HashKey × Value) → List (HashKey × Value)
  | [] => []
  | (k, v) :: rest => (k, v.renamed) :: renamedEntries rest
end

theorem renamedItems_eq (items : List Value) :
    renamedItems π items = items.map (Value.renamed π) := by
  induction items with
  | nil => rfl
  | cons v rest ih => rw [renamedItems, ih, List.map_cons]

theorem renamedItems_length (items : List Value) :
    (renamedItems π items).length = items.length := by
  rw [renamedItems_eq, List.length_map]

theorem renamedEntries_length (entries : List (HashKey × Value)) :
    (renamedEntries π entries).length = entries.length := by
  induction entries with
  | nil => rfl
  | cons e rest ih => rw [renamedEntries, List.length_cons, ih, List.length_cons]

/-! ## 2. What is seen of a value -/

theorem Callable.show_renamed (c : Callable) : (c.renamed π).show = c.show := by
  cases c <;> rfl

theorem Value.key?_renamed (v : Value) : (v.renamed π).key? = v.key? := by
  cases v <;> rfl

theorem Value.truth?_renamed (v : Value) : (v.renamed π).truth? = v.truth? := by
  cases v <;> rfl

theorem Value.less?_renamed (a b : Value) : (a.renamed π).less? (b.renamed π) = a.less? b := by
  cases a <;> cases b <;> rfl

mutual
/-- A value is shown alike under other numbers. -/
theorem Value.show_renamed : (v : Value) → (v.renamed π).show = v.show
  | .int _ | .char _ | .text _ | .void => rfl
  | .array items => congrArg inBrackets (showItems_renamed items)
  | .hash entries => congrArg inBraces (showEntries_renamed entries)
  | .callable target => target.show_renamed π

theorem showItems_renamed : (items : List Value) →
    showItems (renamedItems π items) = showItems items
  | [] => rfl
  | v :: rest => by rw [renamedItems, showItems, showItems, v.show_renamed, showItems_renamed rest]

theorem showEntries_renamed : (entries : List (HashKey × Value)) →
    showEntries (renamedEntries π entries) = showEntries entries
  | [] => rfl
  | (k, v) :: rest => by
    rw [renamedEntries, showEntries, showEntries, v.show_renamed, showEntries_renamed rest]
end

mutual
/-- **A value is printed alike under other numbers.** -/
theorem Value.formatIn_renamed (nested : Bool) : (v : Value) → (ty : Ty) →
    (v.renamed π).formatIn nested ty = v.formatIn nested ty
  | .int _, ty | .char _, ty | .text _, ty | .void, ty => by cases ty <;> rfl
  | .callable target, ty => by cases ty <;> exact target.show_renamed π
  | .array items, ty => by
    cases ty with
    | array element => exact congrArg inBrackets (formatItems_renamed element items)
    | _ => exact (Value.array items).show_renamed π
  | .hash entries, ty => by
    cases ty with
    | hash key value => exact congrArg inBraces (formatEntries_renamed key value entries)
    | _ => exact (Value.hash entries).show_renamed π

theorem formatItems_renamed (element : Ty) : (items : List Value) →
    formatItems element (renamedItems π items) = formatItems element items
  | [] => rfl
  | v :: rest => by
    rw [renamedItems, formatItems, formatItems, v.formatIn_renamed true element,
      formatItems_renamed element rest]

theorem formatEntries_renamed (key value : Ty) : (entries : List (HashKey × Value)) →
    formatEntries key value (renamedEntries π entries) = formatEntries key value entries
  | [] => rfl
  | (k, v) :: rest => by
    rw [renamedEntries, formatEntries, formatEntries, v.formatIn_renamed true value,
      formatEntries_renamed key value rest]
end

theorem Value.format_renamed (v : Value) (ty : Ty) : (v.renamed π).format ty = v.format ty :=
  v.formatIn_renamed π false ty

/-! ## 3. Items and entries -/

theorem itemAt?_renamed (items : List Value) (index : Int64) :
    itemAt? (renamedItems π items) index = (itemAt? items index).map (Value.renamed π) := by
  cases h : itemAt? items index with
  | none =>
    rw [itemAt?_eq_none_iff] at h
    rw [Option.map_none, itemAt?_eq_none_iff, renamedItems_length]
    exact h
  | some v =>
    obtain ⟨i, hi, hv⟩ := itemAt?_eq_some_iff.mp h
    refine itemAt?_eq_some_iff.mpr ⟨i, hi, ?_⟩
    rw [renamedItems_eq, List.getElem?_map, hv]
    rfl

theorem valueAt?_renamed (key : HashKey) (entries : List (HashKey × Value)) :
    valueAt? key (renamedEntries π entries) = (valueAt? key entries).map (Value.renamed π) := by
  induction entries with
  | nil => rfl
  | cons e rest ih =>
    rw [renamedEntries, valueAt?, valueAt?, ih]
    split <;> rfl

theorem insertEntry_renamed (key : HashKey) (v : Value) (entries : List (HashKey × Value)) :
    insertEntry key (v.renamed π) (renamedEntries π entries) =
      renamedEntries π (insertEntry key v entries) := by
  induction entries with
  | nil => rfl
  | cons e rest ih =>
    rw [renamedEntries, insertEntry, insertEntry, ih]
    split <;> rfl

variable {π}

mutual
/-- **A value is equal to the same values** under other numbers, if these are different for
    different units. -/
theorem Value.equal_renamed (hπ : Function.Injective π) : (a b : Value) →
    (a.renamed π).equal (b.renamed π) = a.equal b
  | .int _, b | .char _, b | .text _, b | .void, b => by cases b <;> rfl
  | .array xs, b => by
    cases b with
    | array ys => exact equalAll_renamed hπ xs ys
    | _ => rfl
  | .hash es, b => by
    cases b with
    | hash fs =>
      rw [Value.renamed, Value.renamed, Value.equal, Value.equal, renamedEntries_length,
        renamedEntries_length, matched_renamed hπ es fs]
    | _ => rfl
  | .callable c, b => by
    cases b with
    | callable d =>
      cases c with
      | unit id name =>
        cases d with
        | unit id' name' =>
          have : Callable.unit (π id) name = .unit (π id') name' ↔
              Callable.unit id name = .unit id' name' := by
            rw [Callable.unit.injEq, Callable.unit.injEq, hπ.eq_iff]
          exact decide_eq_decide.mpr this
        | builtin _ => rfl
      | builtin _ => cases d <;> rfl
    | _ => rfl

theorem equalAll_renamed (hπ : Function.Injective π) : (xs ys : List Value) →
    equalAll (renamedItems π xs) (renamedItems π ys) = equalAll xs ys
  | [], [] | [], _ :: _ | _ :: _, [] => rfl
  | x :: xs, y :: ys => by
    rw [renamedItems, renamedItems, equalAll, equalAll, x.equal_renamed hπ y,
      equalAll_renamed hπ xs ys]

theorem matched_renamed (hπ : Function.Injective π) : (es fs : List (HashKey × Value)) →
    matched (renamedEntries π es) (renamedEntries π fs) = matched es fs
  | [], _ => rfl
  | (k, v) :: rest, fs => by
    rw [renamedEntries, matched, matched, valueAt?_renamed, matched_renamed hπ rest fs]
    cases valueAt? k fs with
    | none => rfl
    | some w =>
      rw [Option.map_some]
      exact congrArg (· && matched rest fs) (v.equal_renamed hπ w)
end

variable (π)

/-- A built-in gives the same result under other numbers. -/
theorem Builtin.apply_renamed (b : Builtin) (args : List Value) :
    b.apply (renamedItems π args) = (b.apply args).map (Value.renamed π) := by
  rcases args with _ | ⟨v, _ | ⟨w, _ | ⟨x, rest⟩⟩⟩
  · cases b <;> rfl
  · cases v with
    | array items =>
      cases b with
      | len => simp [Builtin.apply, renamedItems, Value.renamed, renamedItems_eq, Except.map]
      | first =>
        cases items <;> rfl
      | last =>
        simp only [Builtin.apply, renamedItems, Value.renamed, renamedItems_eq, List.getLast?_map]
        cases items.getLast? <;> rfl
      | rest => simp [Builtin.apply, renamedItems, Value.renamed, renamedItems_eq, Except.map]
      | push => rfl
    | _ => cases b <;> rfl
  · cases b with
    | push =>
      cases v with
      | array items =>
        simp [Builtin.apply, renamedItems, Value.renamed, renamedItems_eq, Except.map]
      | _ => rfl
    | _ => cases v <;> rfl
  · cases b <;> simp [Builtin.apply, renamedItems, renamedItems_eq, Except.map]

/-! ## 4. Evaluations under other numbers -/

/-- The global values under other numbers. -/
def World.renamed (w : World) : World :=
  ⟨w.globals.map fun x => (x.1, x.2.renamed π), w.sink⟩

/-- **The same evaluation under other numbers:** where `m` comes to a result, `m'` comes to what
    `f` makes of it, and where `m` stops early, `m'` stops so too. -/
def Eval.Renamed {α β : Type} (f : α → β) (m : Eval α) (m' : Eval β) : Prop :=
  ∀ w, m' (w.renamed π) = (m w).map fun x => (f x.1, x.2.renamed π)

namespace Eval.Renamed

variable {π} {α β γ δ : Type} {f : α → β} {g : γ → δ} {m : Eval α} {m' : Eval β}

theorem pure (x : α) : Renamed π f (Pure.pure x) (Pure.pure (f x)) := fun _ => rfl

theorem fault (e : Fault) : Renamed π f (Eval.fault e) (Eval.fault e) := fun _ => rfl

theorem stuck : Renamed π f Eval.stuck Eval.stuck := fun _ => rfl

theorem bind {k : α → Eval γ} {k' : β → Eval δ} (hm : Renamed π f m m')
    (hk : ∀ x, Renamed π g (k x) (k' (f x))) : Renamed π g (m >>= k) (m' >>= k') := by
  intro w
  show m' (w.renamed π) >>= (fun x => k' x.1 x.2) = _
  rw [hm w]
  show _ = (m w >>= fun x => k x.1 x.2).map _
  cases m w with
  | error e => rfl
  | ok x => exact hk x.1 x.2

theorem get? (f : α → β) (o : Option α) : Renamed π f (Eval.get? o) (Eval.get? (o.map f)) := by
  cases o with
  | none => exact stuck
  | some x => exact pure x

/-- What is read off a value in the same way under other numbers. -/
theorem read {α : Type} {k : α → Eval γ} {k' : α → Eval δ} (o : Option α)
    (hk : ∀ x, Renamed π g (k x) (k' x)) :
    Renamed π g (Eval.get? o >>= k) (Eval.get? o >>= k') := by
  cases o with
  | none => exact stuck
  | some x => exact hk x

theorem lift {r : Except Fault α} : Renamed π f (Eval.lift r) (Eval.lift (r.map f)) := by
  cases r with
  | error e => exact fault e
  | ok x => exact pure x

theorem writeLine (line : String) :
    Renamed π id (Eval.writeLine line) (Eval.writeLine line) := by
  intro w
  unfold Eval.writeLine
  rw [World.renamed]
  cases w.sink.write (line ++ "\n") with
  | mk sink whole => cases whole <;> rfl

end Eval.Renamed

/-- **An operator gives the same result under other numbers.** -/
theorem BinaryOp.eval_renamed (hπ : Function.Injective π) (op : BinaryOp) (a b : Value) :
    Eval.Renamed π (Value.renamed π) (op.eval a b) (op.eval (a.renamed π) (b.renamed π)) := by
  cases op with
  | add | sub | mul => cases a <;> cases b <;> first | exact .pure _ | exact .stuck
  | div =>
    cases a <;> cases b <;> first | exact .stuck | skip
    simp only [Value.renamed, eval]
    split
    · exact .fault _
    · exact .pure _
  | equal | notEqual =>
    simp only [eval, a.equal_renamed hπ b]
    exact .pure _
  | less | lessEqual | greater | greaterEqual =>
    simp only [eval, Value.less?_renamed]
    exact .read _ fun _ => .pure _

/-- **An index finds the same under other numbers.** -/
theorem evalIndex_renamed (a k : Value) :
    Eval.Renamed π (Value.renamed π) (evalIndex a k)
      (evalIndex (a.renamed π) (k.renamed π)) := by
  cases a with
  | array items =>
    cases k with
    | int index =>
      simp only [Value.renamed, evalIndex, itemAt?_renamed, renamedItems_length]
      cases itemAt? items index with
      | none => exact .fault _
      | some v => exact .pure v
    | _ => exact .stuck
  | hash entries =>
    simp only [Value.renamed, evalIndex, Value.key?_renamed]
    refine .read _ fun key => ?_
    rw [valueAt?_renamed]
    cases valueAt? key entries with
    | none => exact .fault _
    | some v => exact .pure v
  | _ => exact .stuck

end Stackling
