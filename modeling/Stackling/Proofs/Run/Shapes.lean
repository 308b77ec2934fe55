import Mathlib.Data.List.Forall2
import Stackling.Proofs.Run.Evaluator

/-
  File:     Stackling/Proofs/Run/Shapes.lean
  Subject:  The shapes of values at run time.

  A value of a static type has one shape: a truth value is the integer 0 or 1, a function is the
  unit of a function or of a literal, or a built-in, of that very type. No value has the type
  `void`.

  * `Value.Of`      -- a value has a type;
  * `Operand`       -- what stands on the operand stack, and for which expression;
  * `Fault.isOwn`   -- the faults that are the program's own doing;
  * `Yields`        -- a result has a type, or the fault is the program's own doing.
-/
namespace Stackling

/-! ## 1. Values -/

/-- A value of a type. -/
inductive Value.Of (p : Program) : Value → Ty → Prop
  | int {n} : Of p (.int n) .int
  | bool {n} (h : n = 0 ∨ n = 1) : Of p (.int n) .bool
  | char {c} : Of p (.char c) .char
  | text {s} : Of p (.text s) .string
  | array {items element} (hi : ∀ v ∈ items, Of p v element) : Of p (.array items) (.array element)
  | hash {entries key value} (hk : ∀ e ∈ entries, Of p e.1.value key)
      (hv : ∀ e ∈ entries, Of p e.2 value) : Of p (.hash entries) (.hash key value)
  | unit {id c} (h : p.Callee id c) : Of p (.callable (.unit id c.name)) c.ty
  | builtin {b} : Of p (.callable (.builtin b)) b.signature

variable {p : Program} {v w : Value} {ty element key value : Ty}

namespace Value.Of

/-- No value has the type `void`. -/
theorem ne_void (h : v.Of p ty) : ty ≠ .void := by
  rintro rfl
  cases h

theorem isVoid (h : v.Of p ty) : ty.isVoid = false := Ty.isVoid_eq_false h.ne_void

/-- `void` is no value of any type. -/
theorem value_ne_void (h : v.Of p ty) : v ≠ .void := by
  rintro rfl
  cases h

theorem ofBool (b : Bool) : (Value.ofBool b).Of p .bool := by
  refine .bool ?_
  cases b
  · exact .inl rfl
  · exact .inr rfl

/-! ### What the values of a type look like -/

theorem int_inv (h : v.Of p .int) : ∃ n, v = .int n := by
  cases h
  exact ⟨_, rfl⟩

theorem bool_inv (h : v.Of p .bool) : ∃ b, v = .ofBool b := by
  cases h with
  | bool h =>
    rcases h with rfl | rfl
    · exact ⟨false, rfl⟩
    · exact ⟨true, rfl⟩

theorem array_inv (h : v.Of p (.array element)) :
    ∃ items, v = .array items ∧ ∀ w ∈ items, w.Of p element := by
  cases h with
  | array hi => exact ⟨_, rfl, hi⟩

theorem hash_inv (h : v.Of p (.hash key value)) : ∃ entries, v = .hash entries ∧
    (∀ e ∈ entries, e.1.value.Of p key) ∧ ∀ e ∈ entries, e.2.Of p value := by
  cases h with
  | hash hk hv => exact ⟨_, rfl, hk, hv⟩

/-- A reference to a unit refers to a function or to a literal. -/
theorem callee {id : UnitId} {name : String} (h : Of p (.callable (.unit id name)) ty) :
    ∃ c, p.Callee id c := by
  cases h with
  | unit h => exact ⟨_, h⟩

/-- A function is a unit of the program that values may refer to, or a built-in. -/
theorem fn_inv {params : List Ty} {returns : Ty} (h : v.Of p (.fn params returns)) :
    (∃ id c, v = .callable (.unit id c.name) ∧ p.Callee id c ∧
      paramTypes c.params = params ∧ c.returns = returns) ∨
    ∃ b : Builtin, v = .callable (.builtin b) ∧ b.params = params ∧ b.returns = returns := by
  generalize ht : Ty.fn params returns = ty at h
  cases h with
  | unit h =>
    cases ht
    exact .inl ⟨_, _, rfl, h, rfl, rfl⟩
  | builtin =>
    cases ht
    exact .inr ⟨_, rfl, rfl, rfl⟩
  | _ => cases ht

/-- The key that a value of the type of keys is. -/
theorem key_inv (h : v.Of p key) (hk : key = .int ∨ key = .string) :
    ∃ k : HashKey, v.key? = some k ∧ k.value = v := by
  rcases hk with rfl | rfl
  · cases h with
    | int => exact ⟨.int _, rfl, rfl⟩
  · cases h with
    | text => exact ⟨.text _, rfl, rfl⟩

end Value.Of

/-! ## 2. Arrays and hashes -/

theorem mem_of_itemAt? {items : List Value} {index : Int64} (h : itemAt? items index = some v) :
    v ∈ items := by
  obtain ⟨i, -, hi⟩ := itemAt?_eq_some_iff.mp h
  exact List.mem_of_getElem? hi

theorem mem_of_valueAt? {k : HashKey} {entries : List (HashKey × Value)}
    (h : valueAt? k entries = some v) : (k, v) ∈ entries := by
  induction entries with
  | nil => cases h
  | cons e rest ih =>
    obtain ⟨k', w⟩ := e
    rw [valueAt?] at h
    split at h
    · rename_i hk
      cases h
      exact hk ▸ List.mem_cons_self
    · exact List.mem_cons_of_mem _ (ih h)

/-- Entries with other keys stay as they are. -/
theorem insertEntry_append {k : HashKey} {before : List (HashKey × Value)}
    (h : k ∉ before.map (·.1)) (v : Value) (entries : List (HashKey × Value)) :
    insertEntry k v (before ++ entries) = before ++ insertEntry k v entries := by
  induction before with
  | nil => rfl
  | cons e before ih =>
    rw [List.map_cons, List.mem_cons, not_or] at h
    rw [List.cons_append, insertEntry, if_neg (Ne.symm h.1), ih h.2]
    rfl

/-- What holds of the old entries and of the new one holds of all entries. -/
theorem forall_insertEntry {P : HashKey × Value → Prop} {k : HashKey}
    {entries : List (HashKey × Value)} (he : ∀ e ∈ entries, P e) (hn : P (k, v)) :
    ∀ e ∈ insertEntry k v entries, P e := by
  induction entries with
  | nil => simpa [insertEntry] using hn
  | cons e rest ih =>
    obtain ⟨k', w⟩ := e
    rw [List.forall_mem_cons] at he
    rw [insertEntry]
    split
    · rename_i hk
      exact List.forall_mem_cons.mpr ⟨hk ▸ hn, he.2⟩
    · exact List.forall_mem_cons.mpr ⟨he.1, ih he.2⟩

theorem Value.Of.insertEntry {k : HashKey} {entries : List (HashKey × Value)}
    (h : (Value.hash entries).Of p (.hash key value)) (hk : k.value.Of p key)
    (hv : v.Of p value) :
    (Value.hash (insertEntry k v entries)).Of p (.hash key value) := by
  cases h with
  | hash hks hvs =>
    exact .hash (forall_insertEntry hks hk) (forall_insertEntry hvs hv)

/-! ## 3. Operands -/

/-- What stands on the operand stack. -/
inductive Operand
  /-- the value of an expression of a type -/
  | value (e : Expr) (ty : Ty)
  /-- an array literal with items at its first `stored` places only -/
  | items (e : Expr) (element : Ty) (stored length : Nat)
  /-- whether a condition does not hold -/
  | negated (e : Expr)

/-- The type of an operand is the one that was filed for its expression. -/
def Operand.Filed (types : TypeTable) : Operand → Prop
  | .value e ty => types.find? e.id = some ty
  | .items e element _ _ => types.find? e.id = some (.array element)
  | .negated _ => True

/-- What an operand is at run time. -/
inductive Operand.Holds (p : Program) (types : TypeTable) : Value → Operand → Prop
  | value {v : Value} {e : Expr} {ty : Ty} (ht : types.find? e.id = some ty) (h : v.Of p ty) :
      Holds p types v (.value e ty)
  | items {e : Expr} {element : Ty} {done : List Value} {missing : Nat}
      (ht : types.find? e.id = some (.array element)) (h : ∀ v ∈ done, v.Of p element) :
      Holds p types (.array (done ++ List.replicate (missing + 1) .void))
        (.items e element done.length (done.length + (missing + 1)))
  | negated {b : Bool} {e : Expr} : Holds p types (.ofBool b) (.negated e)

/-- The operand for an array literal with items at its first `stored` places: with items at all
    of them it is a value. -/
def Operand.array (e : Expr) (element : Ty) (stored length : Nat) : Operand :=
  if stored < length then .items e element stored length else .value e (.array element)

/-- An array with items at its first places is the operand for that many. -/
theorem Operand.Holds.array {types : TypeTable} {e : Expr} {done : List Value} {missing : Nat}
    (ht : types.find? e.id = some (.array element)) (h : ∀ v ∈ done, v.Of p element) :
    Operand.Holds p types (.array (done ++ List.replicate missing .void))
      (.array e element done.length (done.length + missing)) := by
  unfold Operand.array
  cases missing with
  | zero =>
    rw [if_neg (by omega), List.replicate_zero, List.append_nil]
    exact .value ht (.array h)
  | succ missing =>
    rw [if_pos (by omega)]
    exact .items ht h

/-- No operand is `void`. -/
theorem Operand.Holds.ne_void {types : TypeTable} {o : Operand} (h : o.Holds p types v) :
    v ≠ .void := by
  cases h with
  | value _ h => exact h.value_ne_void
  | items => exact nofun
  | negated => exact nofun

/-- The operands that an expression of a type leaves: none if the type is `void`. -/
def Ty.operands (ty : Ty) (e : Expr) : List Operand := if ty.isVoid then [] else [.value e ty]

theorem Ty.operands_of_ne {e : Expr} (h : ty ≠ .void) : ty.operands e = [.value e ty] := by
  rw [operands, Ty.isVoid_eq_false h]
  rfl

/-- The operands after an expression of a type with the given value. -/
def Ty.put (ty : Ty) (v : Value) (operands : List Value) : List Value :=
  if ty.isVoid then operands else v :: operands

theorem Ty.put_of_ne (h : ty ≠ .void) {vs : List Value} : ty.put v vs = v :: vs := by
  rw [put, Ty.isVoid_eq_false h]
  rfl

/-- The result of an expression: a value of its type, or `void` for the call of a `void`
    function. -/
def Value.Has (p : Program) (v : Value) (ty : Ty) : Prop :=
  if ty = .void then v = .void else v.Of p ty

theorem Value.has_void : Value.void.Has p .void := rfl

theorem Value.Of.has (h : v.Of p ty) : v.Has p ty := by
  unfold Value.Has
  rw [if_neg h.ne_void]
  exact h

theorem Value.Has.of (h : v.Has p ty) (ht : ty ≠ .void) : v.Of p ty := by
  unfold Value.Has at h
  rwa [if_neg ht] at h

/-! ## 4. Faults -/

/-- Whether a fault is the program's own doing, and not that of its code. -/
def Fault.isOwn : Fault → Bool
  | divisionByZero | indexOutOfRange _ _ | keyNotFound _ | emptyArray _ | uninitializedGlobal _
  | stackOverflow _ | output _ => true
  | arityMismatch _ _ | missingArgument _ _ | invalidJump _ _ | unresolvedCallable
  | missingReturn _ | stackUnderflow _ | operandMismatch _ _ => false

/-- The result is a value of the type, or the fault is the program's own doing. -/
def Yields (p : Program) (r : Except Fault Value) (ty : Ty) : Prop :=
  match r with
  | .ok v => v.Of p ty
  | .error f => f.isOwn = true

/-- **A built-in on arguments of its types** has a result of its type, or the array is empty. -/
theorem Builtin.Typed.yields {b : Builtin} {types : List Ty} {args : List Value}
    (h : b.Typed types ty) (ha : List.Forall₂ (Value.Of p) args types) :
    args.length = b.arity ∧ Yields p (b.apply args) ty := by
  cases h with
  | lenArray =>
    obtain - | ⟨h₁, - | _⟩ := ha
    obtain ⟨items, rfl, -⟩ := h₁.array_inv
    exact ⟨rfl, .int⟩
  | lenText =>
    obtain - | ⟨h₁, - | _⟩ := ha
    cases h₁ with
    | text => exact ⟨rfl, .int⟩
  | first =>
    obtain - | ⟨h₁, - | _⟩ := ha
    obtain ⟨items, rfl, hi⟩ := h₁.array_inv
    refine ⟨rfl, ?_⟩
    cases items with
    | nil => rfl
    | cons v rest => exact hi v List.mem_cons_self
  | last =>
    obtain - | ⟨h₁, - | _⟩ := ha
    obtain ⟨items, rfl, hi⟩ := h₁.array_inv
    refine ⟨rfl, ?_⟩
    rw [Builtin.apply]
    cases hl : items.getLast? with
    | none => rfl
    | some v => exact hi v (List.mem_of_getLast? hl)
  | rest =>
    obtain - | ⟨h₁, - | _⟩ := ha
    obtain ⟨items, rfl, hi⟩ := h₁.array_inv
    exact ⟨rfl, .array fun v hv => hi v (List.mem_of_mem_tail hv)⟩
  | push =>
    obtain - | ⟨h₁, - | ⟨h₂, - | _⟩⟩ := ha
    obtain ⟨items, rfl, hi⟩ := h₁.array_inv
    refine ⟨rfl, .array fun v hv => ?_⟩
    rcases List.mem_append.mp hv with hv | hv
    · exact hi v hv
    · exact List.mem_singleton.mp hv ▸ h₂

/-- As a value, a built-in takes the arguments of its signature. -/
theorem Builtin.typed_signature (b : Builtin) : b.Typed b.params b.returns := by
  cases b
  · exact .lenArray
  · exact .first
  · exact .last
  · exact .rest
  · exact .push

end Stackling
