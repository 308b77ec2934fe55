import Stackling.Typing.Scope

/-
  File:     Stackling/Proofs/Typing/ScopeStack.lean
  Subject:  The table of scopes as a stack of lists of symbols.

  The table keeps its scopes as records with a level and the place of the scope around. As long
  as scopes are only entered, left and declared in, the current scope is the last record and
  the records form a stack.

  * `ScopeTable.Shows` -- the table shows a stack of scopes, the innermost first;
  * `Shows.enter`, `Shows.leave`, `Shows.declare`, `Shows.lookup` -- the operations on the
    table are a push, a pop, a new symbol on top, and a search from the top down.
-/
namespace Stackling

/-- The records of scopes with the given symbols, the innermost first. -/
def scopeRecords : List (List Symbol) → List Scope
  | [] => []
  | symbols :: rest =>
    ⟨symbols, if rest.isEmpty then none else some (rest.length - 1), rest.length⟩
      :: scopeRecords rest

@[simp] theorem length_scopeRecords (stack : List (List Symbol)) :
    (scopeRecords stack).length = stack.length := by
  induction stack with
  | nil => rfl
  | cons symbols rest ih => simp [scopeRecords, ih]

theorem scopeRecords_append (stack lower : List (List Symbol)) :
    ∃ upper, scopeRecords (stack ++ lower) = upper ++ scopeRecords lower := by
  induction stack with
  | nil => exact ⟨[], rfl⟩
  | cons symbols rest ih =>
    obtain ⟨upper, h⟩ := ih
    exact ⟨_ :: upper, by rw [List.cons_append, scopeRecords, h, List.cons_append]⟩

theorem modify_last {α : Type} (l : List α) (x : α) (f : α → α) :
    (l ++ [x]).modify l.length f = l ++ [f x] := by
  induction l with
  | nil => rfl
  | cons y l ih => simp [ih]

namespace ScopeTable

/-- The open scopes of the table are those of the stack, and the innermost is the current one. -/
structure Shows (t : ScopeTable) (stack : List (List Symbol)) : Prop where
  records : t.scopes.toList = (scopeRecords stack).reverse
  current : t.current + 1 = stack.length

variable {t : ScopeTable} {symbols : List Symbol} {rest : List (List Symbol)}

namespace Shows

theorem size {stack : List (List Symbol)} (h : t.Shows stack) : t.scopes.size = stack.length := by
  rw [← Array.length_toList, h.records, List.length_reverse, length_scopeRecords]

/-- The record of a scope stands at the height of the scope. -/
theorem record {stack : List (List Symbol)} (h : t.Shows stack) (upper : List (List Symbol))
    (hs : stack = upper ++ symbols :: rest) :
    t.scopes[rest.length]? =
      some ⟨symbols, if rest.isEmpty then none else some (rest.length - 1), rest.length⟩ := by
  obtain ⟨above, ha⟩ := scopeRecords_append upper (symbols :: rest)
  rw [← Array.getElem?_toList, h.records, hs, ha, scopeRecords, List.reverse_append,
    List.reverse_cons, List.append_assoc, List.getElem?_append_right (by simp)]
  simp

theorem here (h : t.Shows (symbols :: rest)) :
    t.here = ⟨symbols, if rest.isEmpty then none else some (rest.length - 1), rest.length⟩ := by
  have hc : t.current = rest.length := by
    have := h.current
    simp at this
    omega
  have hr := h.record [] rfl
  unfold ScopeTable.here
  rw [hc, Array.getD_eq_getD_getElem?, hr]
  rfl

/-- The level of the current scope is the number of scopes around it. -/
theorem level (h : t.Shows (symbols :: rest)) : t.level = rest.length := by
  unfold ScopeTable.level
  rw [h.here]

/-- **Entering a scope pushes an empty one.** -/
theorem enter (h : t.Shows (symbols :: rest)) : t.enter.Shows ([] :: symbols :: rest) where
  records := by
    have hc := h.current
    simp only [List.length_cons] at hc
    have hc' : t.current = rest.length := by omega
    simp only [ScopeTable.enter, Array.toList_push, h.records, h.level, hc', scopeRecords,
      List.reverse_cons]
    simp
  current := by
    show t.scopes.size + 1 = _
    rw [h.size]
    rfl

/-- **Leaving a scope that is not the global one pops it.** -/
theorem leave (h : t.Shows (symbols :: rest)) (hr : rest ≠ []) :
    ∃ t', t.leave? = .ok t' ∧ t'.Shows rest := by
  have he : rest.isEmpty = false := by simpa using hr
  have hc : t.current = rest.length := by
    have := h.current
    simp at this
    omega
  refine ⟨⟨t.scopes.take t.current, rest.length - 1⟩, ?_, ?_, ?_⟩
  · unfold ScopeTable.leave?
    rw [h.here, he]
    rfl
  · simp only [Array.take_eq_extract, Array.toList_extract, List.extract_eq_take_drop,
      List.drop_zero, Nat.sub_zero, h.records, hc, scopeRecords, List.reverse_cons]
    rw [List.take_append_of_le_length (by simp), List.take_of_length_le (by simp)]
  · have : 0 < rest.length := List.length_pos_iff.mpr hr
    show rest.length - 1 + 1 = rest.length
    omega

/-- **A name is declared in the innermost scope, if that lacks it.** -/
theorem declare (h : t.Shows (symbols :: rest)) (name : String) (ty : Ty)
    (constant function : Bool) (hn : symbols.find? (fun s => s.name == name) = none) :
    ∃ t', t.declare? name ty constant function = some t' ∧
      t'.Shows ((⟨name, ty, constant, function, rest.length⟩ :: symbols) :: rest) := by
  have hc : t.current = rest.length := by
    have := h.current
    simp at this
    omega
  have hh : t.hasHere name = false := by
    simp [ScopeTable.hasHere, h.here, Scope.has, Scope.find?, hn]
  let added : Symbol := ⟨name, ty, constant, function, rest.length⟩
  refine ⟨{ t with scopes := t.scopes.modify t.current fun s =>
    { s with symbols := added :: s.symbols } }, ?_, ?_, h.current⟩
  · rw [ScopeTable.declare?, hh, h.level]
    rfl
  · have hlen : (scopeRecords rest).reverse.length = rest.length := by simp
    simp only [Array.toList_modify, h.records, hc, scopeRecords, List.reverse_cons]
    rw [← hlen, modify_last]
    simp [added]

/-- A name that the innermost scope has is not declared again. -/
theorem declare_none (h : t.Shows (symbols :: rest)) {name : String} (ty : Ty)
    (constant function : Bool) {s : Symbol}
    (hn : symbols.find? (fun s => s.name == name) = some s) :
    t.declare? name ty constant function = none := by
  have hh : t.hasHere name = true := by
    simp [ScopeTable.hasHere, h.here, Scope.has, Scope.find?, hn]
  rw [ScopeTable.declare?, hh]
  rfl

/-- What is declared is on top of the innermost scope. -/
theorem of_declare (h : t.Shows (symbols :: rest)) {name : String} {ty : Ty}
    {constant function : Bool} {level : Nat} {t' : ScopeTable} (hl : rest.length = level)
    (hd : t.declare? name ty constant function = some t') :
    t'.Shows ((⟨name, ty, constant, function, level⟩ :: symbols) :: rest) := by
  subst hl
  cases hn : symbols.find? (fun s => s.name == name) with
  | none =>
    obtain ⟨t₁, h₁, hs⟩ := h.declare name ty constant function hn
    cases hd.symm.trans h₁
    exact hs
  | some s => cases hd.symm.trans (h.declare_none ty constant function hn)

/-- The innermost scope is left. -/
theorem of_leave (h : t.Shows (symbols :: rest)) (hr : rest ≠ []) {t' : ScopeTable}
    (hl : t.leave? = .ok t') : t'.Shows rest := by
  obtain ⟨t₁, h₁, hs⟩ := h.leave hr
  cases hl.symm.trans h₁
  exact hs

theorem lookupFrom {stack : List (List Symbol)} (h : t.Shows stack) (name : String)
    (symbols : List Symbol) (lower : List (List Symbol)) :
    ∀ (upper : List (List Symbol)) (fuel : Nat), stack = upper ++ symbols :: lower →
      lower.length < fuel → t.lookupFrom name fuel lower.length =
        (symbols :: lower).findSome? fun scope => scope.find? fun s => s.name == name := by
  induction lower generalizing symbols with
  | nil =>
    intro upper fuel hs hf
    obtain ⟨fuel, rfl⟩ : ∃ k, fuel = k + 1 := ⟨fuel - 1, by simp at hf; omega⟩
    simp only [ScopeTable.lookupFrom, h.record upper hs, Scope.find?, List.findSome?_cons,
      List.findSome?_nil]
    cases symbols.find? fun s => s.name == name <;> rfl
  | cons next lower ih =>
    intro upper fuel hs hf
    obtain ⟨fuel, rfl⟩ : ∃ k, fuel = k + 1 := ⟨fuel - 1, by simp at hf; omega⟩
    have hs' : stack = (upper ++ [symbols]) ++ next :: lower := by simp [hs]
    have ih := ih next (upper ++ [symbols]) fuel hs' (by simp at hf; omega)
    simp only [ScopeTable.lookupFrom, h.record upper hs, Scope.find?]
    rw [List.findSome?_cons]
    cases symbols.find? fun s => s.name == name with
    | some s => rfl
    | none => simpa using ih

/-- **A name is searched from the innermost scope out.** -/
theorem lookup (h : t.Shows (symbols :: rest)) (name : String) :
    t.lookup? name =
      (symbols :: rest).findSome? fun scope => scope.find? fun s => s.name == name := by
  have hc : t.current = rest.length := by
    have := h.current
    simp at this
    omega
  unfold ScopeTable.lookup?
  rw [hc]
  exact h.lookupFrom name symbols rest [] _ rfl (by rw [h.size]; simp)

end Shows

/-- The symbols of the built-ins, the latest first. -/
def builtinSymbols : List Symbol :=
  (Builtin.all.map fun b => (⟨b.name, b.signature, false, true, 0⟩ : Symbol)).reverse

/-- **At first there is the global scope with the built-ins.** -/
theorem shows_initial : initial.Shows [builtinSymbols] := by
  have step : ∀ (bs : List Builtin) (t : ScopeTable) (symbols : List Symbol),
      t.Shows [symbols] → (bs.map Builtin.name ++ symbols.map Symbol.name).Nodup →
      (bs.foldl (fun t b => (t.declare? b.name b.signature false true).getD t) t).Shows
        [(bs.map fun b => (⟨b.name, b.signature, false, true, 0⟩ : Symbol)).reverse ++ symbols]
      := by
    intro bs
    induction bs with
    | nil => intro t symbols h _; simpa using h
    | cons b bs ih =>
      intro t symbols h hn
      simp only [List.map_cons, List.cons_append, List.nodup_cons] at hn
      have hb : symbols.find? (fun s => s.name == b.name) = none := by
        rw [List.find?_eq_none]
        intro s hs he
        exact hn.1 (List.mem_append_right _ (List.mem_map.mpr ⟨s, hs, by simpa using he⟩))
      obtain ⟨t', ht, hs⟩ := h.declare b.name b.signature false true hb
      rw [List.foldl_cons, ht, Option.getD_some]
      have hn' : (bs.map Builtin.name ++
          ((⟨b.name, b.signature, false, true, 0⟩ : Symbol) :: symbols).map Symbol.name).Nodup := by
        rw [List.map_cons, List.perm_middle.nodup_iff]
        exact List.nodup_cons.mpr hn
      simpa using ih t' _ hs hn'
  have hb : bare.Shows [[]] := ⟨rfl, rfl⟩
  simpa [initial, builtinSymbols] using step Builtin.all bare [] hb (by decide)

end ScopeTable

end Stackling
