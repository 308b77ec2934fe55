import Mathlib.Data.Finmap
import Stackling.Proofs.Typing.ScopeStack

/-
  File:     Stackling/Proofs/Typing/ScopeMaps.lean
  Subject:  The table of scopes answers as a stack of finite maps.

  A caller sees of the table only its answers and the level of the current scope. Both are
  those of a stack of finite maps, one map for each open scope, whatever is called in whatever
  order.

  * `ScopeCall`, `ScopeAnswer`   -- what a table may be asked, and what it says;
  * `ScopeMaps`                  -- the stack of maps, and its answers;
  * `ScopeTable.Nested`          -- the records form a chain that ends in the current scope;
  * `Shows.answer`               -- one call keeps the table and the stack in step;
  * `ScopeTable.answers_as_maps` -- every sequence of calls.
-/
namespace Stackling

/-! ## 1. Calls -/

/-- What a table of scopes may be asked. -/
inductive ScopeCall
  | enter
  | exit
  | declare (name : String) (ty : Ty) (constant function : Bool)
  | lookup (name : String)
  /-- whether the current scope has the name -/
  | has (name : String)

/-- What is answered. -/
inductive ScopeAnswer
  | done
  | refused (violation : ScopeViolation)
  | said (yes : Bool)
  | found (symbol : Option Symbol)
  deriving DecidableEq

/-- The answers to some calls, each with the level after it, and the state after all of them. -/
def answersOf {σ : Type} (answer : σ → ScopeCall → ScopeAnswer × σ) (level : σ → Nat)
    (s : σ) : List ScopeCall → List (ScopeAnswer × Nat) × σ
  | [] => ([], s)
  | c :: rest =>
    let (a, next) := answer s c
    let (as, last) := answersOf answer level next rest
    ((a, level next) :: as, last)

theorem answersOf_append {σ : Type} (answer : σ → ScopeCall → ScopeAnswer × σ)
    (level : σ → Nat) (s : σ) (first second : List ScopeCall) :
    (answersOf answer level s (first ++ second)).2 =
      (answersOf answer level (answersOf answer level s first).2 second).2 := by
  induction first generalizing s with
  | nil => rfl
  | cons c rest ih => exact ih _

/-- The answer of the table to a call, and the table after it. A call that is refused leaves
    the table as it is. -/
def ScopeTable.answer (t : ScopeTable) : ScopeCall → ScopeAnswer × ScopeTable
  | .enter => (.done, t.enter)
  | .exit =>
    match t.leave? with
    | .ok t' => (.done, t')
    | .error violation => (.refused violation, t)
  | .declare name ty constant function =>
    match t.declare? name ty constant function with
    | some t' => (.said true, t')
    | none => (.said false, t)
  | .lookup name => (.found (t.lookup? name), t)
  | .has name => (.said (t.hasHere name), t)

/-- The answers of the table to some calls, and the table after them. -/
abbrev ScopeTable.answers (t : ScopeTable) (calls : List ScopeCall) :
    List (ScopeAnswer × Nat) × ScopeTable :=
  answersOf ScopeTable.answer ScopeTable.level t calls

/-- Calls that leave every scope they enter, and no other. -/
inductive BalancedCalls : List ScopeCall → Prop
  | nil : BalancedCalls []
  | call {c : ScopeCall} {rest : List ScopeCall} (hin : c ≠ .enter) (hout : c ≠ .exit) :
      BalancedCalls rest → BalancedCalls (c :: rest)
  | scope {inner rest : List ScopeCall} :
      BalancedCalls inner → BalancedCalls rest →
      BalancedCalls (.enter :: inner ++ .exit :: rest)

/-! ## 2. Stacks of maps -/

/-- What a map holds for a name. The level of a symbol is not in it: that is the place of the
    map in the stack. -/
structure Meaning where
  ty : Ty
  constant : Bool
  function : Bool

/-- The symbol of a name with a meaning in a map with `level` maps below it. -/
def Meaning.symbol (m : Meaning) (name : String) (level : Nat) : Symbol :=
  ⟨name, m.ty, m.constant, m.function, level⟩

/-- The names of one scope. -/
abbrev ScopeMap := Finmap fun _ : String => Meaning

/-- The map with the built-ins. -/
def ScopeMap.builtins : ScopeMap :=
  Builtin.all.foldl (fun m b => m.insert b.name ⟨b.signature, false, true⟩) ∅

/-- A stack of maps, which is never empty. -/
structure ScopeMaps where
  top : ScopeMap
  /-- the maps below, the highest first -/
  below : List ScopeMap

namespace ScopeMaps

/-- The stack with one map, of the built-ins. -/
def initial : ScopeMaps := ⟨.builtins, []⟩

def level (s : ScopeMaps) : Nat := s.below.length

/-- The symbol of a name in the highest map that has it. -/
def find? (name : String) : List ScopeMap → Option Symbol
  | [] => none
  | m :: below =>
    match m.lookup name with
    | some meaning => some (meaning.symbol name below.length)
    | none => find? name below

/-- The answer of the stack to a call, and the stack after it. -/
def answer (s : ScopeMaps) : ScopeCall → ScopeAnswer × ScopeMaps
  | .enter => (.done, ⟨∅, s.top :: s.below⟩)
  | .exit =>
    match s.below with
    | [] => (.refused .exitGlobalScope, s)
    | next :: below => (.done, ⟨next, below⟩)
  | .declare name ty constant function =>
    if name ∈ s.top then (.said false, s)
    else (.said true, { s with top := s.top.insert name ⟨ty, constant, function⟩ })
  | .lookup name => (.found (find? name (s.top :: s.below)), s)
  | .has name => (.said (decide (name ∈ s.top)), s)

/-- The answers of the stack to some calls, and the stack after them. -/
abbrev answers (s : ScopeMaps) (calls : List ScopeCall) : List (ScopeAnswer × Nat) × ScopeMaps :=
  answersOf answer level s calls

end ScopeMaps

/-! ## 3. Scopes as maps -/

/-- The symbols of a scope at a level are those of a map. -/
def ScopeMap.Of (level : Nat) (symbols : List Symbol) (m : ScopeMap) : Prop :=
  ∀ name, symbols.find? (fun s => s.name == name) = (m.lookup name).map (·.symbol name level)

/-- The scopes of a stack are the maps of another one, place by place. -/
inductive Mapped : List (List Symbol) → List ScopeMap → Prop
  | nil : Mapped [] []
  | cons {symbols : List Symbol} {rest : List (List Symbol)} {m : ScopeMap}
      {below : List ScopeMap} :
      m.Of rest.length symbols → Mapped rest below → Mapped (symbols :: rest) (m :: below)

namespace ScopeMap.Of

variable {level : Nat} {symbols : List Symbol} {m : ScopeMap}

theorem empty (level : Nat) : ScopeMap.Of level [] ∅ := fun name => by
  rw [Finmap.lookup_empty]
  rfl

/-- A name that a map lacks is added to both. -/
theorem insert (h : m.Of level symbols) (name : String) (meaning : Meaning) :
    ScopeMap.Of level (meaning.symbol name level :: symbols) (m.insert name meaning) := by
  intro other
  by_cases he : name = other
  · subst he
    rw [Finmap.lookup_insert]
    simp [Meaning.symbol]
  · rw [Finmap.lookup_insert_of_ne _ (Ne.symm he), ← h other]
    exact List.find?_cons_of_neg (by simpa [Meaning.symbol] using he)

theorem none_of_not_mem (h : m.Of level symbols) {name : String} (hn : name ∉ m) :
    symbols.find? (fun s => s.name == name) = none := by
  rw [h name, Finmap.lookup_eq_none.mpr hn]
  rfl

theorem some_of_mem (h : m.Of level symbols) {name : String} (hn : name ∈ m) :
    ∃ s, symbols.find? (fun s => s.name == name) = some s := by
  obtain ⟨meaning, hm⟩ := Finmap.mem_iff.mp hn
  exact ⟨meaning.symbol name level, by rw [h name, hm]; rfl⟩

end ScopeMap.Of

theorem Mapped.length {stack : List (List Symbol)} {maps : List ScopeMap}
    (h : Mapped stack maps) : stack.length = maps.length := by
  induction h with
  | nil => rfl
  | cons _ _ ih => rw [List.length_cons, List.length_cons, ih]

/-- The innermost symbol of a name is the one of the highest map that has it. -/
theorem Mapped.find {stack : List (List Symbol)} {maps : List ScopeMap} (h : Mapped stack maps)
    (name : String) :
    stack.findSome? (fun scope => scope.find? fun s => s.name == name) =
      ScopeMaps.find? name maps := by
  induction h with
  | nil => rfl
  | @cons symbols rest m below hm hrest ih =>
    rw [List.findSome?_cons, hm name, ScopeMaps.find?, ih, hrest.length]
    cases m.lookup name <;> rfl

/-- The symbols of the built-ins are those of the map of the built-ins. -/
theorem mapped_builtins : Mapped [ScopeTable.builtinSymbols] [ScopeMap.builtins] := by
  have step : ∀ (bs : List Builtin) (symbols : List Symbol) (m : ScopeMap), m.Of 0 symbols →
      ScopeMap.Of 0
        ((bs.map fun b => (⟨b.name, b.signature, false, true, 0⟩ : Symbol)).reverse ++ symbols)
        (bs.foldl (fun m b => m.insert b.name ⟨b.signature, false, true⟩) m) := by
    intro bs
    induction bs with
    | nil => exact fun _ _ h => h
    | cons b bs ih =>
      intro symbols m h
      simpa [Meaning.symbol] using ih _ _ (h.insert b.name ⟨b.signature, false, true⟩)
  refine .cons ?_ .nil
  simpa [ScopeTable.builtinSymbols, ScopeMap.builtins] using step Builtin.all [] ∅ (.empty 0)

/-! ## 4. Chains of records -/

namespace ScopeTable

variable {t : ScopeTable} {symbols : List Symbol} {rest : List (List Symbol)}

/-- The current scope is the last record, and each record but the first stands in the one before
    it, one level deeper. -/
structure Nested (t : ScopeTable) : Prop where
  last : t.current + 1 = t.scopes.size
  global : ∃ s, t.scopes[0]? = some s ∧ s.parent? = none ∧ s.level = 0
  chained : ∀ i s, t.scopes[i + 1]? = some s →
    s.parent? = some i ∧ ∃ around, t.scopes[i]? = some around ∧ s.level = around.level + 1

namespace Shows

/-- **A table that shows a stack is nested.** -/
theorem nested (h : t.Shows (symbols :: rest)) : t.Nested where
  last := by rw [h.current, h.size]
  global := by
    obtain ⟨upper, lowest, hs⟩ : ∃ upper lowest, symbols :: rest = upper ++ [lowest] :=
      ⟨_, _, (List.dropLast_append_getLast (List.cons_ne_nil symbols rest)).symm⟩
    exact ⟨_, h.record upper hs, rfl, rfl⟩
  chained := by
    intro i s hs
    have hi : i + 1 < (symbols :: rest).length := by
      rw [← h.size]
      exact (Array.getElem?_eq_some_iff.mp hs).1
    -- the stack above, at and below the two records
    have hsplit : symbols :: rest = (symbols :: rest).take ((symbols :: rest).length - (i + 2)) ++
        (symbols :: rest).drop ((symbols :: rest).length - (i + 2)) :=
      (List.take_append_drop _ _).symm
    have hlen : ((symbols :: rest).drop ((symbols :: rest).length - (i + 2))).length = i + 2 := by
      rw [List.length_drop]
      omega
    generalize (symbols :: rest).take _ = upper at hsplit
    generalize (symbols :: rest).drop _ = lower at hsplit hlen
    match lower, hlen with
    | inner :: outer :: below, hlen =>
      have hb : below.length = i := by simpa using hlen
      have hin := h.record upper hsplit
      have hout := h.record (upper ++ [inner])
        (show _ = (upper ++ [inner]) ++ outer :: below by rw [hsplit, List.append_cons])
      rw [hb] at hout
      rw [List.length_cons, hb, hs] at hin
      cases hin
      exact ⟨rfl, _, hout, rfl⟩

/-- The table that shows a stack is the only one. -/
theorem unique {t' : ScopeTable} {stack : List (List Symbol)} (h : t.Shows stack)
    (h' : t'.Shows stack) : t = t' := by
  obtain ⟨scopes, current⟩ := t
  obtain ⟨scopes', current'⟩ := t'
  have hs : scopes = scopes' := Array.toList_inj.mp (h.records.trans h'.records.symm)
  have hc : current = current' := Nat.succ.inj (h.current.trans h'.current.symm)
  rw [hs, hc]

/-! ## 5. Calls on both sides -/

/-- Only the global scope is not left. -/
theorem leave_global (h : t.Shows [symbols]) : t.leave? = .error .exitGlobalScope := by
  unfold ScopeTable.leave?
  rw [h.here]
  rfl

theorem hasHere (h : t.Shows (symbols :: rest)) {m : ScopeMap} (hm : m.Of rest.length symbols)
    (name : String) : t.hasHere name = decide (name ∈ m) := by
  rw [ScopeTable.hasHere, h.here, Scope.has, Scope.find?, hm name, Option.isSome_map]
  exact Bool.eq_iff_iff.mpr (Finmap.lookup_isSome.trans decide_eq_true_iff.symm)

/-- **A call is answered alike by the table and by the stack of maps,** which stay in step. -/
theorem answer (h : t.Shows (symbols :: rest)) {s : ScopeMaps}
    (hm : Mapped (symbols :: rest) (s.top :: s.below)) (c : ScopeCall) :
    (t.answer c).1 = (s.answer c).1 ∧
      ∃ symbols' rest', (t.answer c).2.Shows (symbols' :: rest') ∧
        Mapped (symbols' :: rest') ((s.answer c).2.top :: (s.answer c).2.below) := by
  obtain ⟨top, below⟩ := s
  cases hm with
  | cons htop hbelow =>
    cases c with
    | enter => exact ⟨rfl, _, _, h.enter, .cons (.empty _) (.cons htop hbelow)⟩
    | exit =>
      cases hbelow with
      | nil =>
        rw [ScopeTable.answer, h.leave_global]
        exact ⟨rfl, _, _, h, .cons htop .nil⟩
      | cons hnext hrest =>
        obtain ⟨t', ht, hs⟩ := h.leave (List.cons_ne_nil _ _)
        rw [ScopeTable.answer, ht]
        exact ⟨rfl, _, _, hs, .cons hnext hrest⟩
    | declare name ty constant function =>
      by_cases hn : name ∈ top
      · obtain ⟨_, hfound⟩ := htop.some_of_mem hn
        rw [ScopeTable.answer, h.declare_none ty constant function hfound, ScopeMaps.answer,
          if_pos hn]
        exact ⟨rfl, _, _, h, .cons htop hbelow⟩
      · obtain ⟨t', ht, hs⟩ := h.declare name ty constant function (htop.none_of_not_mem hn)
        rw [ScopeTable.answer, ht, ScopeMaps.answer, if_neg hn]
        exact ⟨rfl, _, _, hs, .cons (htop.insert name ⟨ty, constant, function⟩) hbelow⟩
    | lookup name =>
      refine ⟨?_, _, _, h, .cons htop hbelow⟩
      rw [ScopeTable.answer, ScopeMaps.answer, h.lookup, Mapped.find (.cons htop hbelow)]
    | has name =>
      refine ⟨?_, _, _, h, .cons htop hbelow⟩
      rw [ScopeTable.answer, ScopeMaps.answer, h.hasHere htop]

/-- The same for a sequence of calls: the answers and the levels after them are the same. -/
theorem answers (h : t.Shows (symbols :: rest)) {s : ScopeMaps}
    (hm : Mapped (symbols :: rest) (s.top :: s.below)) (calls : List ScopeCall) :
    (t.answers calls).1 = (s.answers calls).1 ∧
      ∃ symbols' rest', (t.answers calls).2.Shows (symbols' :: rest') ∧
        Mapped (symbols' :: rest') ((s.answers calls).2.top :: (s.answers calls).2.below) := by
  induction calls generalizing t s symbols rest with
  | nil => exact ⟨rfl, _, _, h, hm⟩
  | cons c calls ih =>
    obtain ⟨hanswer, symbols₁, rest₁, h₁, hm₁⟩ := h.answer hm c
    obtain ⟨hanswers, hlast⟩ := ih h₁ hm₁
    have hlevel : (t.answer c).2.level = (s.answer c).2.level := by
      rw [h₁.level, ScopeMaps.level]
      exact Nat.succ.inj hm₁.length
    refine ⟨?_, hlast⟩
    show ((t.answer c).1, (t.answer c).2.level) :: _ = ((s.answer c).1, (s.answer c).2.level) :: _
    rw [hanswer, hlevel]
    exact congrArg _ hanswers

/-- A call that neither enters nor leaves a scope is about the innermost one. -/
theorem answer_inside (h : t.Shows (symbols :: rest)) {c : ScopeCall} (hin : c ≠ .enter)
    (hout : c ≠ .exit) : ∃ symbols', (t.answer c).2.Shows (symbols' :: rest) := by
  cases c with
  | enter => exact absurd rfl hin
  | exit => exact absurd rfl hout
  | declare name ty constant function =>
    rw [ScopeTable.answer]
    cases hd : t.declare? name ty constant function with
    | none => exact ⟨symbols, h⟩
    | some t' => exact ⟨_, h.of_declare rfl hd⟩
  | lookup name => exact ⟨symbols, h⟩
  | has name => exact ⟨symbols, h⟩

/-- The calls after a scope start from the table that leaving it gives. -/
theorem answers_scope {inner : List ScopeCall} {t' : ScopeTable}
    (ht : (t.enter.answers inner).2.leave? = .ok t') (after : List ScopeCall) :
    (t.answers (.enter :: inner ++ .exit :: after)).2 = (t'.answers after).2 := by
  show (t.enter.answers (inner ++ .exit :: after)).2 = _
  rw [ScopeTable.answers, answersOf_append]
  show (((t.enter.answers inner).2.answer .exit).2.answers after).2 = _
  rw [ScopeTable.answer, ht]

/-- **Balanced calls are about the innermost scope** and those they enter. -/
theorem answers_balanced {calls : List ScopeCall} (hb : BalancedCalls calls) :
    ∀ {t : ScopeTable} {symbols : List Symbol} {rest : List (List Symbol)},
      t.Shows (symbols :: rest) → ∃ symbols', (t.answers calls).2.Shows (symbols' :: rest) := by
  induction hb with
  | nil => exact fun h => ⟨_, h⟩
  | call hin hout _ ih =>
    intro t symbols rest h
    obtain ⟨_, h₁⟩ := h.answer_inside hin hout
    exact ih h₁
  | scope _ _ ihinner ihrest =>
    intro t symbols rest h
    obtain ⟨_, h₁⟩ := ihinner h.enter
    obtain ⟨t', ht, h₂⟩ := h₁.leave (List.cons_ne_nil _ _)
    rw [answers_scope ht]
    exact ihrest h₂

/-- **A scope with balanced calls in it leaves no trace.** -/
theorem answers_closed (h : t.Shows (symbols :: rest)) {inner : List ScopeCall}
    (hb : BalancedCalls inner) : (t.answers (.enter :: inner ++ [.exit])).2 = t := by
  obtain ⟨_, h₁⟩ := answers_balanced hb h.enter
  obtain ⟨t', ht, h₂⟩ := h₁.leave (List.cons_ne_nil _ _)
  rw [answers_scope ht]
  exact h₂.unique h

end Shows

/-! ## 6. Every sequence of calls -/

/-- **A new table answers as a stack of maps,** whatever is called. At any time its records are
    a chain that ends in the current scope; a name that is refused and leaving the global scope
    change nothing, and a scope with balanced calls in it restores the table as it was, and so
    every answer. -/
theorem answers_as_maps (calls : List ScopeCall) :
    let (answers, t) := initial.answers calls
    let (wanted, maps) := ScopeMaps.initial.answers calls
    answers = wanted ∧ t.level = maps.level ∧ t.Nested ∧
      (∀ name ty constant function,
        (t.answer (.declare name ty constant function)).1 = .said false →
          (t.answer (.declare name ty constant function)).2 = t) ∧
      (t.level = 0 → t.answer .exit = (.refused .exitGlobalScope, t)) ∧
      ∀ inner, BalancedCalls inner → (t.answers (.enter :: inner ++ [.exit])).2 = t := by
  obtain ⟨hanswers, symbols, rest, h, hm⟩ :=
    shows_initial.answers (s := ScopeMaps.initial) mapped_builtins calls
  refine ⟨hanswers, ?_, h.nested, ?_, ?_, fun inner hb => h.answers_closed hb⟩
  · rw [h.level, ScopeMaps.level]
    exact Nat.succ.inj hm.length
  · intro name ty constant function hsaid
    rw [answer] at hsaid ⊢
    cases hd : (initial.answers calls).2.declare? name ty constant function with
    | none => rfl
    | some t' =>
      rw [hd] at hsaid
      cases hsaid
  · intro hlevel
    rw [h.level, List.length_eq_zero_iff] at hlevel
    subst hlevel
    rw [answer, h.leave_global]

/-- A name in the global scope, hidden by one in an inner scope and visible again after it; one
    scope too many is left. -/
def shadowingCalls : List ScopeCall :=
  [.declare "x" .int false false, .enter, .declare "x" .string true false, .lookup "x",
    .has "len", .exit, .lookup "x", .exit, .declare "x" .bool false false]

/-- The name is refused the second time, and after all of it a scope leaves no trace. -/
theorem shadowing_as_maps :
    (initial.answers shadowingCalls).1 = (ScopeMaps.initial.answers shadowingCalls).1 ∧
      (initial.answers shadowingCalls).1.getLast? = some (.said false, 0) ∧
      (initial.answers shadowingCalls).2.answer .exit =
        (.refused .exitGlobalScope, (initial.answers shadowingCalls).2) ∧
      ((initial.answers shadowingCalls).2.answers
        [.enter, .declare "x" .char false false, .exit]).2 =
          (initial.answers shadowingCalls).2 := by
  obtain ⟨hanswers, -, -, -, hexit, hclosed⟩ := answers_as_maps shadowingCalls
  have hinner : BalancedCalls [.declare "x" .char false false] := .call nofun nofun .nil
  exact ⟨hanswers, rfl, hexit rfl, hclosed _ hinner⟩

end ScopeTable

end Stackling
