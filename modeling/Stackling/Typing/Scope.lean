import Stackling.Builtin

/-
  File:     Stackling/Typing/Scope.lean
  Subject:  Which names are known where.

  Scopes are records in a list, each with the place of the scope around it. The current scope
  is searched first, then the one around it, and so on out to the global scope, which has no
  scope around it and cannot be left. The built-ins stand in the global scope.

  * `enter`, `leave?`  -- the scopes;
  * `declare?`         -- a new name in the current scope;
  * `lookup?`          -- the innermost symbol of a name.
-/
namespace Stackling

/-- What a name stands for. -/
structure Symbol where
  name : String
  ty : Ty
  constant : Bool
  function : Bool
  /-- the level of the scope that holds it -/
  level : Nat
  deriving DecidableEq

/-- The symbols of one scope, the latest first. -/
structure Scope where
  symbols : List Symbol
  parent? : Option Nat
  level : Nat

namespace Scope

/-- The symbol of a name in one scope. -/
def find? (s : Scope) (name : String) : Option Symbol :=
  s.symbols.find? fun x => x.name == name

/-- Whether a name has a symbol in one scope. -/
def has (s : Scope) (name : String) : Bool := (s.find? name).isSome

end Scope

/-- Leaving a scope that has none around it. -/
inductive ScopeViolation
  | exitGlobalScope
  deriving DecidableEq

namespace ScopeViolation

def name : ScopeViolation → String
  | exitGlobalScope => "ExitGlobalScope"

def message : ScopeViolation → String
  | exitGlobalScope => "cannot exit the global scope"

end ScopeViolation

/-- All open scopes, and the place of the current one. -/
structure ScopeTable where
  scopes : Array Scope
  current : Nat

namespace ScopeTable

/-- The current scope. -/
def here (t : ScopeTable) : Scope := t.scopes.getD t.current ⟨[], none, 0⟩

/-- How many scopes lie around the current one. -/
def level (t : ScopeTable) : Nat := t.here.level

/-- A new scope inside the current one, which it replaces as the current one. -/
def enter (t : ScopeTable) : ScopeTable :=
  ⟨t.scopes.push ⟨[], some t.current, t.level + 1⟩, t.scopes.size⟩

/-- The scope around the current one becomes the current one. The current scope, which is
    the last record, is dropped with its symbols. -/
def leave? (t : ScopeTable) : Except ScopeViolation ScopeTable :=
  match t.here.parent? with
  | some parent => .ok ⟨t.scopes.take t.current, parent⟩
  | none => .error .exitGlobalScope

/-- Whether the current scope itself has the name. -/
def hasHere (t : ScopeTable) (name : String) : Bool := t.here.has name

/-- The table with a new symbol in the current scope; none if the scope has the name. -/
def declare? (t : ScopeTable) (name : String) (ty : Ty) (constant function : Bool) :
    Option ScopeTable :=
  if t.hasHere name then none
  else
    let symbol : Symbol := ⟨name, ty, constant, function, t.level⟩
    some { t with
      scopes := t.scopes.modify t.current fun s => { s with symbols := symbol :: s.symbols } }

/-- The symbol of a name, from the scope at `place` outward through at most `fuel` scopes. -/
def lookupFrom (t : ScopeTable) (name : String) : Nat → Nat → Option Symbol
  | 0, _ => none
  | fuel + 1, place =>
    match t.scopes[place]? with
    | none => none
    | some scope =>
      match scope.find? name with
      | some symbol => some symbol
      | none =>
        match scope.parent? with
        | some parent => lookupFrom t name fuel parent
        | none => none

/-- The symbol of a name, from the current scope outward. -/
def lookup? (t : ScopeTable) (name : String) : Option Symbol :=
  t.lookupFrom name t.scopes.size t.current

/-- A global scope and no symbol. -/
def bare : ScopeTable := ⟨#[⟨[], none, 0⟩], 0⟩

/-- A global scope with the built-ins. -/
def initial : ScopeTable :=
  Builtin.all.foldl (fun t b => (t.declare? b.name b.signature false true).getD t) bare

/-- A name is declared exactly if the current scope lacks it. -/
theorem declare?_isSome (t : ScopeTable) (name : String) (ty : Ty) (constant function : Bool) :
    (t.declare? name ty constant function).isSome = !t.hasHere name := by
  unfold declare?
  cases t.hasHere name <;> rfl

end ScopeTable

end Stackling
