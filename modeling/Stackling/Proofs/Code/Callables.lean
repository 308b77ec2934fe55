import Mathlib.Data.List.Nodup
import Stackling.Code.Bytecode
import Stackling.Proofs.Syntax.Numbers
import Stackling.Proofs.Typing.Rules

/-
  File:     Stackling/Proofs/Code/Callables.lean
  Subject:  The callables of a program, and the places that hold its values.

  Every function, the statements at top level, `main` and every function literal have a unit
  of their own. The units stand in this order, a literal before those in its body; the last
  unit is the one a run starts with. A callable has a slot for each declaration in it, and the
  program has a cell for each declaration at top level.

  * `Expr.literals`, `Program.literals` -- the function literals, in the order of their units;
  * `Stmt.slots`, `Stmt.cells`          -- the types of the slots, and the cells;
  * `Program.callables`                 -- what has a unit, in the order of the units;
  * `Segment`                           -- a list that stands in another one at a place.
-/
namespace Stackling

/-! ## 1. Function literals -/

/-- A function literal. -/
structure Literal where
  node : Node
  params : List Param
  returns : TypeExpr
  body : Block

mutual
/-- The function literals in an expression. -/
def Expr.literals : Expr → List Literal
  | .int .. | .text .. | .char .. | .bool .. | .name .. => []
  | .binary _ _ left right => left.literals ++ right.literals
  | .array _ items => itemLiterals items
  | .hash _ entries => entryLiterals entries
  | .fn node params returns body => ⟨node, params, returns, body⟩ :: body.literals
  | .index _ target key => target.literals ++ key.literals
  | .call _ callee args => callee.literals ++ itemLiterals args

def itemLiterals : List Expr → List Literal
  | [] => []
  | e :: rest => e.literals ++ itemLiterals rest

def entryLiterals : List (Expr × Expr) → List Literal
  | [] => []
  | (k, v) :: rest => k.literals ++ v.literals ++ entryLiterals rest

/-- The function literals in a statement. -/
def Stmt.literals : Stmt → List Literal
  | .declare _ _ _ _ value | .expr value | .print _ value => value.literals
  | .returns _ none => []
  | .returns _ (some value) => value.literals
  | .branch _ condition yes none => condition.literals ++ yes.literals
  | .branch _ condition yes (some no) => condition.literals ++ yes.literals ++ no.literals
  | .block body => body.literals

def Block.literals : Block → List Literal
  | .mk body _ => stmtLiterals body

def stmtLiterals : List Stmt → List Literal
  | [] => []
  | s :: rest => s.literals ++ stmtLiterals rest
end

def functionLiterals : List FunctionDecl → List Literal
  | [] => []
  | f :: rest => f.body.literals ++ functionLiterals rest

/-- The function literals of a program, in the order in which they get their units. -/
def Program.literals (p : Program) : List Literal :=
  stmtLiterals p.globals ++ functionLiterals p.functions ++ p.main.literals

theorem mem_functionLiterals {fs : List FunctionDecl} {l : Literal}
    (h : l ∈ functionLiterals fs) :
    ∃ (i : Nat) (f : FunctionDecl), fs[i]? = some f ∧ l ∈ f.body.literals := by
  induction fs with
  | nil => simp [functionLiterals] at h
  | cons f fs ih =>
    rw [functionLiterals] at h
    rcases List.mem_append.mp h with h | h
    · exact ⟨0, f, rfl, h⟩
    · obtain ⟨i, f', hf', hl⟩ := ih h
      exact ⟨i + 1, f', hf', hl⟩

theorem Block.literals_eq (b : Block) : b.literals = stmtLiterals b.body := by
  obtain ⟨body, span⟩ := b
  rw [Block.literals, Block.body]

/-! ## 2. Slots and cells -/

mutual
/-- The types of the slots that a statement declares; outside all scopes only the branches
    declare some. -/
def Stmt.slots (outside : Bool) : Stmt → List Ty
  | .declare _ _ _ written _ => if outside then [] else [written.toTy]
  | .returns .. | .expr _ | .print .. => []
  | .branch _ _ yes none => yes.slots false
  | .branch _ _ yes (some no) => yes.slots false ++ no.slots false
  | .block body => body.slots outside

def Block.slots (outside : Bool) : Block → List Ty
  | .mk body _ => stmtSlots outside body

/-- The types of the slots that some statements declare. -/
def stmtSlots (outside : Bool) : List Stmt → List Ty
  | [] => []
  | s :: rest => s.slots outside ++ stmtSlots outside rest
end

mutual
/-- The names and types of the cells that a statement at top level declares. -/
def Stmt.cells : Stmt → List (String × Ty)
  | .declare _ _ name written _ => [(name, written.toTy)]
  | .returns .. | .expr _ | .print .. | .branch .. => []
  | .block body => body.cells

def Block.cells : Block → List (String × Ty)
  | .mk body _ => stmtCells body

/-- The names and types of the cells that some statements at top level declare. -/
def stmtCells : List Stmt → List (String × Ty)
  | [] => []
  | s :: rest => s.cells ++ stmtCells rest
end

/-- The cells of a program. -/
def Program.cells (p : Program) : List (String × Ty) := stmtCells p.globals

/-! ## 3. Units -/

/-- What is written in a unit of its own. -/
structure CallableDecl where
  name : String
  params : List Param
  returns : Ty
  body : List Stmt
  /-- whether declarations outside all scopes make cells -/
  outside : Bool

namespace CallableDecl

/-- The types of the slots that a call needs. -/
def slots (c : CallableDecl) : List Ty := stmtSlots c.outside c.body

/-- The type of a callable as a value. -/
def ty (c : CallableDecl) : Ty := .fn (paramTypes c.params) c.returns

end CallableDecl

/-- The name of the unit of the literal at a place. -/
def literalName (place : Nat) : String := "<lambda#" ++ toString (place + 1) ++ ">"

def FunctionDecl.callable (f : FunctionDecl) : CallableDecl :=
  ⟨f.name, f.params, f.returns.toTy, f.body.body, false⟩

def Literal.callable (place : Nat) (l : Literal) : CallableDecl :=
  ⟨literalName place, l.params, l.returns.toTy, l.body.body, false⟩

namespace Program

variable (p : Program)

/-- The statements at top level, as a callable. -/
def globalsCallable : CallableDecl := ⟨"<globals>", [], .void, p.globals, true⟩

def mainCallable : CallableDecl := ⟨"main", [], .void, p.main.body, false⟩

/-- What has a unit, in the order of the units. -/
def callables : List CallableDecl :=
  p.functions.map FunctionDecl.callable ++ [p.globalsCallable, p.mainCallable]
    ++ p.literals.mapIdx Literal.callable

/-- The unit of the statements at top level. -/
def globalsUnit : UnitId := p.functions.length

def mainUnit : UnitId := p.functions.length + 1

/-- The unit of the literal at a place. -/
def literalUnit (place : Nat) : UnitId := p.functions.length + 2 + place

/-- The unit that a run starts with. -/
def entryUnit : UnitId := p.literalUnit p.literals.length

/-- The place of the literal with the number `id`. -/
def placeOf (id : Nat) : Nat := (p.literals.map (·.node.id)).idxOf id

variable {p}

theorem callable_function {i : Nat} {f : FunctionDecl} (h : p.functions[i]? = some f) :
    p.callables[i]? = some f.callable := by
  have hi : i < p.functions.length := (List.getElem?_eq_some_iff.mp h).1
  rw [callables, List.append_assoc, List.getElem?_append_left (by simpa using hi),
    List.getElem?_map, h]
  rfl

theorem callable_globals : p.callables[p.globalsUnit]? = some p.globalsCallable := by
  rw [callables, List.append_assoc, List.getElem?_append_right (by simp [globalsUnit])]
  simp [globalsUnit]

theorem callable_main : p.callables[p.mainUnit]? = some p.mainCallable := by
  rw [callables, List.append_assoc, List.getElem?_append_right (by simp [mainUnit])]
  simp [mainUnit]

theorem callable_literal {place : Nat} {l : Literal} (h : p.literals[place]? = some l) :
    p.callables[p.literalUnit place]? = some (l.callable place) := by
  rw [callables, List.getElem?_append_right (by simp [literalUnit])]
  simp only [List.length_append, List.length_map, List.length_cons, List.length_nil, literalUnit,
    List.getElem?_mapIdx]
  rw [Nat.add_sub_cancel_left, h]
  rfl

theorem length_callables : p.callables.length = p.entryUnit := by
  simp only [callables, entryUnit, literalUnit, List.length_append, List.length_map,
    List.length_mapIdx, List.length_cons, List.length_nil]

/-- What has a unit is a function, the statements at top level, `main` or a literal. -/
theorem callable_cases {id : Nat} {c : CallableDecl} (h : p.callables[id]? = some c) :
    (∃ f, p.functions[id]? = some f ∧ c = f.callable) ∨
    (id = p.globalsUnit ∧ c = p.globalsCallable) ∨ (id = p.mainUnit ∧ c = p.mainCallable) ∨
    ∃ place l, p.literals[place]? = some l ∧ id = p.literalUnit place ∧ c = l.callable place := by
  have hmem : ∀ {c'}, p.callables[id]? = some c' → c = c' := fun h' =>
    Option.some.inj (h.symm.trans h')
  rcases Nat.lt_or_ge id p.functions.length with hlt | hge
  · have hf := List.getElem?_eq_getElem hlt
    exact .inl ⟨_, hf, hmem (callable_function hf)⟩
  · rcases Nat.lt_or_ge id (p.functions.length + 2) with hlt | hge'
    · rcases Nat.lt_or_ge id (p.functions.length + 1) with hlt' | hge''
      · obtain rfl : id = p.globalsUnit := by
          rw [globalsUnit]
          omega
        exact .inr (.inl ⟨rfl, hmem callable_globals⟩)
      · obtain rfl : id = p.mainUnit := by
          rw [mainUnit]
          omega
        exact .inr (.inr (.inl ⟨rfl, hmem callable_main⟩))
    · obtain ⟨place, rfl⟩ : ∃ place, id = p.literalUnit place :=
        ⟨id - (p.functions.length + 2), by rw [literalUnit]; omega⟩
      have hlt : p.functions.length + 2 + place < p.functions.length + 2 + p.literals.length :=
        Nat.lt_of_lt_of_eq (List.getElem?_eq_some_iff.mp h).1 length_callables
      have hl := List.getElem?_eq_getElem (Nat.lt_of_add_lt_add_left hlt)
      exact .inr (.inr (.inr ⟨place, _, hl, rfl, hmem (callable_literal hl)⟩))

end Program

/-- What has a unit that values refer to: the functions and the literals. -/
inductive Program.Callee (p : Program) : UnitId → CallableDecl → Prop
  | function {id f} (h : p.functions[id]? = some f) : Callee p id f.callable
  | literal {place l} (h : p.literals[place]? = some l) :
      Callee p (p.literalUnit place) (l.callable place)

theorem Program.Callee.callable {p : Program} {id : UnitId} {c : CallableDecl}
    (h : p.Callee id c) : p.callables[id]? = some c := by
  cases h with
  | function h => exact callable_function h
  | literal h => exact callable_literal h

/-- Neither the statements at top level nor `main` is referred to by a value. -/
theorem Program.Callee.ne {p : Program} {id : UnitId} {c : CallableDecl} (h : p.Callee id c) :
    id ≠ p.globalsUnit ∧ id ≠ p.mainUnit := by
  cases h with
  | function h =>
    have hlt := (List.getElem?_eq_some_iff.mp h).1
    exact ⟨Nat.ne_of_lt hlt, Nat.ne_of_lt (Nat.lt_succ_of_lt hlt)⟩
  | @literal place _ h =>
    have hlt : p.functions.length + 1 < p.functions.length + 2 + place := by omega
    exact ⟨Nat.ne_of_gt (Nat.lt_of_succ_lt hlt), Nat.ne_of_gt hlt⟩

/-! ## 4. Numbers of literals -/

mutual
/-- A number of a literal in an expression is a number in the expression. -/
theorem Expr.count_literals_le (n : Nat) : (e : Expr) →
    (e.literals.map (·.node.id)).count n ≤ e.ids.count n
  | .int .. | .text .. | .char .. | .bool .. | .name .. => by simp [Expr.literals]
  | .binary _ _ left right => by
    have hl := Expr.count_literals_le n left
    have hr := Expr.count_literals_le n right
    simp only [Expr.literals, Expr.ids, List.map_append, List.count_append]
    omega
  | .array _ items => by
    have hi := itemLiterals_count_le n items
    simp only [Expr.literals, Expr.ids, List.count_append]
    omega
  | .hash _ entries => by
    have he := entryLiterals_count_le n entries
    simp only [Expr.literals, Expr.ids, List.count_append]
    omega
  | .fn node _ _ body => by
    have hb := Block.count_literals_le n body
    simp only [Expr.literals, Expr.ids, List.map_cons, List.count_append, List.count_cons,
      List.count_nil]
    omega
  | .index _ target key => by
    have ht := Expr.count_literals_le n target
    have hk := Expr.count_literals_le n key
    simp only [Expr.literals, Expr.ids, List.map_append, List.count_append]
    omega
  | .call _ callee args => by
    have hc := Expr.count_literals_le n callee
    have ha := itemLiterals_count_le n args
    simp only [Expr.literals, Expr.ids, List.map_append, List.count_append]
    omega

theorem itemLiterals_count_le (n : Nat) : (items : List Expr) →
    ((itemLiterals items).map (·.node.id)).count n ≤ (itemIds items).count n
  | [] => by simp [itemLiterals]
  | e :: rest => by
    have he := Expr.count_literals_le n e
    have hr := itemLiterals_count_le n rest
    simp only [itemLiterals, itemIds, List.map_append, List.count_append]
    omega

theorem entryLiterals_count_le (n : Nat) : (entries : List (Expr × Expr)) →
    ((entryLiterals entries).map (·.node.id)).count n ≤ (entryIds entries).count n
  | [] => by simp [entryLiterals]
  | (k, v) :: rest => by
    have hk := Expr.count_literals_le n k
    have hv := Expr.count_literals_le n v
    have hr := entryLiterals_count_le n rest
    simp only [entryLiterals, entryIds, List.map_append, List.count_append]
    omega

theorem Stmt.count_literals_le (n : Nat) : (s : Stmt) →
    (s.literals.map (·.node.id)).count n ≤ s.ids.count n
  | .declare _ _ _ _ value | .expr value | .print _ value | .returns _ (some value) => by
    simpa only [Stmt.literals, Stmt.ids] using Expr.count_literals_le n value
  | .returns _ none => by simp [Stmt.literals]
  | .branch _ condition yes none => by
    have hc := Expr.count_literals_le n condition
    have hy := Block.count_literals_le n yes
    simp only [Stmt.literals, Stmt.ids, List.map_append, List.count_append]
    omega
  | .branch _ condition yes (some no) => by
    have hc := Expr.count_literals_le n condition
    have hy := Block.count_literals_le n yes
    have hn := Block.count_literals_le n no
    simp only [Stmt.literals, Stmt.ids, List.map_append, List.count_append]
    omega
  | .block body => by simpa only [Stmt.literals, Stmt.ids] using Block.count_literals_le n body

theorem Block.count_literals_le (n : Nat) : (b : Block) →
    (b.literals.map (·.node.id)).count n ≤ b.ids.count n
  | .mk body _ => by simpa only [Block.literals, Block.ids] using stmtLiterals_count_le n body

theorem stmtLiterals_count_le (n : Nat) : (body : List Stmt) →
    ((stmtLiterals body).map (·.node.id)).count n ≤ (stmtIds body).count n
  | [] => by simp [stmtLiterals]
  | s :: rest => by
    have hs := Stmt.count_literals_le n s
    have hr := stmtLiterals_count_le n rest
    simp only [stmtLiterals, stmtIds, List.map_append, List.count_append]
    omega
end

theorem functionLiterals_count_le (n : Nat) (fs : List FunctionDecl) :
    ((functionLiterals fs).map (·.node.id)).count n ≤ (functionIds fs).count n := by
  induction fs with
  | nil => simp [functionLiterals]
  | cons f rest ih =>
    have hf := Block.count_literals_le n f.body
    simp only [functionLiterals, functionIds, List.map_append, List.count_append]
    omega

/-- **Different literals have different numbers,** if all expressions have. -/
theorem Program.nodup_literals {p : Program} (h : p.ids.Nodup) :
    (p.literals.map (·.node.id)).Nodup := by
  rw [List.nodup_iff_count_le_one] at h ⊢
  intro n
  have hn := h n
  have hg := stmtLiterals_count_le n p.globals
  have hf := functionLiterals_count_le n p.functions
  have hm := Block.count_literals_le n p.main
  simp only [Program.ids, Program.literals, List.map_append, List.count_append] at hn ⊢
  omega

/-- The number of a literal tells its place. -/
theorem Program.placeOf_eq {p : Program} (h : p.ids.Nodup) {place : Nat} {l : Literal}
    (hl : p.literals[place]? = some l) : p.placeOf l.node.id = place := by
  obtain ⟨hlt, rfl⟩ := List.getElem?_eq_some_iff.mp hl
  have hn := nodup_literals h
  have := hn.idxOf_getElem place (by simpa using hlt)
  simpa [placeOf] using this

/-! ## 5. Segments -/

/-- A list stands in another one, from the place `n` on. -/
def Segment {α : Type} (whole : List α) (n : Nat) (part : List α) : Prop :=
  ∀ (i : Nat) (x : α), part[i]? = some x → whole[n + i]? = some x

namespace Segment

variable {α : Type} {whole part rest : List α} {n : Nat}

theorem self (whole : List α) : Segment whole 0 whole := by
  intro i x h
  rwa [Nat.zero_add]

theorem nil : Segment whole n [] := by
  intro i x h
  simp at h

theorem left (h : Segment whole n (part ++ rest)) : Segment whole n part := by
  intro i x hi
  refine h i x ?_
  rw [List.getElem?_append_left (List.getElem?_eq_some_iff.mp hi).1]
  exact hi

theorem right (h : Segment whole n (part ++ rest)) : Segment whole (n + part.length) rest := by
  intro i x hi
  rw [Nat.add_assoc]
  refine h (part.length + i) x ?_
  rw [List.getElem?_append_right (Nat.le_add_right _ _), Nat.add_sub_cancel_left]
  exact hi

theorem head {x : α} (h : Segment whole n (x :: rest)) : whole[n]? = some x := h 0 x rfl

theorem tail {x : α} (h : Segment whole n (x :: rest)) : Segment whole (n + 1) rest := by
  intro i y hi
  rw [Nat.add_assoc, Nat.add_comm 1 i]
  exact h (i + 1) y (by simpa using hi)

end Segment

end Stackling
