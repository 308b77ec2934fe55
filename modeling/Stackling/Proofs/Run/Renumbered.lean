import Stackling.Proofs.Run.Renamed

/-
  File:     Stackling/Proofs/Run/Renumbered.lean
  Subject:  Programs whose callables have other numbers.

  Two programs may differ in the numbers that their units have and in nothing else. Then an
  evaluation of the one is an evaluation of the other, step by step, with the values under
  other numbers; what is written is the same.

  * `Program.Renumbered`     -- the second program has the callables of the first one;
  * `evalExpr_renamed`, `evalStmts_renamed` -- expressions and statements;
  * `Program.Renumbered.call`, `Program.Renumbered.evaluate` -- calls, and whole programs.
-/
namespace Stackling

/-- **`p'` is `p` with other numbers of the units:** names stand for the same, and under the
    number `π unit` it has what `p` has under `unit`. -/
structure Program.Renumbered (π : UnitId → UnitId) (p p' : Program) : Prop where
  injective : Function.Injective π
  cells : p'.cells = p.cells
  functions : ∀ name, p'.functions.findIdx? (·.name == name) =
    (p.functions.findIdx? (·.name == name)).map π
  places : ∀ id, p'.placeOf id = p.placeOf id
  literals : ∀ place, p'.literalUnit place = π (p.literalUnit place)
  callables : ∀ unit, p'.callables[π unit]? = p.callables[unit]?
  globals : p'.globalsUnit = π p.globalsUnit
  main : p'.mainUnit = π p.mainUnit

variable (π : UnitId → UnitId)

/-! ## 1. Names -/

/-- Values of names, under other numbers. -/
def renamedScope (scope : List (String × Value)) : List (String × Value) :=
  scope.map fun x => (x.1, x.2.renamed π)

def Env.renamed (env : Env) : Env := env.map (renamedScope π)

theorem lookup_renamedScope (name : String) (scope : List (String × Value)) :
    (renamedScope π scope).lookup name = (scope.lookup name).map (Value.renamed π) := by
  induction scope with
  | nil => rfl
  | cons x scope ih =>
    rw [renamedScope, List.map_cons, List.lookup_cons, List.lookup_cons]
    cases name == x.1 with
    | true => rfl
    | false => exact ih

theorem Env.findSome?_renamed (name : String) (env : Env) :
    (env.renamed π).findSome? (List.lookup name) =
      (env.findSome? (List.lookup name)).map (Value.renamed π) := by
  induction env with
  | nil => rfl
  | cons scope env ih =>
    rw [renamed, List.map_cons, List.findSome?_cons, List.findSome?_cons, lookup_renamedScope]
    cases scope.lookup name with
    | none => exact ih
    | some v => rfl

/-- How evaluation goes on, under other numbers. -/
def Flow.renamed : Flow → Flow
  | .next env => .next (env.renamed π)
  | .back v => .back (v.renamed π)

theorem Flow.leaving_renamed (env : Env) (f : Flow) :
    (f.renamed π).leaving (env.renamed π) = (f.leaving env).renamed π := by
  cases f <;> rfl

theorem Flow.result_renamed (f : Flow) : (f.renamed π).result = f.result.renamed π := by
  cases f <;> rfl

theorem declare_renamed (env : Env) (name : String) (v : Value) :
    Eval.Renamed π (Env.renamed π) (declare env name v)
      (declare (env.renamed π) name (v.renamed π)) := by
  cases env with
  | nil => exact fun _ => rfl
  | cons scope rest => exact .pure _

theorem renamedScope_zip (names : List String) (args : List Value) :
    names.zip (renamedItems π args) = renamedScope π (names.zip args) := by
  rw [renamedItems_eq, List.zip_map_right]
  rfl

/-- The names at the start of a call, under other numbers. -/
theorem CallableDecl.env_renamed (c : CallableDecl) (args : List Value) :
    c.env (renamedItems π args) = (c.env args).renamed π := by
  unfold CallableDecl.env
  split
  · rfl
  · rw [renamedScope_zip, Env.renamed, List.map_cons, List.map_nil, renamedScope, renamedScope,
      List.map_reverse]

variable {π} {p p' : Program} {types types' : TypeTable}

theorem evalName_renamed (h : p.Renumbered π p') (env : Env) (name : String) :
    Eval.Renamed π (Value.renamed π) (evalName p env name)
      (evalName p' (env.renamed π) name) := by
  unfold evalName
  rw [Env.findSome?_renamed]
  cases env.findSome? (List.lookup name) with
  | some v => exact .pure v
  | none =>
    simp only [Option.map_none, h.cells, h.functions]
    split
    · -- a global name
      intro w
      have hget : ∀ (g : World → Eval Value) (w : World), (get >>= g) w = g w w := fun _ _ => rfl
      have hglobals : (w.renamed π).globals = renamedScope π w.globals := rfl
      rw [hget, hget, hglobals, lookup_renamedScope]
      cases w.globals.lookup name <;> rfl
    · cases p.functions.findIdx? (·.name == name) with
      | some unit => exact .pure _
      | none => exact .read _ fun b => .pure _

/-! ## 2. Expressions -/

section

variable {call call' : UnitId → List Value → Eval Value}

/-- Calls of renumbered units come to the same. -/
def RenamedCalls (π : UnitId → UnitId) (call call' : UnitId → List Value → Eval Value) : Prop :=
  ∀ unit args, Eval.Renamed π (Value.renamed π) (call unit args)
    (call' (π unit) (renamedItems π args))

theorem invoke_renamed (hcall : RenamedCalls π call call') (f : Value) (args : List Value) :
    Eval.Renamed π (Value.renamed π) (invoke call f args)
      (invoke call' (f.renamed π) (renamedItems π args)) := by
  cases f with
  | callable target =>
    cases target with
    | unit id _ => exact hcall id args
    | builtin b =>
      show Eval.Renamed π _ (.lift (b.apply args)) (.lift (b.apply (renamedItems π args)))
      rw [b.apply_renamed π args]
      exact .lift
  | _ => exact .stuck

mutual
/-- **An expression has the same value under other numbers.** -/
theorem evalExpr_renamed (h : p.Renumbered π p') (hcall : RenamedCalls π call call')
    (env : Env) : (e : Expr) →
    Eval.Renamed π (Value.renamed π) (evalExpr p call env e)
      (evalExpr p' call' (env.renamed π) e)
  | .int _ _ | .text _ _ | .char _ _ | .bool _ _ => .pure _
  | .name _ name => by
    simp only [evalExpr]
    exact evalName_renamed h env name
  | .binary _ op left right => by
    simp only [evalExpr]
    refine (evalExpr_renamed h hcall env left).bind fun a => ?_
    refine (evalExpr_renamed h hcall env right).bind fun b => ?_
    exact op.eval_renamed π h.injective a b
  | .array _ items => by
    simp only [evalExpr]
    exact (evalAll_renamed h hcall env items).bind fun vs => .pure _
  | .hash _ entries => by
    simp only [evalExpr]
    exact (evalEntries_renamed h hcall env [] entries).bind fun es => .pure _
  | .fn node _ _ _ => by
    simp only [evalExpr, h.places, h.literals]
    exact .pure _
  | .index _ target key => by
    simp only [evalExpr]
    refine (evalExpr_renamed h hcall env target).bind fun a => ?_
    refine (evalExpr_renamed h hcall env key).bind fun k => ?_
    exact evalIndex_renamed π a k
  | .call _ callee args => by
    simp only [evalExpr]
    refine (evalExpr_renamed h hcall env callee).bind fun f => ?_
    refine (evalAll_renamed h hcall env args).bind fun vs => ?_
    exact invoke_renamed hcall f vs

theorem evalAll_renamed (h : p.Renumbered π p') (hcall : RenamedCalls π call call')
    (env : Env) : (es : List Expr) →
    Eval.Renamed π (renamedItems π) (evalAll p call env es)
      (evalAll p' call' (env.renamed π) es)
  | [] => .pure _
  | e :: rest => by
    simp only [evalAll]
    refine (evalExpr_renamed h hcall env e).bind fun v => ?_
    exact (evalAll_renamed h hcall env rest).bind fun vs => .pure _

theorem evalEntries_renamed (h : p.Renumbered π p') (hcall : RenamedCalls π call call')
    (env : Env) (before : List (HashKey × Value)) :
    (es : List (Expr × Expr)) →
    Eval.Renamed π (renamedEntries π) (evalEntries p call env before es)
      (evalEntries p' call' (env.renamed π) (renamedEntries π before) es)
  | [] => .pure _
  | (k, e) :: rest => by
    simp only [evalEntries]
    refine (evalExpr_renamed h hcall env k).bind fun key => ?_
    refine (evalExpr_renamed h hcall env e).bind fun v => ?_
    rw [Value.key?_renamed]
    refine .read _ fun key => ?_
    rw [insertEntry_renamed]
    exact evalEntries_renamed h hcall env _ rest
end

/-! ## 3. Statements -/

mutual
/-- **A statement does the same under other numbers.** -/
theorem evalStmt_renamed (h : p.Renumbered π p') (hcall : RenamedCalls π call call')
    (htypes : ∀ id, types'.find? id = types.find? id) (env : Env) : (s : Stmt) →
    Eval.Renamed π (Flow.renamed π) (evalStmt p call types env s)
      (evalStmt p' call' types' (env.renamed π) s)
  | .declare _ _ name _ value => by
    simp only [evalStmt]
    exact (evalExpr_renamed h hcall env value).bind fun v =>
      (declare_renamed π env name v).bind fun env' => .pure _
  | .returns _ none => .pure _
  | .returns _ (some value) => by
    simp only [evalStmt]
    exact (evalExpr_renamed h hcall env value).bind fun v => .pure _
  | .expr value => by
    simp only [evalStmt]
    exact (evalExpr_renamed h hcall env value).bind fun v => .pure (Flow.next env)
  | .branch _ condition yes none => by
    simp only [evalStmt]
    refine (evalExpr_renamed h hcall env condition).bind fun v => ?_
    rw [Value.truth?_renamed]
    refine .read _ fun b => ?_
    cases b with
    | true =>
      refine (evalBlock_renamed h hcall htypes ([] :: env) yes).bind fun f => ?_
      rw [Flow.leaving_renamed]
      exact .pure _
    | false => exact .pure (Flow.next env)
  | .branch _ condition yes (some no) => by
    simp only [evalStmt]
    refine (evalExpr_renamed h hcall env condition).bind fun v => ?_
    rw [Value.truth?_renamed]
    refine .read _ fun b => ?_
    cases b with
    | true =>
      refine (evalBlock_renamed h hcall htypes ([] :: env) yes).bind fun f => ?_
      rw [Flow.leaving_renamed]
      exact .pure _
    | false =>
      refine (evalBlock_renamed h hcall htypes ([] :: env) no).bind fun f => ?_
      rw [Flow.leaving_renamed]
      exact .pure _
  | .print _ value => by
    simp only [evalStmt, htypes]
    refine (evalExpr_renamed h hcall env value).bind fun v => .read _ fun ty => ?_
    rw [Value.format_renamed]
    exact (Eval.Renamed.writeLine _).bind fun _ => .pure (Flow.next env)
  | .block body => by
    simp only [evalStmt]
    exact evalBlock_renamed h hcall htypes env body

theorem evalBlock_renamed (h : p.Renumbered π p') (hcall : RenamedCalls π call call')
    (htypes : ∀ id, types'.find? id = types.find? id) (env : Env) : (b : Block) →
    Eval.Renamed π (Flow.renamed π) (evalBlock p call types env b)
      (evalBlock p' call' types' (env.renamed π) b)
  | .mk body _ => by
    simp only [evalBlock]
    exact evalStmts_renamed h hcall htypes env body

theorem evalStmts_renamed (h : p.Renumbered π p') (hcall : RenamedCalls π call call')
    (htypes : ∀ id, types'.find? id = types.find? id) (env : Env) : (body : List Stmt) →
    Eval.Renamed π (Flow.renamed π) (evalStmts p call types env body)
      (evalStmts p' call' types' (env.renamed π) body)
  | [] => .pure (Flow.next env)
  | s :: rest => by
    simp only [evalStmts]
    refine (evalStmt_renamed h hcall htypes env s).bind fun f => ?_
    cases f with
    | next env' => exact evalStmts_renamed h hcall htypes env' rest
    | back v => exact .pure (Flow.back v)
end

end

/-! ## 4. Calls and programs -/

/-- **A call comes to the same under other numbers.** -/
theorem Program.Renumbered.call (h : p.Renumbered π p')
    (htypes : ∀ id, types'.find? id = types.find? id) (limit : Nat) :
    (left : Nat) → (unit : UnitId) → (args : List Value) →
    Eval.Renamed π (Value.renamed π) (p.call types limit left unit args)
      (p'.call types' limit left (π unit) (renamedItems π args))
  | 0, _, _ => .fault _
  | left + 1, unit, args => by
    simp only [Program.call, h.callables]
    cases p.callables[unit]? with
    | none => exact .stuck
    | some c =>
      simp only [CallableDecl.env_renamed]
      refine (evalStmts_renamed h (h.call htypes limit left) htypes _ c.body).bind fun f => ?_
      rw [Flow.result_renamed]
      exact .pure _

theorem Program.Renumbered.start (h : p.Renumbered π p')
    (htypes : ∀ id, types'.find? id = types.find? id) (limit : Nat) : (left : Nat) →
    Eval.Renamed π id (p.start types limit left) (p'.start types' limit left) := by
  intro left
  cases left with
  | zero => exact .fault _
  | succ left =>
    simp only [Program.start, h.globals, h.main]
    exact (h.call htypes limit left _ []).bind fun _ =>
      (h.call htypes limit left _ []).bind fun _ => .pure ()

/-- **A program ends the same under other numbers,** with the same output. -/
theorem Program.Renumbered.evaluate (h : p.Renumbered π p')
    (htypes : ∀ id, types'.find? id = types.find? id) (limit : Nat) (sink : Sink) :
    p'.evaluate types' limit sink = p.evaluate types limit sink := by
  unfold Program.evaluate
  rw [show p'.start types' limit limit ⟨[], sink⟩ = _ from
    h.start htypes limit limit ⟨[], sink⟩]
  rcases p.start types limit limit ⟨[], sink⟩ with (⟨f, sink'⟩ | _) | ⟨⟨⟩, w⟩ <;> rfl

end Stackling
