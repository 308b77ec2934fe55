import Stackling.Proofs.Run.Motion
import Stackling.Proofs.Run.Operators

/-
  File:     Stackling/Proofs/Run/Stepping.lean
  Subject:  The step that an instruction makes when its operands are there.

  * `State.of`    -- a state by its operands and frames, as lists;
  * `step_gives`  -- instructions that turn operands into a result;
  * `step_loadArg`, `step_jumpIf`, `step_call`, … -- the other instructions.
-/
namespace Stackling

/-- The state with the given operands and frames, the latest first. -/
def State.of (vs : List Value) (fs : List Frame) (globals : Array (Option Value)) (sink : Sink) :
    State := ⟨.ofList vs, .ofList fs, globals, sink⟩

/-- Every state is of this form. -/
theorem State.eq_of (s : State) : s = .of s.stack.items s.frames.items s.globals s.sink := by
  obtain ⟨stack, frames, globals, sink⟩ := s
  have hstack : Pile.ofList stack.items = stack := Pile.eq_of_items rfl
  have hframes : Pile.ofList frames.items = frames := Pile.eq_of_items rfl
  rw [State.of, hstack, hframes]

section

variable {code : Bytecode} {limit : Nat} {u : CodeUnit} {f : Frame} {fs : List Frame}
  {vs : List Value} {globals : Array (Option Value)} {sink : Sink} {v : Value}

/-- What the machine makes of the effect of an instruction. -/
def Outcome.ofResult (sink : Sink) : Except Fault State → Outcome
  | .ok s => .running s
  | .error e => .faulted e sink

/-- **An instruction that writes nothing** has its effect after the frame has moved on. -/
theorem step_exec {op : Op} (h : f.At code u op) (hp : ∀ ty, op ≠ .print ty) :
    step code limit (.of vs (f :: fs) globals sink) =
      .ofResult sink (exec code limit u (.of vs (f.moved :: fs) globals sink) op) := by
  obtain ⟨hu, hop⟩ := h
  have htop : (State.of vs (f :: fs) globals sink).frames.top? = some f := rfl
  simp only [step, htop, hu, hop]
  split
  · rename_i hx
    rw [show exec code limit u (.of vs (f.moved :: fs) globals sink) op = _ from hx]
    rfl
  · rename_i hx
    rw [show exec code limit u (.of vs (f.moved :: fs) globals sink) op = _ from hx]
    rfl

/-- **An instruction turns its operands into a result.** -/
theorem step_gives {op : Op} {popped : List Value} {r : Except Fault Value} (h : f.At code u op)
    (hp : ∀ ty, op ≠ .print ty) (hg : op.Gives code popped r) :
    step code limit (.of (popped ++ vs) (f :: fs) globals sink) =
      .ofResult sink (r.map fun v => .of (v :: vs) (f.moved :: fs) globals sink) := by
  rw [step_exec h hp, State.of, hg limit u vs _ globals sink]
  rfl

theorem step_loadArg {index : Nat} (h : f.At code u (.loadArg index))
    (hv : f.args[index]? = some v) :
    step code limit (.of vs (f :: fs) globals sink) =
      .running (.of (v :: vs) (f.moved :: fs) globals sink) := by
  rw [step_exec h (by simp)]
  have harg : ((State.of vs (f.moved :: fs) globals sink).frames.top?.bind
      fun f => f.args[index]?) = some v := hv
  rw [exec, harg]
  rfl

theorem step_loadLocal {slot : Nat} (h : f.At code u (.loadLocal slot))
    (hv : f.locals[slot]? = some v) :
    step code limit (.of vs (f :: fs) globals sink) =
      .running (.of (v :: vs) (f.moved :: fs) globals sink) := by
  rw [step_exec h nofun]
  show Outcome.running (.of (f.locals[slot]?.getD .void :: vs) (f.moved :: fs) globals sink) = _
  rw [hv]
  rfl

theorem step_loadGlobal {cell : Nat} (h : f.At code u (.loadGlobal cell))
    (hv : globals[cell]? = some (some v)) :
    step code limit (.of vs (f :: fs) globals sink) =
      .running (.of (v :: vs) (f.moved :: fs) globals sink) := by
  rw [step_exec h (by simp)]
  rw [exec, State.of, hv]
  rfl

theorem step_loadGlobal_none {cell : Nat} (h : f.At code u (.loadGlobal cell))
    (hv : globals[cell]? = some none) :
    step code limit (.of vs (f :: fs) globals sink) =
      .faulted (.uninitializedGlobal (code.globals[cell]?.getD "")) sink := by
  rw [step_exec h (by simp)]
  rw [exec, State.of, hv]
  rfl

theorem step_storeLocal {slot : Nat} (h : f.At code u (.storeLocal slot)) :
    step code limit (.of (v :: vs) (f :: fs) globals sink) =
      .running (.of vs ({ f.moved with locals := f.locals.setIfInBounds slot v } :: fs) globals
        sink) :=
  step_exec h nofun

theorem step_storeGlobal {cell : Nat} (h : f.At code u (.storeGlobal cell)) :
    step code limit (.of (v :: vs) (f :: fs) globals sink) =
      .running (.of vs (f.moved :: fs) (globals.setIfInBounds cell (some v)) sink) :=
  step_exec h nofun

theorem step_pop (h : f.At code u .pop) :
    step code limit (.of (v :: vs) (f :: fs) globals sink) =
      .running (.of vs (f.moved :: fs) globals sink) :=
  step_exec h nofun

/-- A line is written, or as much of it as the sink takes. -/
theorem step_print {ty : Ty} (h : f.At code u (.print ty)) :
    step code limit (.of (v :: vs) (f :: fs) globals sink) =
      match sink.write (v.format ty ++ "\n") with
      | (sink, true) => .running (.of vs (f.moved :: fs) globals sink)
      | (sink, false) => .faulted (.output Sink.fullMessage) sink := by
  obtain ⟨hu, hop⟩ := h
  have htop : (State.of (v :: vs) (f :: fs) globals sink).frames.top? = some f := rfl
  simp only [step, htop, hu, hop]
  rfl

theorem step_jump {l : Label} {offset : Nat} (h : f.At code u (.jump l))
    (ho : u.offset? l = some offset) :
    step code limit (.of vs (f :: fs) globals sink) =
      .running (.of vs (f.goto offset :: fs) globals sink) := by
  rw [step_exec h nofun]
  simp only [exec, State.jump, ho]
  rfl

/-- A jump is made if the operand is true. -/
theorem step_jumpIf {l : Label} {offset : Nat} (h : f.At code u (.jumpIf l))
    (ho : u.offset? l = some offset) (b : Bool) :
    step code limit (.of (.ofBool b :: vs) (f :: fs) globals sink) =
      .running (.of vs ((if b then f.goto offset else f.moved) :: fs) globals sink) := by
  rw [step_exec h nofun]
  cases b with
  | false => rfl
  | true =>
    show Outcome.ofResult sink (State.jump (.of vs (f.moved :: fs) globals sink) u l) = _
    simp only [State.jump, ho]
    rfl

/-- **A call** whose operands have been popped. -/
theorem enter_of {id : UnitId} {args : List Value} {w : CodeUnit} (hw : code.unit? id = some w)
    (ha : w.arity = args.length) :
    State.enter (.of vs fs globals sink) code limit id args =
      if limit ≤ fs.length then .error (.stackOverflow limit)
      else .ok (.of vs (⟨id, 0, args, Array.replicate w.locals .void, vs.length⟩ :: fs) globals
        sink) := by
  show (if limit ≤ fs.length then _ else _) = _
  split
  · rfl
  · simp only [hw, if_neg (not_not.mpr ha)]
    rfl

/-- A direct call enters the unit when its arguments have been popped. -/
theorem exec_call {id : UnitId} {args : List Value} {returns : Bool} :
    exec code limit u (.of (args.reverse ++ vs) fs globals sink) (.call id args.length returns) =
      State.enter (.of vs fs globals sink) code limit id args := by
  simp only [exec, State.of, State.popMany, Pile.popMany?_ofList]
  rfl

/-- So does a call of a value, which lies below the arguments. -/
theorem exec_callIndirect {id : UnitId} {name : String} {args : List Value} {returns : Bool} :
    exec code limit u (.of (args.reverse ++ .callable (.unit id name) :: vs) fs globals sink)
      (.callIndirect args.length returns) =
        State.enter (.of vs fs globals sink) code limit id args := by
  simp only [exec, State.of, State.popMany, Pile.popMany?_ofList]
  rfl

/-- An instruction that writes nothing has its effect, whatever the form of the state. -/
theorem step_eq_exec {op : Op} {s : State} (hf : s.frames.items = f :: fs) (hat : f.At code u op)
    (hp : ∀ ty, op ≠ .print ty) :
    step code limit s = .ofResult s.sink (exec code limit u s.advance op) := by
  rw [s.advance.eq_of, State.advance_items hf]
  conv_lhs => rw [s.eq_of, hf]
  exact step_exec hat hp

/-- A call goes on with entering its unit. -/
theorem Op.Calls.exec_eq {op : Op} {id : UnitId} {args : List Value} {s low : State}
    (h : op.Calls s id args low) : exec code limit u s op = low.enter code limit id args := by
  cases h with
  | @direct _ _ returns stack hs =>
    rw [State.eq_of { s with stack }]
    conv_lhs => rw [s.eq_of, hs]
    exact exec_call
  | @indirect _ name _ returns stack hs =>
    rw [State.eq_of { s with stack }]
    conv_lhs => rw [s.eq_of, hs]
    exact exec_callIndirect

/-- **The step of a call** enters the unit, after the frame of the caller has moved on. -/
theorem Op.Calls.step_eq {op : Op} {id : UnitId} {args : List Value} {s low : State}
    (h : op.Calls s.advance id args low) (hf : s.frames.items = f :: fs) (hat : f.At code u op) :
    step code limit s = .ofResult s.sink (low.enter code limit id args) := by
  have hprint : ∀ ty, op ≠ .print ty := by
    rintro ty rfl
    cases h
  rw [step_eq_exec hf hat hprint, h.exec_eq]

theorem step_call {id : UnitId} {args : List Value} {returns : Bool} {w : CodeUnit}
    (h : f.At code u (.call id args.length returns)) (hw : code.unit? id = some w)
    (ha : w.arity = args.length) :
    step code limit (.of (args.reverse ++ vs) (f :: fs) globals sink) =
      .ofResult sink (if limit ≤ fs.length + 1 then .error (.stackOverflow limit)
        else .ok (.of vs (⟨id, 0, args, Array.replicate w.locals .void, vs.length⟩ :: f.moved :: fs)
          globals sink)) := by
  rw [step_exec h nofun, exec_call, enter_of hw ha]
  rfl

theorem step_callIndirect {id : UnitId} {name : String} {args : List Value} {returns : Bool}
    {w : CodeUnit} (h : f.At code u (.callIndirect args.length returns))
    (hw : code.unit? id = some w) (ha : w.arity = args.length) :
    step code limit (.of (args.reverse ++ .callable (.unit id name) :: vs) (f :: fs) globals
      sink) =
      .ofResult sink (if limit ≤ fs.length + 1 then .error (.stackOverflow limit)
        else .ok (.of vs (⟨id, 0, args, Array.replicate w.locals .void, vs.length⟩ :: f.moved :: fs)
          globals sink)) := by
  rw [step_exec h nofun, exec_callIndirect, enter_of hw ha]
  rfl

/-- A built-in that is called as a value takes its arguments and itself off the stack. -/
theorem step_callIndirect_builtin {b : Builtin} {args : List Value} {returns : Bool}
    (h : f.At code u (.callIndirect args.length returns)) :
    step code limit (.of (args.reverse ++ .callable (.builtin b) :: vs) (f :: fs) globals sink) =
      .ofResult sink ((b.apply args).map fun v => .of (v :: vs) (f.moved :: fs) globals sink) := by
  have hg := @step_gives code limit u f fs vs globals sink _ _ _ h nofun
    (gives_callIndirect b args returns)
  rwa [List.append_assoc] at hg

/-- **A frame is left** with a result, and what it had on the stack is dropped. -/
theorem step_ret {dropped : List Value} (h : f.At code u .ret) (hb : f.base = vs.length) :
    step code limit (.of (v :: (dropped ++ vs)) (f :: fs) globals sink) =
      .running (.of (v :: vs) fs globals sink) := by
  rw [step_exec h nofun]
  show Outcome.running ⟨((Pile.ofList (dropped ++ vs)).cutTo f.base).push v, .ofList fs, globals,
    sink⟩ = _
  rw [hb, Pile.cutTo_ofList]
  rfl

theorem step_retVoid {dropped : List Value} (h : f.At code u .retVoid) (hb : f.base = vs.length) :
    step code limit (.of (dropped ++ vs) (f :: fs) globals sink) =
      .running (.of vs fs globals sink) := by
  rw [step_exec h nofun]
  show Outcome.running ⟨(Pile.ofList (dropped ++ vs)).cutTo f.base, .ofList fs, globals, sink⟩ = _
  rw [hb, Pile.cutTo_ofList]
  rfl

end

end Stackling
