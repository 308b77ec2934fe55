import Stackling.Machine.Run
import Stackling.Proofs.Code.Verifier
import Stackling.Proofs.Steps

/-
  File:     Stackling/Proofs/Run/Motion.lean
  Subject:  What one step of the machine can do.

  An instruction changes the operands, stores a local or a global cell, jumps, enters a unit,
  leaves its frame, or writes. Whatever else an instruction does is of no matter to the frames
  and to the global cells.

  * `State.pop_inv`, `State.popMany_inv`, … -- the state before operands were popped;
  * `Op.Moves`    -- what an instruction can do, once its frame has moved on;
  * `exec_moves`, `step_moves` -- nothing else is done;
  * `Travels`     -- what a step does to the frames;
  * `Reachable`   -- the states of a run.
-/
namespace Stackling

/-! ## 1. Operands -/

namespace State

variable {s s' : State} {u : CodeUnit} {v : Value}

/-- The value that was popped stood on top. -/
theorem pop_inv (h : s.pop u = .ok (v, s')) : s = s'.push v := by
  obtain ⟨⟨items, size, hsize⟩, frames, globals, sink⟩ := s
  cases items with
  | nil => cases h
  | cons w rest =>
    cases h
    exact congrArg (State.mk · frames globals sink) (Pile.eq_of_items rfl)

theorem popInt_inv {n : Int64} (h : s.popInt u = .ok (n, s')) : s = s'.push (.int n) := by
  obtain ⟨⟨v, s₁⟩, hp, h⟩ := except_bind_eq_ok.mp h
  cases v <;> cases h
  exact pop_inv hp

theorem popArray_inv {items : List Value} (h : s.popArray u = .ok (items, s')) :
    s = s'.push (.array items) := by
  obtain ⟨⟨v, s₁⟩, hp, h⟩ := except_bind_eq_ok.mp h
  cases v <;> cases h
  exact pop_inv hp

theorem popHash_inv {entries : List (HashKey × Value)} (h : s.popHash u = .ok (entries, s')) :
    s = s'.push (.hash entries) := by
  obtain ⟨⟨v, s₁⟩, hp, h⟩ := except_bind_eq_ok.mp h
  cases v <;> cases h
  exact pop_inv hp

theorem popKey_inv {k : HashKey} (h : s.popKey u = .ok (k, s')) :
    ∃ v : Value, v.key? = some k ∧ s = s'.push v := by
  obtain ⟨⟨v, s₁⟩, hp, h⟩ := except_bind_eq_ok.mp h
  cases hk : v.key? with
  | none =>
    simp only [hk] at h
    cases h
  | some key =>
    simp only [hk] at h
    cases h
    exact ⟨v, hk, pop_inv hp⟩

/-- The values that were popped stood on top, the last of them uppermost. -/
theorem popMany_inv {n : Nat} {args : List Value} (h : s.popMany u n = .ok (args, s')) :
    args.length = n ∧ s.stack.items = args.reverse ++ s'.stack.items ∧
      s' = { s with stack := s'.stack } := by
  unfold popMany Pile.popMany? at h
  by_cases hlt : s.stack.size < n
  · simp only [if_pos hlt] at h
    cases h
  · simp only [if_neg hlt] at h
    cases h
    have hle : n ≤ s.stack.items.length := s.stack.size_eq ▸ Nat.not_lt.mp hlt
    refine ⟨by simp [hle], ?_, rfl⟩
    rw [List.reverse_reverse]
    exact (List.take_append_drop n _).symm

/-- What a call that succeeds does. -/
theorem enter_inv {p : Bytecode} {limit : Nat} {id : UnitId} {args : List Value}
    (h : s.enter p limit id args = .ok s') :
    s.frames.size < limit ∧ ∃ v, p.unit? id = some v ∧ v.arity = args.length ∧
      s' = { s with frames :=
        s.frames.push ⟨id, 0, args, Array.replicate v.locals .void, s.stack.size⟩ } := by
  unfold enter at h
  by_cases hle : limit ≤ s.frames.size
  · rw [if_pos hle] at h
    cases h
  · rw [if_neg hle] at h
    cases hu : p.unit? id with
    | none =>
      rw [hu] at h
      cases h
    | some v =>
      simp only [hu] at h
      by_cases ha : v.arity = args.length
      · rw [if_neg (fun hn => hn ha)] at h
        cases h
        exact ⟨Nat.not_le.mp hle, v, rfl, ha, rfl⟩
      · rw [if_pos ha] at h
        cases h

end State

/-! ## 2. Instructions -/

/-- The frame on top of others, changed. -/
theorem Pile.items_mapTop {α : Type} {s : Pile α} {a : α} {rest : List α} (f : α → α)
    (h : s.items = a :: rest) : (s.mapTop f).items = f a :: rest := by
  obtain ⟨items, size, hsize⟩ := s
  cases h
  rfl

/-- An instruction calls a unit with the given arguments, and there are operands left below. -/
inductive Op.Calls (s : State) : Op → UnitId → List Value → State → Prop
  | direct {id args returns} {stack : Pile Value}
      (hs : s.stack.items = args.reverse ++ stack.items) :
      Calls s (.call id args.length returns) id args { s with stack }
  | indirect {id name args returns} {stack : Pile Value}
      (hs : s.stack.items = args.reverse ++ .callable (.unit id name) :: stack.items) :
      Calls s (.callIndirect args.length returns) id args { s with stack }

/-- A call takes its operands off the stack and does not jump. -/
theorem Op.Calls.spec {s s' : State} {op : Op} {id : UnitId} {args : List Value}
    (h : op.Calls s id args s') : op.falls = true ∧ s' = { s with stack := s'.stack } := by
  cases h <;> exact ⟨rfl, rfl⟩

/-- Whether an instruction may change nothing but the operands. -/
def Op.keeps : Op → Bool
  | storeLocal _ | storeGlobal _ | call _ _ _ | jump _ | ret | retVoid | missingReturn => false
  | _ => true

/-- Such an instruction goes on with the next one. -/
theorem Op.falls_of_keeps {op : Op} (h : op.keeps = true) : op.falls = true := by
  cases op <;> first | rfl | cases h

/-- **What an instruction of the unit `u` can do** to a state in which its frame has moved on
    already. -/
inductive Op.Moves (p : Bytecode) (limit : Nat) (u : CodeUnit) (s : State) : Op → State → Prop
  | operands {op} (stack : Pile Value) (hk : op.keeps = true) :
      Moves p limit u s op { s with stack }
  | storeLocal {slot v} (stack : Pile Value) : Moves p limit u s (.storeLocal slot)
      { s with
        stack
        frames := s.frames.mapTop fun f => { f with locals := f.locals.setIfInBounds slot v } }
  | storeGlobal {cell v} (stack : Pile Value) : Moves p limit u s (.storeGlobal cell)
      { s with stack, globals := s.globals.setIfInBounds cell (some v) }
  | jumps {op l offset} (stack : Pile Value) (ht : op.target? = some l)
      (ho : u.offset? l = some offset) : Moves p limit u s op
        { s with stack, frames := s.frames.mapTop fun f => { f with next := offset } }
  | enters {op id args s₁ s'} (hc : op.Calls s id args s₁)
      (he : s₁.enter p limit id args = .ok s') : Moves p limit u s op s'
  | leaves {op} (stack : Pile Value) (result : Option Value) (hop : op = .ret ∨ op = .retVoid) :
      Moves p limit u s op (State.leave { s with stack } result)
  | prints {ty} (stack : Pile Value) (sink : Sink) :
      Moves p limit u s (.print ty) { s with stack, sink }

namespace Op.Moves

variable {p : Bytecode} {limit : Nat} {u : CodeUnit} {s s₁ s₂ s₃ s' : State} {op : Op}
  {a b c : Value}

/-- Nothing but the operands is changed when some are popped and one is pushed. -/
theorem popped₁ (h : s = s₁.push a) (hk : op.keeps = true) (v : Value) :
    Moves p limit u s op (s₁.push v) := by
  subst h
  exact .operands (s₁.stack.push v) hk

theorem popped₂ (h : s = s₁.push a) (h' : s₁ = s₂.push b) (hk : op.keeps = true) (v : Value) :
    Moves p limit u s op (s₂.push v) := by
  subst h h'
  exact .operands (s₂.stack.push v) hk

theorem popped₃ (h : s = s₁.push a) (h' : s₁ = s₂.push b) (h'' : s₂ = s₃.push c)
    (hk : op.keeps = true) (v : Value) : Moves p limit u s op (s₃.push v) := by
  subst h h' h''
  exact .operands (s₃.stack.push v) hk

end Op.Moves

variable {p : Bytecode} {limit : Nat} {u : CodeUnit} {s s' : State} {op : Op}

/-- **An instruction does nothing else.** -/
theorem exec_moves (h : exec p limit u s op = .ok s') : op.Moves p limit u s s' := by
  cases op with
  | pushInt | pushChar | pushText | pushBuiltin | loadLocal | newArray | newHash =>
    cases h
    exact .operands (s.stack.push _) rfl
  | pushUnit id =>
    simp only [exec] at h
    split at h <;> cases h
    exact .operands (s.stack.push _) rfl
  | loadArg index =>
    simp only [exec] at h
    split at h <;> cases h
    exact .operands (s.stack.push _) rfl
  | loadGlobal cell =>
    simp only [exec] at h
    split at h <;> cases h
    exact .operands (s.stack.push _) rfl
  | storeLocal slot =>
    obtain ⟨⟨v, s₁⟩, hp, h⟩ := except_bind_eq_ok.mp h
    cases h
    rw [State.pop_inv hp]
    exact .storeLocal s₁.stack
  | storeGlobal cell =>
    obtain ⟨⟨v, s₁⟩, hp, h⟩ := except_bind_eq_ok.mp h
    cases h
    rw [State.pop_inv hp]
    exact .storeGlobal s₁.stack
  | pop =>
    obtain ⟨⟨v, s₁⟩, hp, h⟩ := except_bind_eq_ok.mp h
    cases h
    rw [State.pop_inv hp]
    exact .operands s'.stack rfl
  | print ty =>
    obtain ⟨⟨v, s₁⟩, hp, h⟩ := except_bind_eq_ok.mp h
    cases h
    rw [State.pop_inv hp]
    exact .operands s'.stack rfl
  | addInt | subInt | mulInt =>
    obtain ⟨⟨b, s₁⟩, hb, h⟩ := except_bind_eq_ok.mp h
    obtain ⟨⟨a, s₂⟩, ha, h⟩ := except_bind_eq_ok.mp h
    cases h
    exact .popped₂ (State.popInt_inv hb) (State.popInt_inv ha) rfl _
  | divInt =>
    obtain ⟨⟨b, s₁⟩, hb, h⟩ := except_bind_eq_ok.mp h
    obtain ⟨⟨a, s₂⟩, ha, h⟩ := except_bind_eq_ok.mp h
    by_cases hz : b = 0
    · simp only [if_pos hz] at h
      cases h
    · simp only [if_neg hz] at h
      cases h
      exact .popped₂ (State.popInt_inv hb) (State.popInt_inv ha) rfl _
  | concat =>
    obtain ⟨⟨b, s₁⟩, hb, h⟩ := except_bind_eq_ok.mp h
    obtain ⟨⟨a, s₂⟩, ha, h⟩ := except_bind_eq_ok.mp h
    simp only at h
    split at h <;> cases h
    exact .popped₂ (State.pop_inv hb) (State.pop_inv ha) rfl _
  | compare c kind =>
    obtain ⟨⟨b, s₁⟩, hb, h⟩ := except_bind_eq_ok.mp h
    obtain ⟨⟨a, s₂⟩, ha, h⟩ := except_bind_eq_ok.mp h
    obtain ⟨r, -, h⟩ := except_bind_eq_ok.mp h
    cases h
    exact .popped₂ (State.pop_inv hb) (State.pop_inv ha) rfl _
  | intToBool | not =>
    obtain ⟨⟨n, s₁⟩, hn, h⟩ := except_bind_eq_ok.mp h
    cases h
    exact .popped₁ (State.popInt_inv hn) rfl _
  | jump l =>
    simp only [exec, State.jump] at h
    split at h <;> cases h
    rename_i ho
    exact .jumps s.stack rfl ho
  | jumpIf l =>
    obtain ⟨⟨n, s₁⟩, hn, h⟩ := except_bind_eq_ok.mp h
    rw [State.popInt_inv hn]
    by_cases hz : n = 0
    · simp only [if_pos hz] at h
      cases h
      exact .operands s'.stack rfl
    · simp only [if_neg hz, State.jump] at h
      split at h <;> cases h
      rename_i ho
      exact .jumps s₁.stack rfl ho
  | setElement index =>
    obtain ⟨⟨v, s₁⟩, hv, h⟩ := except_bind_eq_ok.mp h
    obtain ⟨⟨items, s₂⟩, ha, h⟩ := except_bind_eq_ok.mp h
    simp only at h
    split at h <;> cases h
    exact .popped₂ (State.pop_inv hv) (State.popArray_inv ha) rfl _
  | insertEntry =>
    obtain ⟨⟨v, s₁⟩, hv, h⟩ := except_bind_eq_ok.mp h
    obtain ⟨⟨key, s₂⟩, hk, h⟩ := except_bind_eq_ok.mp h
    obtain ⟨⟨entries, s₃⟩, he, h⟩ := except_bind_eq_ok.mp h
    cases h
    obtain ⟨w, -, hw⟩ := State.popKey_inv hk
    exact .popped₃ (State.pop_inv hv) hw (State.popHash_inv he) rfl _
  | indexArray =>
    obtain ⟨⟨index, s₁⟩, hi, h⟩ := except_bind_eq_ok.mp h
    obtain ⟨⟨items, s₂⟩, ha, h⟩ := except_bind_eq_ok.mp h
    simp only at h
    split at h <;> cases h
    exact .popped₂ (State.popInt_inv hi) (State.popArray_inv ha) rfl _
  | indexHash =>
    obtain ⟨⟨key, s₁⟩, hk, h⟩ := except_bind_eq_ok.mp h
    obtain ⟨⟨entries, s₂⟩, he, h⟩ := except_bind_eq_ok.mp h
    obtain ⟨w, -, hw⟩ := State.popKey_inv hk
    simp only at h
    split at h <;> cases h
    exact .popped₂ hw (State.popHash_inv he) rfl _
  | call id arity returns =>
    obtain ⟨⟨args, s₁⟩, ha, he⟩ := except_bind_eq_ok.mp h
    obtain ⟨rfl, hs, hs₁⟩ := State.popMany_inv ha
    simp only at he
    rw [hs₁] at he
    exact .enters (.direct hs) he
  | callIndirect arity returns =>
    obtain ⟨⟨args, s₁⟩, ha, h₁⟩ := except_bind_eq_ok.mp h
    obtain ⟨⟨v, s₂⟩, hv, h₂⟩ := except_bind_eq_ok.mp h₁
    obtain ⟨rfl, hs, hs₁⟩ := State.popMany_inv ha
    obtain rfl := State.pop_inv hv
    have hs₂ : s₂ = { s with stack := s₂.stack } := by
      obtain ⟨stack, frames, globals, sink⟩ := s₂
      simp only [State.push, State.mk.injEq, true_and] at hs₁
      simp [hs₁]
    split at h₂
    · rename_i heq
      cases heq
      rw [hs₂] at h₂
      exact .enters (.indirect hs) h₂
    · rename_i heq
      cases heq
      obtain ⟨r, -, hr⟩ := except_bind_eq_ok.mp h₂
      cases hr
      rw [hs₂]
      exact .operands (s₂.stack.push r) rfl
    · cases h₂
  | callBuiltin b =>
    obtain ⟨⟨args, s₁⟩, ha, h⟩ := except_bind_eq_ok.mp h
    obtain ⟨r, -, h⟩ := except_bind_eq_ok.mp h
    cases h
    rw [(State.popMany_inv ha).2.2]
    exact .operands (s₁.stack.push r) rfl
  | ret =>
    obtain ⟨⟨v, s₁⟩, hp, h⟩ := except_bind_eq_ok.mp h
    cases h
    rw [State.pop_inv hp]
    exact .leaves s₁.stack (some v) (.inl rfl)
  | retVoid =>
    cases h
    exact .leaves s.stack none (.inr rfl)
  | missingReturn => cases h

/-! ## 3. Steps -/

/-- The frame before another instruction of its unit. -/
def Frame.goto (f : Frame) (next : Nat) : Frame := { f with next }

/-- The frame after it has moved on to its next instruction. -/
def Frame.moved (f : Frame) : Frame := f.goto (f.next + 1)

/-- The state in which the frame on top has moved on. -/
def State.advance (s : State) : State := { s with frames := s.frames.mapTop Frame.moved }

/-- The frame on top of others moves on. -/
theorem State.advance_items {s : State} {f : Frame} {rest : List Frame}
    (h : s.frames.items = f :: rest) : s.advance.frames.items = f.moved :: rest :=
  Pile.items_mapTop _ h

/-- The frame stands before the instruction `op` of the unit `u`. -/
structure Frame.At (p : Bytecode) (f : Frame) (u : CodeUnit) (op : Op) : Prop where
  unit : p.unit? f.unit = some u
  op : u.ops[f.next]? = some op

/-- **A step goes on with the instruction** that the frame on top stands before. -/
theorem step_moves (h : step p limit s = .running s') :
    ∃ f rest u op, s.frames.items = f :: rest ∧ f.At p u op ∧
      op.Moves p limit u s.advance s' := by
  obtain ⟨stack, ⟨frames, size, hsize⟩, globals, sink⟩ := s
  cases frames with
  | nil => cases h
  | cons f rest =>
    simp only [step, Pile.top?, List.head?_cons] at h
    cases hu : p.unit? f.unit with
    | none =>
      rw [hu] at h
      cases h
    | some u =>
      simp only [hu] at h
      cases hop : u.ops[f.next]? with
      | none =>
        rw [hop] at h
        cases h
      | some op =>
        simp only [hop] at h
        refine ⟨f, rest, u, op, rfl, ⟨hu, hop⟩, ?_⟩
        split at h
        · rename_i ty
          unfold printTop at h
          split at h
          · cases h
          · rename_i v s₁ hp
            split at h <;> cases h
            have hs : State.advance ⟨stack, ⟨f :: rest, size, hsize⟩, globals, sink⟩ = s₁.push v :=
              State.pop_inv hp
            rw [hs]
            exact .prints s₁.stack _
        · split at h <;> cases h
          rename_i hx
          exact exec_moves hx

/-- **What a step does to the frames:** the one on top goes on in its unit, enters another unit,
    or is left. -/
inductive Travels (p : Bytecode) (limit : Nat) : List Frame → List Frame → Prop
  | goes {f f' : Frame} {rest u op} (hu : p.unit? f.unit = some u)
      (hop : u.ops[f.next]? = some op) (hf : f'.unit = f.unit) (hgo : u.Goes f.next op f'.next) :
      Travels p limit (f :: rest) (f' :: rest)
  | enters {f g : Frame} {rest u v op} (hu : p.unit? f.unit = some u)
      (hop : u.ops[f.next]? = some op) (hfalls : op.falls = true)
      (hroom : rest.length + 1 < limit) (hv : p.unit? g.unit = some v) (hg : g.next = 0) :
      Travels p limit (f :: rest) (g :: f.moved :: rest)
  | leaves {f : Frame} {rest u op} (hu : p.unit? f.unit = some u)
      (hop : u.ops[f.next]? = some op) : Travels p limit (f :: rest) rest

theorem State.leave_frames {s : State} {f : Frame} {rest : List Frame} (result : Option Value)
    (h : s.frames.items = f :: rest) : (s.leave result).frames.items = rest := by
  obtain ⟨stack, ⟨frames, size, hsize⟩, globals, sink⟩ := s
  cases h
  cases result <;> rfl

theorem step_travels (h : step p limit s = .running s') :
    Travels p limit s.frames.items s'.frames.items := by
  obtain ⟨f, rest, u, op, hframes, hat, hm⟩ := step_moves h
  have hadvance := State.advance_items hframes
  rw [hframes]
  have goes : ∀ {t : State} {f' : Frame}, t.frames.items = f' :: rest → f'.unit = f.unit →
      u.Goes f.next op f'.next → Travels p limit (f :: rest) t.frames.items :=
    fun ht hf hgo => ht ▸ .goes hat.unit hat.op hf hgo
  cases hm with
  | operands stack hk => exact goes hadvance rfl (.next (Op.falls_of_keeps hk))
  | storeLocal stack => exact goes (Pile.items_mapTop _ hadvance) rfl (.next rfl)
  | storeGlobal stack => exact goes hadvance rfl (.next rfl)
  | jumps stack ht ho => exact goes (Pile.items_mapTop _ hadvance) rfl (.jump ht ho)
  | enters hc he =>
    obtain ⟨hfalls, hs₁⟩ := hc.spec
    obtain ⟨hroom, v, hv, -, rfl⟩ := State.enter_inv he
    rw [hs₁] at hroom ⊢
    rw [Pile.size_eq, show (State.frames _).items = _ from hadvance] at hroom
    rw [Pile.items_push, show (State.frames _).items = _ from hadvance]
    exact .enters hat.unit hat.op hfalls hroom hv rfl
  | leaves stack result hop =>
    have hleave := @State.leave_frames { s.advance with stack } _ _ result hadvance
    exact hleave ▸ .leaves hat.unit hat.op
  | prints stack sink => exact goes hadvance rfl (.next rfl)

/-! ## 4. Reachable states -/

/-- The states that a run comes to, from the call of the entry unit on. -/
inductive Reachable (p : Bytecode) (limit : Nat) (sink : Sink) : State → Prop
  | start {s : State} (h : (State.initial p sink).enter p limit p.entry [] = .ok s) :
      Reachable p limit sink s
  | next {s s' : State} (h : Reachable p limit sink s) (hs : step p limit s = .running s') :
      Reachable p limit sink s'

end Stackling
