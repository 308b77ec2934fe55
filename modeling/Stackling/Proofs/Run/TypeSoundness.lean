import Stackling.Proofs.Code.Compiled
import Stackling.Proofs.Run.StateTyping

/-
  File:     Stackling/Proofs/Run/TypeSoundness.lean
  Subject:  Compiled programs do not go wrong.

  A run of a compiled text ends, and if it ends with a fault, then with one that is the
  program's own doing. On the way everything has the shape of its static type.

  * `ProgramPlaced.enters` -- the first call of a run;
  * `Compiled.ending`      -- how a run ends;
  * `compile_sound`        -- type soundness.
-/
namespace Stackling

variable {p : Program} {types : TypeTable} {code : Bytecode}

/-- **A run starts with the entry unit,** if a frame may be used at all. -/
theorem ProgramPlaced.enters (hp : ProgramPlaced p types code) (limit : Nat) (sink : Sink) :
    ∃ u, code.unit? code.entry = some u ∧
      (State.initial code sink).enter code limit code.entry [] =
        if limit = 0 then .error (.stackOverflow limit)
        else .ok (.of [] [⟨code.entry, 0, [], Array.replicate u.locals .void, 0⟩]
          (Array.replicate code.globals.size none) sink) := by
  obtain ⟨u, hu, ha, -, -⟩ := hp.entry
  have henter := @enter_of code limit [] [] (Array.replicate code.globals.size none) sink _ [] u
    hu ha
  simp only [List.length_nil, Nat.le_zero] at henter
  exact ⟨u, hu, henter⟩

/-- **A run of a compiled program ends without a fault,** but its own. -/
theorem Compiled.ending (h : Compiled p types code) (limit : Nat) (sink : Sink) :
    (execute code limit sink).ending = .done ∨
      ∃ f, (execute code limit sink).ending = .fault f ∧ f.isOwn = true := by
  obtain ⟨n, -, hrun⟩ := (Bytecode.Sound.of_generate h.generated).runEnds limit sink
  generalize execute code limit sink = e at hrun
  cases hrun with
  | refused hstart =>
    obtain ⟨u, -, henter⟩ := h.placed.enters limit sink
    rw [henter] at hstart
    split at hstart <;> cases hstart
    exact .inr ⟨_, rfl, rfl⟩
  | run hstart he => exact (StateTyped.start h.placed hstart).ends h.placed he

/-- **Type soundness.** A run of a compiled text ends, and no fault but one of the program's own
    ends it, whatever number of frames and whatever sink it has. In each state on the way, the
    operands, the arguments, and the locals and global cells that have been stored have the
    shapes of their static types; no operand is `void`, and a local that is loaded has been
    stored. -/
theorem compile_sound {source : String} {options : Options}
    (h : compile source options = .ok code) :
    ∃ p types, parseSource source options = .ok p ∧ analyze p = .ok types ∧
      ∀ limit sink,
        ((execute code limit sink).ending = .done ∨
          ∃ f, (execute code limit sink).ending = .fault f ∧ f.isOwn = true) ∧
        ∀ s, Reachable code limit sink s →
          StateTyped p types code s ∧ (∀ v ∈ s.stack.items, v ≠ .void) ∧
          ∀ f rest u slot, s.frames.items = f :: rest → f.At code u (.loadLocal slot) →
            ∃ v, f.locals[slot]? = some v ∧ v ≠ .void := by
  obtain ⟨p, types, hp, ht, hg⟩ := compile_inv h
  have hc := Compiled.of_stages hp ht hg
  refine ⟨p, types, hp, ht, fun limit sink => ⟨hc.ending limit sink, fun s hs => ?_⟩⟩
  have hstate := hs.typed hc.placed
  exact ⟨hstate, hstate.frames.operands, fun f rest u slot => hstate.loads⟩

/-- A function that calls itself without end, with a local that is stored first. -/
def endlessSource : String :=
  "fn f(n: int): int \x7b let m: int = n + 1 return f(m) \x7d fn main() \x7b print(f(0)) \x7d"

/-- With five frames, it ends with a fault of its own. -/
theorem endless_sound : ∃ code, compile endlessSource ⟨"endless", 5, false⟩ = .ok code ∧
    ∃ f, (execute code 5 .unbounded).ending = .fault f ∧ f.isOwn = true := by
  have hok : (compile endlessSource ⟨"endless", 5, false⟩).isOk = true := by decide +kernel
  have hfault : (compile endlessSource ⟨"endless", 5, false⟩).toOption.all fun code =>
      (execute code 5 .unbounded).ending ≠ .done := by decide +kernel
  obtain ⟨code, hcode⟩ := exists_eq_ok hok
  obtain ⟨p, types, -, -, hsound⟩ := compile_sound hcode
  rw [hcode] at hfault
  exact ⟨code, hcode, (hsound 5 .unbounded).1.resolve_left (of_decide_eq_true hfault)⟩

end Stackling
