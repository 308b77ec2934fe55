import Mathlib.Algebra.Ring.Int.Defs
import Mathlib.Data.Nat.Find
import Stackling.Proofs.Code.Balanced

/-
  File:     Stackling/Proofs/Code/Books.lean
  Subject:  The books of a unit in work.

  What a builder was asked and what it answered is written down in a log, one entry for each
  call. The log alone tells what the builder has to know: the instructions that were accepted and
  the depth after them, the places of the labels, the slots, and for every name the declaration
  that is in force. Whatever is called in whatever order, the builder agrees with the log.

  * `BuilderCall`, `UnitBuilder.answer`, `UnitBuilder.logged` -- calls, answers and logs;
  * `emitted`, `Placed`, `slotsHandedOut`, `Resolves` -- what a log tells;
  * `KeepsCode`, `KeepsLabels`, `KeepsNames` -- a builder agrees with a log, part by part;
  * `Books.step`, `Books.logged` -- one call, and a sequence of calls, keep the books;
  * `UnitBuilder.keeps_books` -- what follows for the builder and for the unit.
-/
namespace Stackling

/-! ## 1. Calls -/

/-- What a builder may be asked. -/
inductive BuilderCall
  | emit (op : Op)
  | makeLabel
  | placeLabel (l : Label)
  | enterScope
  | exitScope
  | declareArg (name : String) (index : Nat)
  | declareLocal (name : String)

/-- What is answered. -/
inductive BuilderAnswer
  | done
  | refused (fault : CodeFault)
  | label (l : Label)
  | slot (n : Nat)

/-- The answer of a builder to a call, and the builder after it. An instruction that is refused
    leaves the builder as it is. -/
def UnitBuilder.answer (b : UnitBuilder) : BuilderCall → BuilderAnswer × UnitBuilder
  | .emit op =>
    match b.emit op with
    | .ok b' => (.done, b')
    | .error fault => (.refused fault, b)
  | .makeLabel => (.label b.makeLabel.1, b.makeLabel.2)
  | .placeLabel l => (.done, b.placeLabel l)
  | .enterScope => (.done, b.enterScope)
  | .exitScope => (.done, b.exitScope)
  | .declareArg name index => (.done, b.declareArg name index)
  | .declareLocal name => (.slot (b.declareLocal name).1, (b.declareLocal name).2)

/-- Calls with their answers, the first one first. -/
abbrev BuilderLog := List (BuilderCall × BuilderAnswer)

/-- The log with some more calls at its end, and the builder after them. -/
def UnitBuilder.logged (b : UnitBuilder) (log : BuilderLog) :
    List BuilderCall → BuilderLog × UnitBuilder
  | [] => (log, b)
  | c :: rest => (b.answer c).2.logged (log ++ [(c, (b.answer c).1)]) rest

/-! ## 2. What a log tells -/

/-- The instructions that were accepted. -/
def emitted (log : BuilderLog) : List Op :=
  log.filterMap fun
    | (.emit op, .done) => some op
    | _ => none

/-- The labels that were made. -/
def labelsMade (log : BuilderLog) : List Label :=
  log.filterMap fun
    | (_, .label l) => some l
    | _ => none

/-- The slots that were handed out for locals. -/
def slotsHandedOut (log : BuilderLog) : List Nat :=
  log.filterMap fun
    | (_, .slot n) => some n
    | _ => none

/-- How many scopes are open after a call. Where none is open, none is left. -/
def BuilderCall.scopesAfter (level : Nat) : BuilderCall → Nat
  | .enterScope => level + 1
  | .exitScope => level - 1
  | _ => level

/-- How many scopes are open. -/
def openScopes (log : BuilderLog) : Nat := log.foldl (fun level e => e.1.scopesAfter level) 0

/-- What some instructions add to the depth of the operand stack. -/
def stackEffect (ops : List Op) : Int := (ops.map fun op => (op.pushes : Int) - op.pops).sum

/-- **A label was placed** at an offset: after it had been made, that many instructions had been
    accepted when it was placed for the last time. -/
def Placed (log : BuilderLog) (l : Label) (offset : Nat) : Prop :=
  ∃ before after, log = before ++ (.placeLabel l, .done) :: after ∧ l ∈ labelsMade before ∧
    (emitted before).length = offset ∧ ∀ e ∈ after, e.1 ≠ .placeLabel l

/-- An entry declares a name for a slot. -/
inductive DeclaresSlot : BuilderCall × BuilderAnswer → String → Slot → Prop
  | arg {name index} : DeclaresSlot (.declareArg name index, .done) name (.arg index)
  | loc {name n} : DeclaresSlot (.declareLocal name, .slot n) name (.loc n)

/-- **A declaration is in force:** it was made behind the entries `before`, in the scope that was
    the innermost then, and that scope has not been left since. -/
def InForce (log before : BuilderLog) (name : String) (slot : Slot) : Prop :=
  ∃ entry after, log = before ++ entry :: after ∧ DeclaresSlot entry name slot ∧
    0 < openScopes before ∧
    ∀ during, during <+: after → openScopes before ≤ openScopes (before ++ entry :: during)

/-- **The slot of a name:** that of the latest declaration in force in the innermost scope that
    has one. -/
def Resolves (log : BuilderLog) (name : String) (slot : Slot) : Prop :=
  ∃ before, InForce log before name slot ∧ ∀ before' slot', InForce log before' name slot' →
    openScopes before' < openScopes before ∨
      openScopes before' = openScopes before ∧ before'.length ≤ before.length

section

variable {log before : BuilderLog} {e : BuilderCall × BuilderAnswer} {l : Label} {offset m : Nat}
  {name : String} {slot : Slot}

theorem emitted_append (log more : BuilderLog) :
    emitted (log ++ more) = emitted log ++ emitted more := List.filterMap_append

theorem labelsMade_append (log more : BuilderLog) :
    labelsMade (log ++ more) = labelsMade log ++ labelsMade more := List.filterMap_append

theorem slotsHandedOut_append (log more : BuilderLog) :
    slotsHandedOut (log ++ more) = slotsHandedOut log ++ slotsHandedOut more :=
  List.filterMap_append

theorem openScopes_concat (log : BuilderLog) (e : BuilderCall × BuilderAnswer) :
    openScopes (log ++ [e]) = e.1.scopesAfter (openScopes log) := by
  rw [openScopes, List.foldl_append]
  rfl

theorem stackEffect_concat (ops : List Op) (op : Op) :
    stackEffect (ops ++ [op]) = stackEffect ops + (op.pushes - op.pops) := by
  simp [stackEffect]

/-- A list with one more item is cut before that item, or before an earlier one. -/
theorem concat_eq_append_cons {α : Type} {xs ys zs : List α} {x y : α} :
    xs ++ [x] = ys ++ y :: zs ↔
      (xs = ys ∧ x = y ∧ zs = []) ∨ ∃ zs', zs = zs' ++ [x] ∧ xs = ys ++ y :: zs' := by
  constructor
  · intro h
    rcases List.eq_nil_or_concat zs with rfl | ⟨zs', z, rfl⟩
    · obtain ⟨rfl, hx⟩ := List.append_inj' h rfl
      cases hx
      exact .inl ⟨rfl, rfl, rfl⟩
    · rw [List.concat_eq_append, ← List.cons_append, ← List.append_assoc] at h
      obtain ⟨rfl, hx⟩ := List.append_inj' h rfl
      cases hx
      exact .inr ⟨zs', List.concat_eq_append, rfl⟩
  · rintro (⟨rfl, rfl, rfl⟩ | ⟨zs', rfl, rfl⟩)
    · rfl
    · simp

/-- **The place of a label** is that of a new entry, or stays as it was. -/
theorem placed_concat : Placed (log ++ [e]) l offset ↔
    (e = (.placeLabel l, .done) ∧ l ∈ labelsMade log ∧ (emitted log).length = offset) ∨
      e.1 ≠ .placeLabel l ∧ Placed log l offset := by
  constructor
  · rintro ⟨before, after, hlog, hmade, hoffset, hafter⟩
    rcases concat_eq_append_cons.mp hlog with ⟨rfl, rfl, rfl⟩ | ⟨after, rfl, rfl⟩
    · exact .inl ⟨rfl, hmade, hoffset⟩
    · rw [List.forall_mem_append, List.forall_mem_singleton] at hafter
      exact .inr ⟨hafter.2, before, after, rfl, hmade, hoffset, hafter.1⟩
  · rintro (⟨rfl, hmade, hoffset⟩ | ⟨hne, before, after, rfl, hmade, hoffset, hafter⟩)
    · exact ⟨log, [], rfl, hmade, hoffset, nofun⟩
    · refine ⟨before, after ++ [e], by simp, hmade, hoffset, ?_⟩
      exact List.forall_mem_append.mpr ⟨hafter, List.forall_mem_singleton.mpr hne⟩

theorem Placed.made (h : Placed log l offset) : l ∈ labelsMade log := by
  obtain ⟨before, after, rfl, hmade, -⟩ := h
  rw [labelsMade_append]
  exact List.mem_append_left _ hmade

theorem Placed.le (h : Placed log l offset) : offset ≤ (emitted log).length := by
  obtain ⟨before, after, rfl, -, rfl, -⟩ := h
  rw [emitted_append, List.length_append]
  exact Nat.le_add_right _ _

/-- The scope of a declaration in force is open. -/
theorem InForce.le (h : InForce log before name slot) : openScopes before ≤ openScopes log := by
  obtain ⟨entry, after, rfl, -, -, hopen⟩ := h
  exact hopen after (List.prefix_refl _)

theorem InForce.length_lt (h : InForce log before name slot) : before.length < log.length := by
  obtain ⟨entry, after, rfl, -⟩ := h
  simp

/-- **A declaration in force** was so before and its scope is still open, or it is a new one. -/
theorem inForce_concat : InForce (log ++ [e]) before name slot ↔
    (InForce log before name slot ∧ openScopes before ≤ openScopes (log ++ [e])) ∨
      before = log ∧ DeclaresSlot e name slot ∧ 0 < openScopes log := by
  constructor
  · intro h
    have hle := h.le
    obtain ⟨entry, after, hlog, hdeclares, hpos, hopen⟩ := h
    rcases concat_eq_append_cons.mp hlog with ⟨rfl, rfl, rfl⟩ | ⟨after, rfl, rfl⟩
    · exact .inr ⟨rfl, hdeclares, hpos⟩
    · exact .inl ⟨⟨entry, after, rfl, hdeclares, hpos,
        fun during hp => hopen during (hp.trans (List.prefix_append _ _))⟩, hle⟩
  · rintro (⟨⟨entry, after, rfl, hdeclares, hpos, hopen⟩, hle⟩ | ⟨rfl, hdeclares, hpos⟩)
    · refine ⟨entry, after ++ [e], by simp, hdeclares, hpos, fun during hp => ?_⟩
      rcases List.prefix_concat_iff.mp hp with rfl | hp
      · simpa using hle
      · exact hopen during hp
    · refine ⟨e, [], rfl, hdeclares, hpos, fun during hp => ?_⟩
      rw [List.prefix_nil.mp hp, openScopes_concat]
      cases hdeclares <;> exact Nat.le_refl _

end

/-! ## 3. A builder and its log -/

/-- **The code agrees with the log,** and no instruction took more than was there. -/
structure KeepsCode (log : BuilderLog) (ops : Array Op) (depth : Nat) : Prop where
  ops : ops.toList = emitted log
  depth : (depth : Int) = stackEffect (emitted log)
  covered : ∀ before op after, emitted log = before ++ op :: after →
    (op.pops : Int) ≤ stackEffect before

/-- **The labels agree with the log.** -/
structure KeepsLabels (log : BuilderLog) (labels : Array (Option Nat)) : Prop where
  made : labelsMade log = List.range labels.size
  placed : ∀ (l : Label) (offset : Nat),
    labels[l]? = some (some offset) ↔ Placed log l offset

/-- The latest declaration of a name that is in force in the `m` outermost scopes. -/
def Latest (log : BuilderLog) (m : Nat) (before : BuilderLog) (name : String) (slot : Slot) :
    Prop :=
  InForce log before name slot ∧ openScopes before ≤ m ∧ ∀ before' slot',
    InForce log before' name slot' → openScopes before' ≤ m → before'.length ≤ before.length

/-- **The names agree with the log:** the outermost scopes, any number of them, hold the latest
    declarations in these. -/
structure KeepsNames (log : BuilderLog) (scopes : List (List (String × Slot))) : Prop where
  level : scopes.length = openScopes log
  found : ∀ m ≤ scopes.length, ∀ name slot,
    (scopes.drop (scopes.length - m)).findSome? (List.lookup name) = some slot ↔
      ∃ before, Latest log m before name slot

/-- **The books of a builder.** -/
structure Books (log : BuilderLog) (b : UnitBuilder) : Prop where
  code : KeepsCode log b.ops b.depth
  labels : KeepsLabels log b.labels
  slots : slotsHandedOut log = List.range b.locals
  names : KeepsNames log b.scopes

variable {log : BuilderLog} {b : UnitBuilder} {e : BuilderCall × BuilderAnswer}

/-! ## 4. Code and labels -/

namespace KeepsCode

variable {ops : Array Op} {depth : Nat}

/-- A call that accepts no instruction is of no matter to the code. -/
theorem other (h : KeepsCode log ops depth) (he : emitted [e] = []) :
    KeepsCode (log ++ [e]) ops depth := by
  have hsame : emitted (log ++ [e]) = emitted log := by
    rw [emitted_append, he, List.append_nil]
  exact ⟨hsame ▸ h.ops, hsame ▸ h.depth, hsame ▸ h.covered⟩

/-- **One more instruction** takes what is there. -/
theorem emit (h : KeepsCode log ops depth) {op : Op} (hp : op.pops ≤ depth) :
    KeepsCode (log ++ [(.emit op, .done)]) (ops.push op) (depth - op.pops + op.pushes) := by
  have hmore : emitted (log ++ [(.emit op, .done)]) = emitted log ++ [op] := by
    rw [emitted_append]
    rfl
  refine ⟨?_, ?_, fun before op' after hsplit => ?_⟩
  · rw [Array.toList_push, h.ops, hmore]
  · rw [hmore, stackEffect_concat, ← h.depth]
    omega
  · rw [hmore] at hsplit
    rcases concat_eq_append_cons.mp hsplit with ⟨hbefore, rfl, -⟩ | ⟨after', -, hbefore⟩
    · rw [← hbefore, ← h.depth]
      exact Int.ofNat_le.mpr hp
    · exact h.covered _ _ _ hbefore

end KeepsCode

namespace KeepsLabels

variable {labels : Array (Option Nat)}

theorem mem_iff (h : KeepsLabels log labels) {l : Label} :
    l ∈ labelsMade log ↔ l < labels.size := by
  rw [h.made, List.mem_range]

/-- A call that neither makes nor places a label is of no matter to the labels. -/
theorem other (h : KeepsLabels log labels) (hm : labelsMade [e] = [])
    (hp : ∀ l, e.1 ≠ .placeLabel l) : KeepsLabels (log ++ [e]) labels where
  made := by rw [labelsMade_append, hm, List.append_nil, h.made]
  placed l offset := by
    rw [h.placed, placed_concat]
    constructor
    · exact fun hl => .inr ⟨hp l, hl⟩
    · rintro (⟨rfl, -⟩ | ⟨-, hl⟩)
      · exact absurd rfl (hp l)
      · exact hl

/-- A new label has no place. -/
theorem make (h : KeepsLabels log labels) :
    KeepsLabels (log ++ [(.makeLabel, .label labels.size)]) (labels.push none) where
  made := by
    rw [labelsMade_append, h.made, Array.size_push, List.range_succ]
    rfl
  placed l offset := by
    have hsame : (labels.push none)[l]? = some (some offset) ↔ labels[l]? = some (some offset) := by
      rw [Array.getElem?_push]
      split
      · rename_i hl
        rw [hl, Array.getElem?_size]
        simp
      · rfl
    rw [hsame, h.placed, placed_concat]
    simp

/-- **A label is placed** before the next instruction, if it has been made. -/
theorem place (h : KeepsLabels log labels) (l : Label) :
    KeepsLabels (log ++ [(.placeLabel l, .done)])
      (labels.setIfInBounds l (some (emitted log).length)) where
  made := by
    rw [labelsMade_append, h.made, Array.size_setIfInBounds]
    exact List.append_nil _
  placed l' offset := by
    rw [placed_concat, Array.getElem?_setIfInBounds]
    by_cases hl : l = l'
    · subst hl
      rw [if_pos rfl, h.mem_iff]
      by_cases hlt : l < labels.size
      · simp [hlt]
      · simp [hlt]
    · rw [if_neg hl, h.placed]
      simp [hl]

end KeepsLabels

/-! ## 5. Names -/

section

variable {before : BuilderLog} {name : String} {slot : Slot} {m : Nat}

/-- What is in force in the outermost scopes stays so while these are open, unless the name is
    declared in one of them. -/
theorem latest_concat (hm : m ≤ openScopes (log ++ [e]))
    (hd : ∀ slot, DeclaresSlot e name slot → 0 < openScopes log → m < openScopes log) :
    Latest (log ++ [e]) m before name slot ↔ Latest log m before name slot := by
  have hsame : ∀ before slot, openScopes before ≤ m →
      (InForce (log ++ [e]) before name slot ↔ InForce log before name slot) := by
    intro before slot hle
    rw [inForce_concat]
    constructor
    · rintro (⟨h, -⟩ | ⟨rfl, hdeclares, hpos⟩)
      · exact h
      · exact absurd hle (Nat.not_le.mpr (hd _ hdeclares hpos))
    · exact fun h => .inl ⟨h, Nat.le_trans hle hm⟩
  constructor
  · rintro ⟨h, hle, hlast⟩
    exact ⟨(hsame _ _ hle).mp h, hle, fun before' slot' h' hle' =>
      hlast before' slot' ((hsame _ _ hle').mpr h') hle'⟩
  · rintro ⟨h, hle, hlast⟩
    exact ⟨(hsame _ _ hle).mpr h, hle, fun before' slot' h' hle' =>
      hlast before' slot' ((hsame _ _ hle').mp h') hle'⟩

/-- **What is declared later stands in no outer scope,** among the declarations in force. -/
theorem InForce.open_le {before' : BuilderLog} {name' : String} {slot' : Slot}
    (h : InForce log before name slot) (h' : InForce log before' name' slot')
    (hle : before.length ≤ before'.length) : openScopes before ≤ openScopes before' := by
  obtain ⟨entry, after, hlog, -, -, hopen⟩ := h
  obtain ⟨entry', after', hlog', -⟩ := h'
  obtain ⟨more, rfl⟩ := List.prefix_of_prefix_length_le ⟨_, hlog.symm⟩ ⟨_, hlog'.symm⟩ hle
  cases more with
  | nil => exact Nat.le_of_eq (congrArg openScopes (List.append_nil before).symm)
  | cons x during =>
    rw [hlog', List.append_assoc, List.append_cancel_left_eq, List.cons_append,
      List.cons.injEq] at hlog
    obtain ⟨rfl, rfl⟩ := hlog
    exact hopen during (List.prefix_append _ _)

/-- So the latest one is the latest in the innermost scope that has one. -/
theorem exists_latest_iff :
    (∃ before, Latest log (openScopes log) before name slot) ↔ Resolves log name slot := by
  refine exists_congr fun before => ⟨?_, ?_⟩
  · rintro ⟨h, -, hlast⟩
    refine ⟨h, fun before' slot' h' => ?_⟩
    have hle := hlast before' slot' h' h'.le
    rcases Nat.lt_or_eq_of_le (h'.open_le h hle) with hlt | heq
    · exact .inl hlt
    · exact .inr ⟨heq, hle⟩
  · rintro ⟨h, hlast⟩
    refine ⟨h, h.le, fun before' slot' h' _ => ?_⟩
    by_contra hlt
    have hle := h.open_le h' (Nat.le_of_not_le hlt)
    rcases hlast before' slot' h' with hlt' | ⟨-, hle'⟩
    · exact absurd hle (Nat.not_le.mpr hlt')
    · exact hlt hle'

/-- A name that is declared has a slot. -/
theorem InForce.resolves (h : InForce log before name slot) : ∃ slot', Resolves log name slot' := by
  classical
  let P : Nat → Prop := fun n => ∃ before slot, InForce log before name slot ∧ before.length = n
  have hP : P before.length := ⟨before, slot, h, rfl⟩
  have hle := Nat.le_of_lt h.length_lt
  obtain ⟨last, slot', hlast, hlength⟩ := Nat.findGreatest_spec hle hP
  refine ⟨slot', exists_latest_iff.mp ⟨last, hlast, hlast.le, fun before' slot'' h' _ => ?_⟩⟩
  rw [hlength]
  exact Nat.le_findGreatest (Nat.le_of_lt h'.length_lt) ⟨before', slot'', h', rfl⟩

/-- There is nothing above the open scopes. -/
theorem latest_above : Latest log (openScopes log + m) before name slot ↔
    Latest log (openScopes log) before name slot := by
  constructor
  · rintro ⟨h, -, hlast⟩
    exact ⟨h, h.le, fun before' slot' h' hle' =>
      hlast before' slot' h' (Nat.le_trans hle' (Nat.le_add_right _ _))⟩
  · rintro ⟨h, hle, hlast⟩
    exact ⟨h, Nat.le_trans hle (Nat.le_add_right _ _), fun before' slot' h' _ =>
      hlast before' slot' h' h'.le⟩

end

namespace KeepsNames

variable {scopes : List (List (String × Slot))} {name : String} {slot : Slot}

/-- A call that does not change the scopes is of no matter to the names, and a declaration is of
    none where no scope is open. -/
theorem other (h : KeepsNames log scopes) (hs : openScopes (log ++ [e]) = openScopes log)
    (hd : ∀ name slot, DeclaresSlot e name slot → openScopes log = 0) :
    KeepsNames (log ++ [e]) scopes where
  level := by rw [hs, h.level]
  found m hm name slot := by
    have hopen : m ≤ openScopes (log ++ [e]) := by rwa [hs, ← h.level]
    rw [h.found m hm]
    exact exists_congr fun before => (latest_concat hopen fun slot he hpos =>
      absurd (hd name slot he) (Nat.ne_of_gt hpos)).symm

/-- Nothing is declared in a new scope. -/
theorem enter (h : KeepsNames log scopes) :
    KeepsNames (log ++ [(.enterScope, .done)]) ([] :: scopes) where
  level := by rw [openScopes_concat, List.length_cons, h.level]; rfl
  found m hm name slot := by
    have hopen : openScopes (log ++ [(.enterScope, .done)]) = scopes.length + 1 := by
      rw [openScopes_concat, h.level]
      rfl
    have hlatest : ∀ before, Latest (log ++ [(.enterScope, .done)]) m before name slot ↔
        Latest log m before name slot := fun before => latest_concat (by rwa [hopen]) nofun
    simp only [hlatest]
    rcases Nat.lt_or_eq_of_le hm with hlt | rfl
    · have hle : m ≤ scopes.length := Nat.lt_succ_iff.mp hlt
      rw [List.length_cons, Nat.succ_sub hle, List.drop_succ_cons, h.found m hle]
    · have hall := h.found scopes.length (Nat.le_refl _) name slot
      rw [Nat.sub_self, List.drop_zero] at hall
      rw [Nat.sub_self, List.drop_zero, List.findSome?_cons, List.lookup_nil, hall,
        List.length_cons, h.level]
      simp only [latest_above]

/-- **Leaving a scope** ends what was declared in it. -/
theorem exit (h : KeepsNames log scopes) :
    KeepsNames (log ++ [(.exitScope, .done)]) scopes.tail where
  level := by rw [openScopes_concat, List.length_tail, h.level]; rfl
  found m hm name slot := by
    rw [List.length_tail] at hm
    have hlatest : ∀ before, Latest (log ++ [(.exitScope, .done)]) m before name slot ↔
        Latest log m before name slot := fun before =>
      latest_concat (by rw [openScopes_concat, ← h.level]; exact hm) nofun
    simp only [hlatest]
    rw [← h.found m (by omega)]
    cases scopes with
    | nil => rfl
    | cons scope rest =>
      have hle : m ≤ rest.length := hm
      rw [List.tail_cons, List.length_cons, Nat.succ_sub hle, List.drop_succ_cons]

/-- **A declaration** hides all others of its name. -/
theorem declare {scope : List (String × Slot)} {rest : List (List (String × Slot))} {n : String}
    {s : Slot} (h : KeepsNames log (scope :: rest)) (hd : DeclaresSlot e n s) :
    KeepsNames (log ++ [e]) (((n, s) :: scope) :: rest) := by
  have hs : openScopes (log ++ [e]) = openScopes log := by
    rw [openScopes_concat]
    cases hd <;> rfl
  have hlevel : openScopes log = rest.length + 1 := h.level.symm
  refine ⟨by rw [hs, hlevel]; rfl, fun m hm name slot => ?_⟩
  have hopen : m ≤ openScopes (log ++ [e]) := by rwa [hs, hlevel]
  rcases Nat.lt_or_eq_of_le hm with hlt | rfl
  · -- the innermost scope is not among the outermost ones
    have hle : m ≤ rest.length := Nat.lt_succ_iff.mp hlt
    have hfound := h.found m (Nat.le_succ_of_le hle) name slot
    rw [List.length_cons, Nat.succ_sub hle, List.drop_succ_cons] at hfound ⊢
    rw [hfound]
    exact exists_congr fun before =>
      (latest_concat hopen fun _ _ _ => hlevel ▸ hlt).symm
  · have hall := h.found (rest.length + 1) (Nat.le_refl _) name slot
    rw [List.length_cons, Nat.sub_self, List.drop_zero, List.findSome?_cons] at hall ⊢
    by_cases hn : name = n
    · subst hn
      rw [List.lookup_cons, beq_self_eq_true]
      have hnew : InForce (log ++ [e]) log name s :=
        inForce_concat.mpr (.inr ⟨rfl, hd, by omega⟩)
      constructor
      · intro heq
        cases heq
        refine ⟨log, hnew, Nat.le_of_eq hlevel, fun before' slot' h' _ => ?_⟩
        simpa [Nat.lt_succ_iff] using h'.length_lt
      · rintro ⟨before, hforce, -, hlast⟩
        rcases inForce_concat.mp hforce with ⟨hold, -⟩ | ⟨-, hd', -⟩
        · exact absurd (hlast log s hnew (Nat.le_of_eq hlevel)) (Nat.not_le.mpr hold.length_lt)
        · cases hd <;> cases hd' <;> rfl
    · have hne : (name == n) = false := beq_eq_false_iff_ne.mpr hn
      rw [List.lookup_cons, hne]
      refine hall.trans (exists_congr fun before =>
        (latest_concat hopen fun slot' hd' _ => ?_).symm)
      cases hd <;> cases hd' <;> exact absurd rfl hn

/-- The slot that is found is that of the latest declaration in force in the innermost scope. -/
theorem resolves (h : KeepsNames log scopes) :
    scopes.findSome? (List.lookup name) = some slot ↔ Resolves log name slot := by
  have hall := h.found scopes.length (Nat.le_refl _) name slot
  rw [Nat.sub_self, List.drop_zero, h.level] at hall
  exact hall.trans exists_latest_iff

/-- Nothing is found if no declaration is in force. -/
theorem resolves_none (h : KeepsNames log scopes) :
    scopes.findSome? (List.lookup name) = none ↔ ∀ before slot, ¬ InForce log before name slot := by
  rw [Option.eq_none_iff_forall_ne_some]
  constructor
  · intro hnone before slot hforce
    obtain ⟨slot', hslot⟩ := hforce.resolves
    exact hnone slot' (h.resolves.mpr hslot)
  · intro hno slot hsome
    obtain ⟨before, hforce, -⟩ := h.resolves.mp hsome
    exact hno before slot hforce

end KeepsNames

/-! ## 6. Every sequence of calls -/

namespace UnitBuilder

theorem emit_of_le {op : Op} (h : op.pops ≤ b.depth) : b.emit op =
    .ok { b with depth := b.depth - op.pops + op.pushes, ops := b.ops.push op } :=
  if_neg (Nat.not_lt.mpr h)

theorem emit_of_lt {op : Op} (h : b.depth < op.pops) :
    b.emit op = .error (.stackImbalance b.name op.pops b.depth) := if_pos h

end UnitBuilder

/-- A binding changes the scopes only. -/
theorem UnitBuilder.bind_eq (b : UnitBuilder) (name : String) (slot : Slot) :
    b.bind name slot = { b with scopes := (b.bind name slot).scopes } := by
  unfold UnitBuilder.bind
  split <;> rfl

namespace Books

/-- A new builder has nothing in its books. -/
theorem new (id : UnitId) (name : String) (arity : Nat) (returns : Ty) (initializer : Bool) :
    Books [] { UnitBuilder.new id name arity returns with initializer } where
  code := ⟨rfl, rfl, fun before op after h => by simp [emitted] at h⟩
  labels := ⟨rfl, fun l offset => by
    constructor
    · intro h
      simp [UnitBuilder.new] at h
    · rintro ⟨before, after, h, -⟩
      simp at h⟩
  slots := rfl
  names := ⟨rfl, fun m hm name slot => by
    constructor
    · intro h
      simp [UnitBuilder.new] at h
    · rintro ⟨before, ⟨entry, after, h, -⟩, -⟩
      simp at h⟩

/-- Another name for a slot is declared where a scope is open. -/
theorem bind (h : Books log b) {name : String} {slot : Slot} (hd : DeclaresSlot e name slot) :
    KeepsNames (log ++ [e]) (b.bind name slot).scopes := by
  unfold UnitBuilder.bind
  cases hs : b.scopes with
  | nil =>
    have hnames := h.names
    rw [hs] at hnames
    simp only [hs]
    refine hnames.other ?_ fun _ _ _ => hnames.level.symm
    rw [openScopes_concat]
    cases hd <;> rfl
  | cons scope rest =>
    have hnames := h.names
    rw [hs] at hnames
    exact hnames.declare hd

/-- **One call keeps the books.** -/
theorem step (h : Books log b) (c : BuilderCall) :
    Books (log ++ [(c, (b.answer c).1)]) (b.answer c).2 := by
  have slots : ∀ {a : BuilderAnswer}, slotsHandedOut [(c, a)] = [] →
      slotsHandedOut (log ++ [(c, a)]) = List.range b.locals := by
    intro a ha
    rw [slotsHandedOut_append, ha, List.append_nil, h.slots]
  cases c with
  | emit op =>
    rw [UnitBuilder.answer]
    by_cases hp : op.pops ≤ b.depth
    · rw [UnitBuilder.emit_of_le hp]
      exact ⟨h.code.emit hp, h.labels.other rfl nofun, slots rfl,
        h.names.other (openScopes_concat _ _) nofun⟩
    · rw [UnitBuilder.emit_of_lt (Nat.not_le.mp hp)]
      exact ⟨h.code.other rfl, h.labels.other rfl nofun, slots rfl,
        h.names.other (openScopes_concat _ _) nofun⟩
  | makeLabel =>
    exact ⟨h.code.other rfl, h.labels.make, slots rfl,
      h.names.other (openScopes_concat _ _) nofun⟩
  | placeLabel l =>
    have hsize : (emitted log).length = b.ops.size := by rw [← h.code.ops, Array.length_toList]
    have hplaced := h.labels.place l
    rw [hsize] at hplaced
    exact ⟨h.code.other rfl, hplaced, slots rfl,
      h.names.other (openScopes_concat _ _) nofun⟩
  | enterScope =>
    exact ⟨h.code.other rfl, h.labels.other rfl nofun, slots rfl, h.names.enter⟩
  | exitScope =>
    exact ⟨h.code.other rfl, h.labels.other rfl nofun, slots rfl, h.names.exit⟩
  | declareArg name index =>
    show Books _ (b.bind name (.arg index))
    rw [UnitBuilder.bind_eq]
    exact ⟨h.code.other rfl, h.labels.other rfl nofun, slots rfl, h.bind .arg⟩
  | declareLocal name =>
    show Books _ { b.bind name (.loc b.locals) with locals := b.locals + 1 }
    rw [UnitBuilder.bind_eq]
    refine ⟨h.code.other rfl, h.labels.other rfl nofun, ?_, h.bind .loc⟩
    rw [slotsHandedOut_append, h.slots]
    exact List.range_succ.symm

/-- **So does a sequence of calls.** -/
theorem logged (h : Books log b) (calls : List BuilderCall) :
    Books (b.logged log calls).1 (b.logged log calls).2 := by
  induction calls generalizing log b with
  | nil => exact h
  | cons c rest ih => exact ih (h.step c)

/-- A label was made and placed if its offset is known. -/
theorem all_placed_iff (h : Books log b) :
    (∀ l ∈ labelsMade log, ∃ offset, Placed log l offset) ↔
      ∀ l < b.labels.size, ∃ offset, b.labels[l]? = some (some offset) := by
  simp only [h.labels.mem_iff, h.labels.placed]

/-- **The labels of the unit** stand where they were placed, -/
theorem finish_offset (h : Books log b) {u : CodeUnit} (hu : b.finish = .ok u) {l : Label}
    {offset : Nat} : u.offset? l = some offset ↔ Placed log l offset := by
  obtain ⟨-, -, -, -, -, -, -, -, hlabels⟩ := finish_inv hu
  rw [hlabels, h.labels.placed]

/-- before one of its instructions. -/
theorem finish_below (h : Books log b) {u : CodeUnit} (hu : b.finish = .ok u) {l : Label}
    {offset : Nat} (hl : u.offset? l = some offset) : offset < u.ops.size := by
  obtain ⟨-, -, -, -, -, -, huops, -, -⟩ := finish_inv hu
  rw [huops, Array.size_push, Nat.lt_succ_iff, ← Array.length_toList, h.code.ops]
  exact ((h.finish_offset hu).mp hl).le

end Books

namespace UnitBuilder

/-- **An instruction is refused** exactly if it takes more than is there, and nothing is changed
    then. -/
theorem answer_emit_refused {op : Op} {fault : CodeFault} :
    (b.answer (.emit op)).1 = .refused fault ↔
      b.depth < op.pops ∧ fault = .stackImbalance b.name op.pops b.depth := by
  rw [answer]
  by_cases hp : op.pops ≤ b.depth
  · rw [emit_of_le hp]
    exact ⟨nofun, fun h => absurd hp (Nat.not_le.mpr h.1)⟩
  · rw [emit_of_lt (Nat.not_le.mp hp)]
    exact ⟨fun h => ⟨Nat.not_le.mp hp, (BuilderAnswer.refused.inj h).symm⟩, fun h => h.2 ▸ rfl⟩

theorem answer_emit_keeps {op : Op} {fault : CodeFault}
    (h : (b.answer (.emit op)).1 = .refused fault) : (b.answer (.emit op)).2 = b := by
  obtain ⟨hlt, -⟩ := answer_emit_refused.mp h
  rw [answer, emit_of_lt hlt]

/-- **A unit can be finished** if nothing is left on the stack and every label has its offset. -/
theorem finish_iff : (∃ u, b.finish = .ok u) ↔
    b.depth = 0 ∧ ∀ l < b.labels.size, ∃ offset, b.labels[l]? = some (some offset) := by
  constructor
  · rintro ⟨u, hu⟩
    obtain ⟨hd, -, -, -, -, -, -, hsize, hlabels⟩ := finish_inv hu
    refine ⟨hd, fun l hl => ?_⟩
    have hlt : l < u.labels.size := hsize ▸ hl
    exact ⟨_, (hlabels l _).mp (Array.getElem?_eq_getElem hlt)⟩
  · rintro ⟨hd, hl⟩
    obtain ⟨labels, hu, -⟩ := finish_ok hd hl
    exact ⟨_, hu⟩

/-- **A builder keeps its books,** whatever is called in whatever order. Its instructions are
    those that were accepted, its depth is the sum of what they add to the stack, and none took
    more than was there; what is refused changes nothing. The slots are handed out one after the
    other, each once. A name has the slot of the latest declaration in the innermost open scope
    that has one. A unit can be finished exactly if nothing is left on the stack and every label
    that was made has been placed. Then its labels stand where they were placed last, before an
    instruction, and it has as many locals as slots were handed out. -/
theorem keeps_books (id : UnitId) (name : String) (arity : Nat) (returns : Ty)
    (initializer : Bool) (calls : List BuilderCall) :
    let (log, b) := { new id name arity returns with initializer }.logged [] calls
    (b.ops.toList = emitted log ∧ (b.depth : Int) = stackEffect b.ops.toList ∧
      ∀ before op after, b.ops.toList = before ++ op :: after →
        (op.pops : Int) ≤ stackEffect before) ∧
      (∀ op fault, (b.answer (.emit op)).1 = .refused fault ↔
        b.depth < op.pops ∧ fault = .stackImbalance b.name op.pops b.depth) ∧
      (∀ op fault, (b.answer (.emit op)).1 = .refused fault → (b.answer (.emit op)).2 = b) ∧
      slotsHandedOut log = List.range b.locals ∧
      (∀ n slot, b.resolve? n = some slot ↔ Resolves log n slot) ∧
      (∀ n, b.resolve? n = none ↔ ∀ before slot, ¬ InForce log before n slot) ∧
      ((∃ u, b.finish = .ok u) ↔
        b.depth = 0 ∧ ∀ l ∈ labelsMade log, ∃ offset, Placed log l offset) ∧
      ∀ u, b.finish = .ok u →
        u.ops.toList = emitted log ++ [terminatorOf b.returns] ∧
        u.labels.size = (labelsMade log).length ∧
        (∀ l offset, u.offset? l = some offset ↔ Placed log l offset) ∧
        (∀ l offset, u.offset? l = some offset → offset < u.ops.size) ∧
        u.locals = (slotsHandedOut log).length := by
  have h := (Books.new id name arity returns initializer).logged calls
  revert h
  generalize { new id name arity returns with initializer }.logged [] calls = r
  obtain ⟨log, b⟩ := r
  intro h
  have hops := h.code.ops
  refine ⟨⟨hops, hops ▸ h.code.depth, hops ▸ h.code.covered⟩, fun _ _ => answer_emit_refused,
    fun _ _ => answer_emit_keeps, h.slots, fun n slot => h.names.resolves,
    fun n => h.names.resolves_none, ?_, fun u hu => ⟨?_, ?_, fun l offset => h.finish_offset hu,
      fun l offset => h.finish_below hu, ?_⟩⟩
  · rw [finish_iff, h.all_placed_iff]
  · obtain ⟨-, -, -, -, -, -, huops, -, -⟩ := finish_inv hu
    rw [huops, Array.toList_push, hops]
  · obtain ⟨-, -, -, -, -, -, -, hsize, -⟩ := finish_inv hu
    rw [hsize, h.labels.made, List.length_range]
  · obtain ⟨-, -, -, -, -, hlocals, -, -, -⟩ := finish_inv hu
    rw [hlocals, h.slots, List.length_range]

/-- Calls with an instruction that is refused, an unknown label, a label that is placed twice, a
    declaration outside all scopes, a scope that is left, and one left too many. -/
def mixedCalls : List BuilderCall :=
  [.exitScope, .emit .pop, .makeLabel, .placeLabel 7, .declareLocal "x", .enterScope,
    .declareArg "x" 0, .enterScope, .declareLocal "x", .emit (.pushInt 1), .placeLabel 0,
    .exitScope, .declareLocal "y", .emit .pop, .placeLabel 0]

/-- The argument is visible again, and the unit can be finished. -/
theorem mixed_books :
    let (log, b) := { new 0 "mixed" 1 .void with initializer := false }.logged [] mixedCalls
    (b.answer (.emit .addInt)).1 = .refused (.stackImbalance "mixed" 2 0) ∧
      Resolves log "x" (.arg 0) ∧ (∀ before slot, ¬ InForce log before "z" slot) ∧
      ∃ u, b.finish = .ok u ∧ Placed log 0 2 ∧ u.offset? 0 = some 2 ∧ u.locals = 3 := by
  obtain ⟨-, hrefused, -, -, hresolve, hnone, -, hunit⟩ :=
    keeps_books 0 "mixed" 1 .void false mixedCalls
  obtain ⟨-, -, hlabels, -, hlocals⟩ := hunit _ rfl
  exact ⟨(hrefused _ _).mpr (by decide), (hresolve _ _).mp rfl, (hnone _).mp rfl, _, rfl,
    (hlabels _ _).mp rfl, rfl, rfl⟩

end UnitBuilder

end Stackling
