import Stackling.Proofs.Code.Expressions

/-
  File:     Stackling/Proofs/Code/Statements.lean
  Subject:  Writing the code of one statement, given that of its parts.

  A declaration takes the next cell or the next slot, a branch opens a scope and places its
  labels, and nothing is left on the stack. As for expressions there is one lemma for each
  construct.

  * `Generator.label`, `.place`, `.enter`, `.leave` -- labels and scopes;
  * `BodyNamed.trans`, `.arm`                       -- names, slots and cells add up;
  * `Generator.Extends.branch`, `.branches`         -- labels of a branch are placed;
  * `StmtWritten.declareCell`, `.branch`, …         -- the constructs.
-/
namespace Stackling

open Generate

/-! ## 1. Labels and scopes -/

namespace Generator

/-- One more label. -/
def label (g : Generator) : Generator := { g with current := g.current.makeLabel.2 }

/-- A label placed before the next instruction. -/
def place (g : Generator) (l : Label) : Generator := { g with current := g.current.placeLabel l }

/-- One more scope. -/
def enter (g : Generator) : Generator := { g with current := g.current.enterScope }

def leave (g : Generator) : Generator := { g with current := g.current.exitScope }

/-- The number of the next label. -/
def nextLabel (g : Generator) : Nat := g.current.labels.size

/-- A label is open until it is placed. -/
def Open (g : Generator) (l : Nat) : Prop := g.current.labels[l]? = some none

variable {g g' g'' : Generator} {l l' : Nat}

theorem Open.lt (h : g.Open l) : l < g.nextLabel := (Array.getElem?_eq_some_iff.mp h).1

theorem open_label (g : Generator) : g.label.Open g.nextLabel := by
  simp [Open, label, nextLabel, UnitBuilder.makeLabel]

theorem getElem?_label (h : l < g.nextLabel) :
    g.label.current.labels[l]? = g.current.labels[l]? := by
  show (g.current.labels.push none)[l]? = _
  rw [Array.getElem?_push_lt h, Array.getElem?_eq_getElem h]

theorem nextLabel_label (g : Generator) : g.label.nextLabel = g.nextLabel + 1 := by
  simp [label, nextLabel, UnitBuilder.makeLabel]

theorem nextLabel_place (g : Generator) (l : Label) : (g.place l).nextLabel = g.nextLabel := by
  simp [place, nextLabel, UnitBuilder.placeLabel]

theorem getElem?_place (h : l < g.nextLabel) :
    (g.place l).current.labels[l]? = some (some g.pc) := by
  simpa [place, UnitBuilder.placeLabel, pc] using Array.getElem?_setIfInBounds_self_of_lt h

theorem getElem?_place_ne (h : l ≠ l') :
    (g.place l).current.labels[l']? = g.current.labels[l']? := by
  simpa [place, UnitBuilder.placeLabel] using Array.getElem?_setIfInBounds_ne h

theorem Open.label (h : g.Open l) : g.label.Open l := (getElem?_label h.lt).trans h

theorem Extends.keepsOpen (h : g.Extends g') (ho : g.Open l) : g'.Open l :=
  (h.labels l ho.lt).trans ho

theorem Grows.enter (g : Generator) : g.Grows g.enter := { Grows.refl g with }

theorem Grows.leave (g : Generator) : g.Grows g.leave := { Grows.refl g with }

theorem Extends.enter (g : Generator) : g.Extends g.enter := .of_grows (.enter g) rfl

theorem Extends.leave (g : Generator) : g.Extends g.leave := .of_grows (.leave g) rfl

end Generator

namespace Moved

theorem label (g : Generator) : Moved g g.label 0 := by
  refine ⟨{ Generator.Grows.refl g with size := ?_, kept := fun l o h => ?_ }, rfl, rfl, rfl, rfl,
    rfl⟩
  · exact Nat.le_of_lt (Nat.lt_of_lt_of_eq (Nat.lt_succ_self _) g.nextLabel_label.symm)
  · have hlt : l < g.nextLabel := (Array.getElem?_eq_some_iff.mp h).1
    rw [Generator.getElem?_label hlt, h]

/-- A label is placed once. -/
theorem place {g : Generator} {l : Nat} (h : g.Open l) : Moved g (g.place l) 0 := by
  refine ⟨{ Generator.Grows.refl g with
    size := Nat.le_of_eq (g.nextLabel_place l).symm, kept := fun l' o h' => ?_ }, rfl, rfl, rfl,
    rfl, rfl⟩
  have hne : l ≠ l' := by
    rintro rfl
    cases h.symm.trans h'
  rw [Generator.getElem?_place_ne hne, h']

end Moved

namespace Generator

variable {g g' g'' : Generator}

/-- **A label that is made and placed around some code leaves none open.** -/
theorem Extends.branch (h : g.label.Extends g') : g.Extends (g'.place g.nextLabel) := by
  have hn := g.nextLabel_label
  have hopen : g'.Open g.nextLabel := h.keepsOpen g.open_label
  refine { ((Moved.label g).step.trans h.toGrows).trans (Moved.place hopen).step with
    labels := fun l hl => ?_, placed := fun l hl hl' => ?_ }
  · have hlt : l < g.nextLabel := hl
    rw [getElem?_place_ne (Nat.ne_of_gt hlt),
      h.labels l (show l < g.label.nextLabel by omega), getElem?_label hlt]
  · have hle : g.nextLabel ≤ l := hl
    have hlt : l < (g'.place g.nextLabel).nextLabel := hl'
    rw [nextLabel_place] at hlt
    by_cases he : l = g.nextLabel
    · subst he
      exact ⟨_, getElem?_place hlt⟩
    · rw [getElem?_place_ne (Ne.symm he)]
      exact h.placed l (show g.label.nextLabel ≤ l by omega) hlt

/-- The generator between two arms: the first ends with a jump to a new label, and the label
    `l` stands before the second. -/
def between (g : Generator) (l : Nat) : Generator :=
  (g.label.put (.jump g.nextLabel)).place l

theorem nextLabel_between (g : Generator) (l : Nat) :
    (g.between l).nextLabel = g.nextLabel + 1 :=
  (nextLabel_place _ l).trans g.nextLabel_label

theorem getElem?_between_ne {l l' : Nat} (hl : l' < g.nextLabel) (hne : l ≠ l') :
    (g.between l).current.labels[l']? = g.current.labels[l']? :=
  (getElem?_place_ne hne).trans (getElem?_label hl)

/-- The label behind the second arm is open when that arm begins. -/
theorem open_between {l : Nat} (hl : l < g.nextLabel) : (g.between l).Open g.nextLabel :=
  (getElem?_place_ne (Nat.ne_of_lt hl)).trans g.open_label

theorem getElem?_between {l : Nat} (hl : l < g.nextLabel) :
    (g.between l).current.labels[l]? = some (some (g.pc + 1)) := by
  have hlt : l < (g.label.put (.jump g.nextLabel)).nextLabel :=
    Nat.lt_of_lt_of_eq (Nat.lt_succ_of_lt hl) g.nextLabel_label.symm
  rw [between, getElem?_place hlt, pc_put]
  rfl

end Generator

theorem Moved.between {g : Generator} {l : Nat} (h : g.Open l) : Moved g (g.between l) 0 :=
  ((Moved.label g).put (.jump g.nextLabel) nofun).trans
    (Moved.place (g := g.label.put (.jump g.nextLabel)) h.label)

/-- **Two labels, the second made before the first is placed, leave none open.** -/
theorem Generator.Extends.branches {g g' g'' : Generator} (h : g.label.Extends g')
    (h' : (g'.between g.nextLabel).Extends g'') : g.Extends (g''.place g'.nextLabel) := by
  have hn := g.nextLabel_label
  have hn' := g'.nextLabel_between g.nextLabel
  have hsize : g.label.nextLabel ≤ g'.nextLabel := h.size
  have hfirst : g'.Open g.nextLabel := h.keepsOpen g.open_label
  have hsecond : g''.Open g'.nextLabel := h'.keepsOpen (open_between hfirst.lt)
  have hgrows : g.Grows (g''.place g'.nextLabel) :=
    (((Moved.label g).step.trans h.toGrows).trans (Moved.between hfirst).step).trans
      (h'.toGrows.trans (Moved.place hsecond).step)
  -- a label of the first arm or from before is not touched again
  have hold : ∀ l, l ≠ g.nextLabel → l < g'.nextLabel →
      (g''.place g'.nextLabel).current.labels[l]? = g'.current.labels[l]? := by
    intro l hne hlt
    rw [getElem?_place_ne (Nat.ne_of_gt hlt),
      h'.labels l (show l < (g'.between g.nextLabel).nextLabel by omega),
      getElem?_between_ne hlt (Ne.symm hne)]
  refine { hgrows with labels := fun l hl => ?_, placed := fun l hl hl' => ?_ }
  · have hlt : l < g.nextLabel := hl
    rw [hold l (Nat.ne_of_lt hlt) (by omega), h.labels l (show l < g.label.nextLabel by omega),
      getElem?_label hlt]
  · have hle : g.nextLabel ≤ l := hl
    have hlt : l < (g''.place g'.nextLabel).nextLabel := hl'
    rw [nextLabel_place] at hlt
    rcases Nat.lt_trichotomy l g'.nextLabel with hl₁ | rfl | hl₁
    · by_cases he : l = g.nextLabel
      · subst he
        refine ⟨g'.pc + 1, ?_⟩
        rw [getElem?_place_ne (Nat.ne_of_gt hl₁), h'.labels _
          (show g.nextLabel < (g'.between g.nextLabel).nextLabel by omega)]
        exact getElem?_between hl₁
      · rw [hold l he hl₁]
        exact h.placed l (show g.label.nextLabel ≤ l by omega) hl₁
    · exact ⟨_, getElem?_place hlt⟩
    · rw [getElem?_place_ne (Nat.ne_of_lt hl₁)]
      exact h'.placed l (show (g'.between g.nextLabel).nextLabel ≤ l by omega) hlt

/-! ## 2. Names, slots and cells -/

variable {p : Program} {types : TypeTable} {c : CallableDecl} {L L₁ L₂ : Layout}
  {g g₁ g₂ g₃ : Generator} {ls ls' : List Literal} {slots slots' : List Ty}
  {cells cells' : List (String × Ty)} {span : Span} {value : Expr} {ty : Ty}

namespace Fits

theorem enter (h : Fits p c g L) : Fits p c g.enter L.branch where
  scopes := by
    show [] :: g.current.scopes = _
    rw [h.scopes]
    rfl
  outside := h.outside
  names := h.names
  functions := h.functions
  fresh scope hs x hx slot hslot := by
    rcases List.mem_cons.mp hs with rfl | hs
    · cases hx
    · exact h.fresh scope hs x hx slot hslot
  initializer := h.initializer
  outermost := nofun
  returns := h.returns
  counted := h.counted

/-- Behind a scope the generator is at the layout before it. -/
theorem leave (h : Fits p c g L₁) (h₀ : Fits p c g₁ L) (hg : L.branch.Grown L₁) :
    Fits p c g.leave L where
  scopes := by
    show g.current.scopes.tail = _
    rw [h.scopes, Layout.slots, ← List.map_tail, hg.tail]
    rfl
  outside name := by
    have hglobals : L₁.globals = L.globals := hg.globals (List.cons_ne_nil _ _)
    rw [← hglobals]
    exact h.outside name
  names := h₀.names
  functions := h.functions
  fresh scope hs x hx slot hslot := by
    refine h.fresh scope (List.mem_of_mem_tail ?_) x hx slot hslot
    rw [hg.tail]
    exact hs
  initializer := h.initializer
  outermost := h₀.outermost
  returns := h.returns
  counted := h.counted

end Fits

namespace BodyNamed

/-- What declares nothing names nothing. -/
theorem of_moved {n : Nat} (hf : Fits p c g L) (hm : Moved g g₁ n) (hd : g₁.depth = g.depth)
    (hn : ls.length = n) : BodyNamed p c L L ls [] [] g g₁ where
  fits := hf.moved hm
  grown := .refl L
  depth := hd
  literals := hn ▸ hm.literals
  locals := hm.locals
  inner _ := ⟨hm.globals, hm.globalNames⟩
  outer _ := by rw [hm.globalNames, List.map_nil, List.append_nil]

theorem silent (hf : Fits p c g L) (hm : Moved g g₁ 0) (hd : g₁.depth = g.depth) :
    BodyNamed p c L L [] [] [] g g₁ := .of_moved hf hm hd rfl

theorem trans (h : BodyNamed p c L L₁ ls slots cells g g₁)
    (h' : BodyNamed p c L₁ L₂ ls' slots' cells' g₁ g₂) :
    BodyNamed p c L L₂ (ls ++ ls') (slots ++ slots') (cells ++ cells') g g₂ where
  fits := h'.fits
  grown := h.grown.trans h'.grown
  depth := h'.depth.trans h.depth
  literals := by rw [h'.literals, h.literals, List.length_append, Nat.add_assoc]
  locals := by rw [h'.locals, h.locals, List.length_append, Nat.add_assoc]
  inner hn := by
    have hn' : L₁.scopes ≠ [] := fun he => hn (h.grown.nil_iff.mp he)
    exact ⟨(h'.inner hn').1.trans (h.inner hn).1, (h'.inner hn').2.trans (h.inner hn).2⟩
  outer hn := by
    rw [h'.outer (h.grown.nil_iff.mpr hn), h.outer hn, List.map_append, List.append_assoc]

/-- **A branch forgets its names and keeps its slots.** -/
theorem arm (h : BodyNamed p c L.branch L₁ ls slots cells g.enter g₁) (hf : Fits p c g L) :
    BodyNamed p c L L ls slots [] g g₁.leave where
  fits := h.fits.leave hf h.grown
  grown := .refl L
  depth := h.depth
  literals := h.literals
  locals := h.locals
  inner _ := h.inner (List.cons_ne_nil _ _)
  outer _ := by
    have hi := h.inner (List.cons_ne_nil _ _)
    show g₁.globalNames.toList = _
    rw [hi.2, List.map_nil, List.append_nil]
    rfl

end BodyNamed

/-- A new name in the innermost scope, with a slot. -/
def Generator.bindLocal (g : Generator) (name : String) : Generator :=
  { g with current := { g.current with
      scopes := (g.current.bind name (.loc g.current.locals)).scopes
      locals := g.current.locals + 1 } }

theorem bindLocal_ok (name : String) (g : Generator) :
    onUnit (fun b => b.declareLocal name) g = .ok (g.current.locals, g.bindLocal name) := by
  rw [Generate.onUnit_ok]
  unfold UnitBuilder.declareLocal Generator.bindLocal UnitBuilder.bind
  split <;> rfl

theorem Generator.Extends.bindLocal (g : Generator) (name : String) :
    g.Extends (g.bindLocal name) := .of_grows { Generator.Grows.refl g with } rfl

theorem Fits.bindLocal (h : Fits p c g L) (hs : L.scopes ≠ []) (name : String) (ty : Ty) :
    Fits p c (g.bindLocal name) (L.bind name (.loc g.current.locals) ty) := by
  obtain ⟨scope, rest, hscopes⟩ := List.exists_cons_of_ne_nil hs
  have hslots : g.current.scopes = (scope.map fun x => (x.1, x.2.1)) ::
      rest.map fun scope => scope.map fun x => (x.1, x.2.1) := by
    rw [h.scopes, Layout.slots, hscopes, List.map_cons]
  have hbind : L.bind name (.loc g.current.locals) ty =
      ⟨((name, .loc g.current.locals, ty) :: scope) :: rest, L.globals⟩ := by
    unfold Layout.bind
    rw [hscopes]
  rw [hbind]
  refine ⟨?_, h.outside, h.names, h.functions, fun scope' hs' x hx slot hslot => ?_,
    h.initializer, by simp, h.returns, h.counted⟩
  · show (g.current.bind name (.loc g.current.locals)).scopes = _
    unfold UnitBuilder.bind
    rw [hslots]
    rfl
  · have hold : ∀ scope' ∈ L.scopes, ∀ x ∈ scope', x.2.1 = .loc slot →
        slot < g.current.locals + 1 :=
      fun scope' hs' x hx hslot => Nat.lt_succ_of_lt (h.fresh scope' hs' x hx slot hslot)
    rw [hscopes] at hold
    rcases List.mem_cons.mp hs' with rfl | hs'
    · rcases List.mem_cons.mp hx with rfl | hx
      · cases hslot
        exact Nat.lt_succ_self _
      · exact hold scope (List.mem_cons_self ..) x hx hslot
    · exact hold scope' (List.mem_cons_of_mem _ hs') x hx hslot

namespace Ready

variable {rows rows' : Rows}

theorem enter (h : Ready p types c g L ls rows) : Ready p types c g.enter L.branch ls rows :=
  ⟨h.fits.enter, h.literals, h.table, h.rows⟩

/-- What comes after some statements. -/
theorem after (h : Ready p types c g L (ls ++ ls') (rows ++ rows'))
    (hb : BodyNamed p c L L₁ ls slots cells g g₁) (ht : g₁.types = g.types) :
    Ready p types c g₁ L₁ ls' rows' where
  fits := hb.fits
  literals := by
    rw [hb.literals]
    exact h.literals.right
  table := ht.trans h.table
  rows row hr := h.rows row (List.mem_append_right _ hr)

end Ready

/-- The code around a statement that declares nothing itself. -/
theorem StmtWritten.of_wrote {s : Stmt} (hf : Fits p c g L)
    (hs : s.slots L.scopes.isEmpty = []) (hcells : s.cells = [])
    (hrun : ∀ conv, Conversion.Trivial conv → lowerStmt conv s g = .ok ((), g₁))
    (hw : Wrote g g₁ s.literals.length) (hd : g₁.depth = g.depth)
    (hp : ∀ code u, Final code u g₁ → StmtPlaced p types code u c L g.pc s L g₁.pc) :
    StmtWritten p types c L s L g g₁ := by
  refine ⟨hrun, ⟨?_, hw.whole⟩, hp⟩
  rw [hs, hcells]
  exact .of_moved hf hw.toMoved hd rfl

/-! ## 3. Declarations -/

namespace StmtWritten

variable {constant : Bool} {name : String} {written : TypeExpr}

/-- A declaration outside all scopes makes a cell. -/
theorem declareCell {globals : GlobalNames} (hf : Fits p c g ⟨[], globals⟩)
    (hv : written.toTy ≠ .void)
    (hcell : p.cells[g.globalNames.size]? = some (name, written.toTy))
    (he : ExprWritten p types c ⟨[], globals⟩ value written.toTy g g₁) :
    ∃ g', StmtWritten p types c ⟨[], globals⟩ (.declare span constant name written value)
      ⟨[], (name, .global g.globalNames.size, .value written.toTy) :: globals⟩ g g' := by
  have hf₁ := hf.moved he.wrote.toMoved
  have hd₁ := he.depth
  rw [Ty.width_value hv] at hd₁
  have hnames := he.wrote.globalNames
  have hdeclares : g₁.current.declaresGlobals = true := by
    unfold UnitBuilder.declaresGlobals
    rw [hf₁.initializer, hf.outermost rfl, hf₁.scopes]
    rfl
  have hput : (g₁.declareGlobal name).2.Extends
      ((g₁.declareGlobal name).2.put (.storeGlobal g₁.globalNames.size)) := .put _ (by simp)
  have hstep : g₁.Extends (g₁.declareGlobal name).2 :=
    .of_grows { Generator.Grows.refl g₁ with } rfl
  have hd : ((g₁.declareGlobal name).2.put (.storeGlobal g₁.globalNames.size)).depth =
      g.depth := by
    show g₁.depth - 1 + 0 = _
    omega
  refine ⟨(g₁.declareGlobal name).2.put (.storeGlobal g₁.globalNames.size), fun conv hc => ?_,
    ⟨?_, he.wrote.whole.trans (hstep.trans hput)⟩, fun code u hfin => ?_⟩
  · rw [lowerStmt]
    refine preserving_ok ?_ hd
    rw [bind_of_ok (he.run conv hc), bind_of_ok (conv_ok hc _ g₁), bind_of_ok get_ok,
      if_pos hdeclares]
    refine emit_ok ?_
    show 1 ≤ g₁.depth
    omega
  · refine ⟨⟨hf₁.scopes, fun name' => ?_, fun x hx => ?_, hf₁.functions, by simp, hf₁.initializer,
      hf.outermost, hf₁.returns, hf₁.counted⟩, ⟨rfl, rfl, fun h => absurd rfl h⟩, hd,
      he.wrote.literals, he.wrote.locals, fun h => absurd rfl h, fun _ => ?_⟩
    · show (g₁.declareGlobal name).2.outside? name' =
        Option.map _ (List.lookup name' (_ :: globals))
      rw [Generator.outside?_declareGlobal, List.lookup_cons]
      by_cases hn : name' = name
      · rw [if_pos hn, hnames, beq_iff_eq.mpr hn]
        rfl
      · rw [if_neg hn, show (name' == name) = false by simpa using hn]
        exact hf₁.outside name'
    · rcases List.mem_cons.mp hx with rfl | hx
      · exact .cell hcell
      · exact hf.names x hx
    · show (g₁.globalNames.push name).toList = _
      rw [hnames, Array.toList_push]
      rfl
  · have hput' := hfin.mono hput.toGrows
    have hop := hfin.op
    rw [hnames] at hop
    rw [Generator.pc_put]
    exact .declareCell (hf.outermost rfl) hv
      (he.placed code u (hput'.mono hstep.toGrows)) hcell hop

/-- A declaration in a scope takes a slot. -/
theorem declareLocal (hf : Fits p c g L) (hs : L.scopes ≠ []) (hv : written.toTy ≠ .void)
    (hslot : c.slots[g.current.locals]? = some written.toTy)
    (he : ExprWritten p types c L value written.toTy g g₁) :
    ∃ g', StmtWritten p types c L (.declare span constant name written value)
      (L.bind name (.loc g.current.locals) written.toTy) g g' := by
  have hf₁ := hf.moved he.wrote.toMoved
  have hd₁ := he.depth
  rw [Ty.width_value hv] at hd₁
  have hlocals := he.wrote.locals
  have hdeclares : g₁.current.declaresGlobals = false := by
    unfold UnitBuilder.declaresGlobals
    rw [hf₁.scopes, Layout.slots]
    simpa using fun _ => hs
  have hput : (g₁.bindLocal name).Extends
      ((g₁.bindLocal name).put (.storeLocal g₁.current.locals)) := .put _ (by simp)
  have hd : ((g₁.bindLocal name).put (.storeLocal g₁.current.locals)).depth = g.depth := by
    show g₁.depth - 1 + 0 = _
    omega
  refine ⟨(g₁.bindLocal name).put (.storeLocal g₁.current.locals), fun conv hc => ?_,
    ⟨?_, he.wrote.whole.trans ((Generator.Extends.bindLocal g₁ name).trans hput)⟩,
    fun code u hfin => ?_⟩
  · rw [lowerStmt]
    refine preserving_ok ?_ hd
    rw [bind_of_ok (he.run conv hc), bind_of_ok (conv_ok hc _ g₁), bind_of_ok get_ok,
      if_neg (by rw [hdeclares]; exact Bool.false_ne_true), bind_of_ok (bindLocal_ok name g₁)]
    refine emit_ok ?_
    show 1 ≤ g₁.depth
    omega
  · rw [Stmt.slots, if_neg (by simpa using hs), ← hlocals]
    exact ⟨(hf₁.bindLocal hs name written.toTy).moved ((Moved.refl _).put _ (by simp)),
      .bind L name _ _, hd, he.wrote.literals, hlocals ▸ rfl,
      fun _ => ⟨he.wrote.globals, he.wrote.globalNames⟩, fun h => absurd h hs⟩
  · have hop := hfin.op
    rw [hlocals] at hop
    rw [Generator.pc_put]
    refine .declareLocal hs hv (he.placed code u
      ((hfin.mono hput.toGrows).mono (Generator.Extends.bindLocal g₁ name).toGrows)) hslot ?_ hop
    intro scope hscope x hx hslot
    exact Nat.lt_irrefl _ (hf.fresh scope hscope x hx _ hslot)

end StmtWritten

/-! ## 4. Other statements -/

namespace StmtWritten

theorem returnsNothing (hf : Fits p c g L) (ho : c.outside = false) (hr : c.returns = .void) :
    ∃ g', StmtWritten p types c L (.returns span none) L g g' := by
  have hd : (g.put .retVoid).depth = g.depth := rfl
  refine ⟨g.put .retVoid, .of_wrote hf (by rw [Stmt.slots]) (by rw [Stmt.cells]) (fun conv _ => ?_)
    ((Wrote.refl g).put _ nofun) hd fun code u hfin => ?_⟩
  · rw [lowerStmt]
    exact preserving_ok (emit_ok (Nat.zero_le _)) hd
  · rw [Generator.pc_put]
    exact .returnsNothing ho hr hfin.op

/-- The result of a call that leaves none is returned. -/
theorem returnsVoid (hf : Fits p c g L) (ho : c.outside = false) (hr : c.returns = .void)
    (he : ExprWritten p types c L value .void g g₁) :
    ∃ g', StmtWritten p types c L (.returns span (some value)) L g g' := by
  have hd : (g₁.put .retVoid).depth = g.depth := he.depth
  refine ⟨g₁.put .retVoid, .of_wrote hf (by rw [Stmt.slots]) (by rw [Stmt.cells])
    (fun conv hc => ?_) (he.wrote.put _ nofun) hd fun code u hfin => ?_⟩
  · rw [lowerStmt]
    refine preserving_ok ?_ hd
    rw [bind_of_ok (he.run conv hc)]
    exact emit_ok (Nat.zero_le _)
  · rw [Generator.pc_put]
    exact .returnsVoid ho hr (he.placed code u (hfin.mono (.put g₁ nofun))) hfin.op

theorem returns (hf : Fits p c g L) (ho : c.outside = false) (hv : c.returns ≠ .void)
    (he : ExprWritten p types c L value c.returns g g₁) :
    ∃ g', StmtWritten p types c L (.returns span (some value)) L g g' := by
  have hd₁ := he.depth
  rw [Ty.width_value hv] at hd₁
  have hd : (g₁.put .ret).depth = g.depth := by
    rw [Generator.depth_put]
    simp only [Op.pops, Op.pushes]
    omega
  refine ⟨g₁.put .ret, .of_wrote hf (by rw [Stmt.slots]) (by rw [Stmt.cells])
    (fun conv hc => ?_) (he.wrote.put _ (by simp)) hd fun code u hfin => ?_⟩
  · rw [lowerStmt]
    refine preserving_ok ?_ hd
    rw [bind_of_ok (he.run conv hc), Ty.isVoid_eq_false hv]
    show (get >>= fun g => conv c.returns g.current.returns >>= fun _ => emit .ret) g₁ = _
    rw [bind_of_ok get_ok, (hf.moved he.wrote.toMoved).returns,
      bind_of_ok (conv_ok hc c.returns g₁)]
    exact emit_ok (by simp only [Op.pops]; omega)
  · rw [Generator.pc_put]
    exact .returns ho hv (he.placed code u (hfin.mono (.put g₁ (by simp)))) hfin.op

theorem exprVoid (hf : Fits p c g L) (he : ExprWritten p types c L value .void g g₁) :
    ∃ g', StmtWritten p types c L (.expr value) L g g' := by
  have hd : g₁.depth = g.depth := he.depth
  refine ⟨g₁, .of_wrote hf (by rw [Stmt.slots]) (by rw [Stmt.cells])
    (fun conv hc => ?_) he.wrote hd fun code u hfin => .exprVoid (he.placed code u hfin)⟩
  rw [lowerStmt]
  refine preserving_ok ?_ hd
  rw [bind_of_ok (he.run conv hc)]
  rfl

/-- A value that nothing uses is dropped. -/
theorem expr (hf : Fits p c g L) (hv : ty ≠ .void)
    (he : ExprWritten p types c L value ty g g₁) :
    ∃ g', StmtWritten p types c L (.expr value) L g g' := by
  have hd₁ := he.depth
  rw [Ty.width_value hv] at hd₁
  have hd : (g₁.put .pop).depth = g.depth := by
    rw [Generator.depth_put]
    simp only [Op.pops, Op.pushes]
    omega
  refine ⟨g₁.put .pop, .of_wrote hf (by rw [Stmt.slots]) (by rw [Stmt.cells])
    (fun conv hc => ?_) (he.wrote.put _ (by simp)) hd fun code u hfin => ?_⟩
  · rw [lowerStmt]
    refine preserving_ok ?_ hd
    rw [bind_of_ok (he.run conv hc), Ty.isVoid_eq_false hv]
    exact emit_ok (by simp only [Op.pops]; omega)
  · rw [Generator.pc_put]
    exact .expr hv (he.placed code u (hfin.mono (.put g₁ (by simp)))) hfin.op

theorem print (hf : Fits p c g L) (hv : ty ≠ .void)
    (he : ExprWritten p types c L value ty g g₁) :
    ∃ g', StmtWritten p types c L (.print span value) L g g' := by
  have hd₁ := he.depth
  rw [Ty.width_value hv] at hd₁
  have hd : (g₁.put (.print ty)).depth = g.depth := by
    rw [Generator.depth_put]
    simp only [Op.pops, Op.pushes]
    omega
  refine ⟨g₁.put (.print ty), .of_wrote hf (by rw [Stmt.slots]) (by rw [Stmt.cells])
    (fun conv hc => ?_) (he.wrote.put _ (by simp)) hd fun code u hfin => ?_⟩
  · rw [lowerStmt]
    refine preserving_ok ?_ hd
    rw [bind_of_ok (he.run conv hc)]
    exact emit_ok (by simp only [Op.pops]; omega)
  · rw [Generator.pc_put]
    exact .print hv (he.placed code u (hfin.mono (.put g₁ (by simp)))) hfin.op

/-- A plain block opens no scope. -/
theorem block {body : List Stmt} (hb : StmtsWritten p types c L body L₁ g g₁) :
    StmtWritten p types c L (.block (.mk body span)) L₁ g g₁ := by
  refine ⟨fun conv hc => ?_, ?_, fun code u hfin => .block (hb.placed code u hfin)⟩
  · rw [lowerStmt_block]
    exact preserving_ok (hb.run conv hc) hb.wrote.depth
  · rw [Stmt.literals, Block.literals, Stmt.slots, Block.slots, Stmt.cells, Block.cells]
    exact hb.wrote

end StmtWritten

/-! ## 5. Branches -/

theorem makeLabel_ok (g : Generator) :
    onUnit UnitBuilder.makeLabel g = .ok (g.nextLabel, g.label) := rfl

theorem enterScope_ok (g : Generator) :
    onUnit (fun b => ((), b.enterScope)) g = .ok ((), g.enter) := rfl

/-- The generator behind the test of a branch, which goes to the next label if it fails. -/
def Generator.tested (g : Generator) : Generator :=
  (g.label.put .not).put (.jumpIf g.nextLabel)

theorem jumpIf_ok (g : Generator) :
    emit (.jumpIf g.nextLabel) (g.label.put .not) = .ok ((), g.tested) :=
  emit_ok (Nat.le_add_left _ _)

theorem Moved.tested (g : Generator) : Moved g g.tested 0 :=
  ((Moved.label g).put .not nofun).put (.jumpIf g.nextLabel) nofun

theorem Generator.Extends.tested (g : Generator) : g.label.Extends g.tested.enter :=
  ((@Extends.put g.label .not nofun).trans
    (@Extends.put _ (.jumpIf g.nextLabel) nofun)).trans (.enter _)

theorem Generator.depth_tested (h : g.depth = g₁.depth + 1) : g.tested.depth = g₁.depth := by
  show g.depth - 1 + 1 - 1 + 0 = _
  omega

theorem Generator.pc_tested (g : Generator) : g.tested.pc = g.pc + 2 := by
  rw [tested, pc_put, pc_put]
  rfl

theorem Final.tested {code : Bytecode} {u : CodeUnit} (h : Final code u g.tested) :
    u.ops[g.pc]? = some .not ∧ u.ops[g.pc + 1]? = some (.jumpIf g.nextLabel) ∧
      Final code u g := by
  have hnot : Final code u (g.label.put .not) := h.mono (.put _ nofun)
  have hjump := h.op
  rw [Generator.pc_put] at hjump
  exact ⟨hnot.op, hjump, (hnot.mono (.put _ nofun)).mono (Moved.label g).step⟩

section

variable {condition : Expr} {yes no : List Stmt} {spanYes spanNo : Span}

/-- The first arm leaves the label of the test open. -/
theorem StmtsWritten.firstArm_extends
    (hy : StmtsWritten p types c L.branch yes L₁ g₁.tested.enter g₂) :
    g₁.label.Extends g₂.leave :=
  ((Generator.Extends.tested g₁).trans hy.wrote.whole).trans (.leave g₂)

/-- The names after the test and the first arm. -/
theorem StmtsWritten.firstArm_named (hf : Fits p c g L)
    (hc : ExprWritten p types c L condition .bool g g₁)
    (hy : StmtsWritten p types c L.branch yes L₁ g₁.tested.enter g₂) :
    BodyNamed p c L L (condition.literals ++ stmtLiterals yes) (stmtSlots false yes) [] g
      g₂.leave := by
  have hm := hc.wrote.toMoved.trans (.tested g₁)
  exact (BodyNamed.of_moved hf hm (Generator.depth_tested hc.depth) rfl).trans
    (hy.wrote.toBodyNamed.arm (hf.moved hm))

/-- The test and the first arm are written one after the other. -/
theorem StmtsWritten.firstArm_ok {conv : Conversion} (hconv : conv.Trivial)
    {rest : Label → Generate Unit} (hc : ExprWritten p types c L condition .bool g g₁)
    (hy : StmtsWritten p types c L.branch yes L₁ g₁.tested.enter g₂) :
    (do
      conv (← lowerExpr conv condition) .bool
      let after ← onUnit UnitBuilder.makeLabel
      emit .not
      emit (.jumpIf after)
      onUnit fun b => ((), b.enterScope)
      lowerBlock conv (.mk yes spanYes)
      rest after) g = rest g₁.nextLabel g₂ := by
  have hd₁ : g₁.depth = g.depth + 1 := hc.depth
  rw [bind_of_ok (hc.run conv hconv), bind_of_ok (conv_ok hconv .bool g₁),
    bind_of_ok (makeLabel_ok g₁),
    bind_of_ok (@emit_ok g₁.label .not (hd₁ ▸ Nat.le_add_left _ _)), bind_of_ok (jumpIf_ok g₁),
    bind_of_ok (enterScope_ok _), lowerBlock, bind_of_ok (hy.run conv hconv)]

theorem StmtWritten.branch (hf : Fits p c g L)
    (hc : ExprWritten p types c L condition .bool g g₁)
    (hy : StmtsWritten p types c L.branch yes L₁ g₁.tested.enter g₂) :
    StmtWritten p types c L (.branch span condition (.mk yes spanYes) none) L g
      (g₂.leave.place g₁.nextLabel) := by
  have harm := hy.firstArm_named hf hc
  have hyes := hy.firstArm_extends
  have hopen : g₂.leave.Open g₁.nextLabel := hyes.keepsOpen g₁.open_label
  refine ⟨fun conv hconv => ?_, ⟨?_, hc.wrote.whole.trans hyes.branch⟩, fun code u hfin => ?_⟩
  · rw [lowerStmt]
    exact preserving_ok (hy.firstArm_ok hconv hc) harm.depth
  · have hall := harm.trans (.silent harm.fits (.place hopen) rfl)
    simp only [List.append_nil] at hall
    rw [Stmt.literals, Stmt.slots, Stmt.cells, Block.literals, Block.slots]
    exact hall
  · have hfin₂ : Final code u g₂ := (hfin.mono (Moved.place hopen).step).mono (.leave g₂)
    obtain ⟨hnot, hjump, hfin₁⟩ := ((hfin₂.mono hy.wrote.whole.toGrows).mono (.enter _)).tested
    have hstmts := hy.placed code u hfin₂
    rw [show g₁.tested.enter.pc = g₁.pc + 2 from Generator.pc_tested g₁] at hstmts
    exact .branch (hc.placed code u hfin₁) hnot hjump
      (hfin.labels _ _ (Generator.getElem?_place hopen.lt)) hstmts

/-- **A branch with two arms.** The first arm ends with a jump behind the second one. -/
theorem StmtWritten.branchElse (hf : Fits p c g L)
    (hc : ExprWritten p types c L condition .bool g g₁)
    (hy : StmtsWritten p types c L.branch yes L₁ g₁.tested.enter g₂)
    (hn : StmtsWritten p types c L.branch no L₂ (g₂.leave.between g₁.nextLabel).enter g₃) :
    StmtWritten p types c L
      (.branch span condition (.mk yes spanYes) (some (.mk no spanNo))) L g
      (g₃.leave.place g₂.leave.nextLabel) := by
  have harm := hy.firstArm_named hf hc
  have hyes := hy.firstArm_extends
  have hfirst : g₂.leave.Open g₁.nextLabel := hyes.keepsOpen g₁.open_label
  have harm' := hn.wrote.toBodyNamed.arm (harm.fits.moved (.between hfirst))
  have hno : (g₂.leave.between g₁.nextLabel).Extends g₃.leave :=
    ((Generator.Extends.enter _).trans hn.wrote.whole).trans (.leave g₃)
  have hsecond : g₃.leave.Open g₂.leave.nextLabel :=
    hno.keepsOpen (Generator.open_between hfirst.lt)
  refine ⟨fun conv hconv => ?_, ⟨?_, hc.wrote.whole.trans (.branches hyes hno)⟩,
    fun code u hfin => ?_⟩
  · rw [lowerStmt]
    refine preserving_ok ((hy.firstArm_ok hconv hc).trans ?_) (harm'.depth.trans harm.depth)
    rw [bind_of_ok (show onUnit (fun b => b.exitScope.makeLabel) g₂ =
        .ok (g₂.leave.nextLabel, g₂.leave.label) from rfl),
      bind_of_ok (emit_ok (Nat.zero_le _)),
      bind_of_ok (show onUnit (fun b => ((), (b.placeLabel g₁.nextLabel).enterScope))
        (g₂.leave.label.put (.jump g₂.leave.nextLabel)) =
          .ok ((), (g₂.leave.between g₁.nextLabel).enter) from rfl),
      lowerBlock, bind_of_ok (hn.run conv hconv)]
    rfl
  · have hall := ((harm.trans (.silent harm.fits (.between hfirst) rfl)).trans harm').trans
      (.silent harm'.fits (.place hsecond) rfl)
    simp only [List.append_nil] at hall
    rw [Stmt.literals, Stmt.slots, Stmt.cells, Block.literals, Block.slots, Block.literals,
      Block.slots]
    exact hall
  · have hfin₃ : Final code u g₃ := (hfin.mono (Moved.place hsecond).step).mono (.leave g₃)
    have hmid : Final code u (g₂.leave.between g₁.nextLabel) :=
      (hfin₃.mono hn.wrote.whole.toGrows).mono (.enter _)
    have hskip : Final code u (g₂.leave.label.put (.jump g₂.leave.nextLabel)) :=
      hmid.mono (Moved.place (g := g₂.leave.label.put _) hfirst.label).step
    have hfin₂ : Final code u g₂ :=
      ((hskip.mono (.put _ (by simp))).mono (Moved.label _).step).mono (.leave g₂)
    obtain ⟨hnot, hjump, hfin₁⟩ := ((hfin₂.mono hy.wrote.whole.toGrows).mono (.enter _)).tested
    have hyes' := hy.placed code u hfin₂
    have hno' := hn.placed code u hfin₃
    rw [show g₁.tested.enter.pc = g₁.pc + 2 from Generator.pc_tested g₁] at hyes'
    rw [show (g₂.leave.between g₁.nextLabel).enter.pc = g₂.pc + 1 from Generator.pc_put _ _]
      at hno'
    exact .branchElse (hc.placed code u hfin₁) hnot hjump
      (hmid.labels _ _ (Generator.getElem?_between hfirst.lt)) hyes' hskip.op
      (hfin.labels _ _ (Generator.getElem?_place hsecond.lt)) hno'

end

/-! ## 6. Sequences -/

theorem StmtsWritten.nil (hf : Fits p c g L) : StmtsWritten p types c L [] L g g := by
  refine ⟨fun _ _ => by rw [lowerStmts]; rfl, ⟨?_, .refl g⟩, fun _ _ _ => .nil⟩
  rw [stmtLiterals, stmtSlots, stmtCells]
  exact .of_moved hf (.refl g) rfl rfl

theorem StmtsWritten.cons {s : Stmt} {rest : List Stmt} (hs : StmtWritten p types c L s L₁ g g₁)
    (hr : StmtsWritten p types c L₁ rest L₂ g₁ g₂) :
    StmtsWritten p types c L (s :: rest) L₂ g g₂ := by
  refine ⟨fun conv hc => ?_, ⟨?_, hs.wrote.whole.trans hr.wrote.whole⟩, fun code u hfin => ?_⟩
  · rw [lowerStmts, bind_of_ok (hs.run conv hc)]
    exact hr.run conv hc
  · have hr' := hr.wrote.toBodyNamed
    rw [hs.wrote.grown.isEmpty] at hr'
    rw [stmtLiterals, stmtSlots, stmtCells]
    exact hs.wrote.toBodyNamed.trans hr'
  · exact .cons (hs.placed code u (hfin.mono hr.wrote.whole.toGrows)) (hr.placed code u hfin)

end Stackling
