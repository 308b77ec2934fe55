import Stackling.Proofs.Code.Compiled
import Stackling.Proofs.Run.Following
import Stackling.Proofs.Run.PlacedCode

/-
  File:     Stackling/Proofs/Run/NamedValues.lean
  Subject:  A frame holds the values of the names in scope.

  The evaluator has names with values, the frame has arguments and locals; the layout says which
  slot belongs to which name.

  * `Frame.Shows`          -- the slots of the names of a layout hold their values;
  * `Frame.Shows.bind`     -- a new name, whose slot is stored;
  * `Frame.Shows.name`     -- the evaluation of a name is followed;
  * `CallableDecl.shows`   -- the names at the start of a call.
-/
namespace Stackling

variable {p : Program} {types : TypeTable} {code : Bytecode} {limit : Nat}

/-! ## 1. Slots -/

/-- The value in a slot of a frame. -/
def Frame.read (f : Frame) : Slot → Option Value
  | .arg index => f.args[index]?
  | .loc slot => f.locals[slot]?

/-- The slot of a name holds its value. -/
def Frame.ShowsName (p : Program) (f : Frame) (x : String × Slot × Ty) (y : String × Value) :
    Prop := x.1 = y.1 ∧ y.2.Of p x.2.2 ∧ f.read x.2.1 = some y.2

/-- **The slots of the names of a layout hold their values,** and other names stand for what the
    program has under them. -/
structure Frame.Shows (p : Program) (c : CallableDecl) (L : Layout) (env : Env) (f : Frame) :
    Prop where
  size : f.locals.size = c.slots.length
  scopes : List.Forall₂ (List.Forall₂ (f.ShowsName p)) L.scopes env
  globals : ∀ x ∈ L.globals, p.Names x.1 x.2.1 x.2.2

variable {c : CallableDecl} {L L' : Layout} {env env' : Env} {f f' : Frame}

/-- Names and their values are found together. -/
theorem Frame.lookup_showsName {scope : SlotScope} {values : List (String × Value)}
    (h : List.Forall₂ (f.ShowsName p) scope values) (name : String) :
    Option.Rel (fun x v => v.Of p x.2 ∧ f.read x.1 = some v) (scope.lookup name)
      (values.lookup name) := by
  induction h with
  | nil => exact .none
  | @cons x y scope values hxy _ ih =>
    obtain ⟨hname, hof, hread⟩ := hxy
    rw [List.lookup_cons, List.lookup_cons, hname]
    cases name == y.1 with
    | true => exact .some ⟨hof, hread⟩
    | false => exact ih

theorem Frame.findSome?_showsName {scopes : List SlotScope}
    (h : List.Forall₂ (List.Forall₂ (f.ShowsName p)) scopes env) (name : String) :
    Option.Rel (fun x v => v.Of p x.2 ∧ f.read x.1 = some v)
      (scopes.findSome? (List.lookup name)) (env.findSome? (List.lookup name)) := by
  induction h with
  | nil => exact .none
  | @cons scope values scopes env hscope _ ih =>
    have hlookup := lookup_showsName hscope name
    rw [List.findSome?_cons, List.findSome?_cons]
    generalize scope.lookup name = x at hlookup
    generalize values.lookup name = y at hlookup
    cases hlookup with
    | some hxy => exact .some hxy
    | none => exact ih

namespace Frame.Shows

/-- A name of the layout has its value in a slot, or is a global one. -/
theorem find (h : f.Shows p c L env) {name : String} {r : Resolved} {e : Entity}
    (hf : L.find? name = some (r, e)) :
    (∃ slot ty v, r = .slot slot ∧ e = .value ty ∧ v.Of p ty ∧ f.read slot = some v ∧
      env.findSome? (List.lookup name) = some v) ∨
    env.findSome? (List.lookup name) = none ∧ p.Names name r e := by
  have hrel := Frame.findSome?_showsName h.scopes name
  unfold Layout.find? at hf
  generalize L.scopes.findSome? (List.lookup name) = x at hf hrel
  generalize env.findSome? (List.lookup name) = y at hrel
  cases hrel with
  | some hxy =>
    cases hf
    exact .inl ⟨_, _, _, rfl, rfl, hxy.1, hxy.2, rfl⟩
  | none => exact .inr ⟨rfl, h.globals _ (mem_of_lookup hf)⟩

/-- It does not matter where the frame stands. -/
theorem goto (h : f.Shows p c L env) (pc : Nat) : (f.goto pc).Shows p c L env :=
  ⟨h.size, h.scopes, h.globals⟩

theorem branch (h : f.Shows p c L env) : f.Shows p c L.branch ([] :: env) :=
  ⟨h.size, .cons .nil h.scopes, h.globals⟩

/-- After a branch the names around it have their values still. -/
theorem of_branch (h : f.Shows p c L' env') (hg : L.branch.Grown L') (ht : env'.tail = env) :
    f.Shows p c L env where
  size := h.size
  scopes := by
    have htail := hg.tail
    have hscopes := h.scopes
    cases hL : L'.scopes with
    | nil => exact absurd (hg.nil_iff.mp hL) (List.cons_ne_nil _ _)
    | cons scope rest =>
      rw [hL] at hscopes htail
      cases hscopes with
      | cons _ hrest =>
        subst ht
        exact (show rest = L.scopes from htail) ▸ hrest
  globals := hg.globals (List.cons_ne_nil _ _) ▸ h.globals

/-- **A new name has its value** when its slot is stored; no other name has this slot. -/
theorem bind (h : f.Shows p c L env) (name : String) {slot : Nat} {ty : Ty} {v : Value}
    (hs : L.scopes ≠ []) (hslot : c.slots[slot]? = some ty)
    (hfresh : ∀ scope ∈ L.scopes, ∀ x ∈ scope, x.2.1 ≠ .loc slot) (hv : v.Of p ty) :
    ∃ env', declare env name v = pure env' ∧ env'.tail = env.tail ∧
      Frame.Shows p c (L.bind name (.loc slot) ty) env'
        { f with locals := f.locals.setIfInBounds slot v } := by
  obtain ⟨f', hf'⟩ : ∃ f', f' = { f with locals := f.locals.setIfInBounds slot v } := ⟨_, rfl⟩
  have hread : ∀ s, s ≠ .loc slot → f'.read s = f.read s := by
    intro s hne
    subst hf'
    cases s with
    | arg index => rfl
    | loc i => exact Array.getElem?_setIfInBounds_ne fun he => hne (congrArg Slot.loc he.symm)
  have hkeep : ∀ {scopes : List SlotScope} {env : Env}, (∀ scope ∈ scopes, ∀ x ∈ scope,
      x.2.1 ≠ .loc slot) → List.Forall₂ (List.Forall₂ (f.ShowsName p)) scopes env →
      List.Forall₂ (List.Forall₂ (f'.ShowsName p)) scopes env := by
    intro scopes env hall hshows
    refine ((List.forall₂_and_left _ _).mpr ⟨hall, hshows⟩).imp fun scope values hscope => ?_
    refine ((List.forall₂_and_left _ _).mpr hscope).imp fun x y hxy => ?_
    exact ⟨hxy.2.1, hxy.2.2.1, (hread _ hxy.1).trans hxy.2.2.2⟩
  have hstored : f'.read (.loc slot) = some v := by
    subst hf'
    exact Array.getElem?_setIfInBounds_self_of_lt
      (h.size ▸ (List.getElem?_eq_some_iff.mp hslot).1)
  have hall := hkeep hfresh h.scopes
  rw [← hf']
  have hsize : f'.locals.size = c.slots.length := by
    rw [hf']
    exact (Array.size_setIfInBounds ..).trans h.size
  unfold Layout.bind
  cases hL : L.scopes with
  | nil => exact absurd hL hs
  | cons scope rest =>
    rw [hL] at hall
    cases hall with
    | @cons _ values _ envs hscope hrest =>
      exact ⟨((name, v) :: values) :: envs, rfl, rfl, hsize,
        .cons (.cons ⟨rfl, hv, hstored⟩ hscope) hrest, h.globals⟩

/-- A function or built-in is what its name stands for. -/
theorem evalName_callable (h : f.Shows p c L env) (hd : p.Distinct) {name : String}
    {r : Resolved} {e : Entity} (hf : L.find? name = some (r, e)) :
    (∀ unit, r = .function unit → ∃ decl, p.functions[unit]? = some decl ∧ decl.name = name ∧
      e = .function (paramTypes decl.params) decl.returns.toTy ∧
      evalName p env name = pure (.callable (.unit unit name))) ∧
    ∀ b, r = .builtin b → e = .builtin b ∧ evalName p env name = pure (.callable (.builtin b)) := by
  obtain ⟨slot, ty, v, rfl, rfl, -⟩ | ⟨hnone, hn⟩ := h.find hf
  · exact ⟨nofun, nofun⟩
  · unfold evalName
    rw [hnone]
    cases hn with
    | cell => exact ⟨nofun, nofun⟩
    | @function unit decl hdecl hname =>
      refine ⟨fun _ hr => ?_, nofun⟩
      cases hr
      subst hname
      refine ⟨decl, hdecl, rfl, rfl, ?_⟩
      rw [if_neg (hd.cell_function _ (List.mem_of_getElem? hdecl)), hd.findIdx_function hdecl]
    | @builtin b hb =>
      refine ⟨nofun, fun _ hr => ?_⟩
      cases hr
      have hname : b.name = name := by
        simpa [Builtin.ofName?] using List.find?_some hb
      subst hname
      refine ⟨rfl, ?_⟩
      rw [if_neg (hd.cell_builtin b), hd.findIdx_builtin, hb]
      rfl

/-- A cell is loaded, or its name has no value yet. -/
theorem cell (h : ProgramPlaced p types code) {u : CodeUnit} {cell : Nat} {name : String}
    {ty : Ty} {vs : List Value} {fs : List Frame} (hat : f.At code u (.loadGlobal cell))
    (hc : p.cells[cell]? = some (name, ty)) (hnone : env.findSome? (List.lookup name) = none) :
    Follows p code limit vs (f :: fs) (evalName p env name) (Gained p ty vs (f.moved :: fs)) := by
  have hmem : name ∈ p.cells.map (·.1) := List.mem_map_of_mem (List.mem_of_getElem? hc)
  have hname : code.globals[cell]?.getD "" = name := by
    rw [← Array.getElem?_toList, h.globals, List.getElem?_map, hc]
    rfl
  intro w globals hw
  have hcell := hw.cells cell name ty hc
  unfold evalName
  rw [hnone]
  dsimp only
  rw [if_pos hmem, bind_of_ok get_ok]
  cases hlookup : w.globals.lookup name with
  | some v =>
    rw [hlookup] at hcell
    exact ⟨v :: vs, f.moved :: fs, globals, .of (hw.typed cell name ty v hc hlookup), hw,
      .single (step_loadGlobal hat hcell)⟩
  | none =>
    rw [hlookup] at hcell
    refine ⟨1, .fault ?_⟩
    rw [step_loadGlobal_none hat hcell, hname]

/-- **The evaluation of a name is followed.** -/
theorem name (h : f.Shows p c L env) (hc : Compiled p types code) {u : CodeUnit} {name : String}
    {r : Resolved} {e : Entity} {vs : List Value} {fs : List Frame} (hat : f.At code u r.load)
    (hf : L.find? name = some (r, e)) :
    Follows p code limit vs (f :: fs) (evalName p env name)
      (Gained p e.ty vs (f.moved :: fs)) := by
  obtain ⟨rows, htyped⟩ := hc.typed
  have hcallable := h.evalName_callable htyped.distinct hf
  obtain ⟨slot, ty, v, rfl, rfl, hof, hread, hsome⟩ | ⟨hnone, hn⟩ := h.find hf
  · have heval : evalName p env name = pure v := by
      unfold evalName
      rw [hsome]
    rw [heval]
    refine .step (fun globals sink => ?_) (.pure (.of hof))
    cases slot with
    | arg index => exact step_loadArg hat hread
    | loc slot => exact step_loadLocal hat hread
  · cases hn with
    | cell hcell => exact cell hc.placed hat hcell hnone
    | function hdecl hname =>
      obtain ⟨decl, hdecl', hname', -, heval⟩ := hcallable.1 _ rfl
      cases hdecl.symm.trans hdecl'
      rw [heval, ← hname']
      exact .puts hat nofun (Computes.gives_pushUnit hc.placed (.function hdecl))
        (.unit (.function hdecl))
    | builtin hb =>
      obtain ⟨-, heval⟩ := hcallable.2 _ rfl
      rw [heval]
      exact .puts hat nofun (fun _ _ _ _ _ _ => rfl) .builtin

end Frame.Shows

/-! ## 2. The start of a call -/

/-- Names of parameters go with their arguments. -/
theorem shows_args {params : List Param} {args pre : List Value} (hf : f.args = pre ++ args)
    (h : List.Forall₂ (Value.Of p) args (paramTypes params)) :
    List.Forall₂ (f.ShowsName p)
      ((params.zipIdx pre.length).map fun x => (x.1.name, Slot.arg x.2, x.1.written.toTy))
      ((params.map (·.name)).zip args) := by
  induction params generalizing args pre with
  | nil => exact .nil
  | cons q params ih =>
    cases h with
    | @cons v _ args _ hv hrest =>
      refine .cons ⟨rfl, hv, ?_⟩ ?_
      · show f.args[pre.length]? = some v
        rw [hf]
        simp
      · have h := @ih args (pre ++ [v]) (by rw [hf]; simp) hrest
        rwa [List.length_append] at h

/-- **At the start of a call the arguments are the values of the parameters.** -/
theorem CallableDecl.shows {globals : GlobalNames} {args : List Value}
    (hsize : f.locals.size = c.slots.length) (hargs : f.args = args)
    (h : List.Forall₂ (Value.Of p) args (paramTypes c.params))
    (hg : ∀ x ∈ globals, p.Names x.1 x.2.1 x.2.2) :
    f.Shows p c (c.layout globals) (c.env args) := by
  refine ⟨hsize, ?_, hg⟩
  show List.Forall₂ _ (if c.outside then [] else [slotScope c.params])
    (if c.outside then [] else _)
  cases c.outside with
  | true => exact .nil
  | false =>
    have hshows := @shows_args p f c.params args [] hargs h
    exact .cons (List.forall₂_reverse_iff.mpr hshows) .nil

end Stackling
