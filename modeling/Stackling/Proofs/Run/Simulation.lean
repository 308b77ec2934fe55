import Stackling.Proofs.Run.NamedValues

/-
  File:     Stackling/Proofs/Run/Simulation.lean
  Subject:  The code of a program does what the program means.

  The code of an expression leads to the value that the expression evaluates to, on top of
  whatever is on the operand stack already, and the code of a statement to the frame that has
  the names after it, or out of the frame. Calls in it are taken to be followed; that they are
  is shown by induction on the frames that are left.

  * `Scene`                 -- a frame in the unit of a callable, with its names;
  * `ExprPlaced.follows`    -- expressions;
  * `Resumes`               -- how the machine stands after a statement;
  * `StmtsPlaced.follows`   -- statements;
  * `Compiled.callsFollowed` -- calls.
-/
namespace Stackling

/-- A frame of a callable runs its unit, with so many frames left, and has the values of the
    names in scope. -/
structure Scene (p : Program) (types : TypeTable) (code : Bytecode) (limit left : Nat)
    (u : CodeUnit) (c : CallableDecl) (L : Layout) (env : Env) (f : Frame) (fs : List Frame) :
    Prop where
  compiled : Compiled p types code
  calls : CallsFollowed p types code limit left
  room : fs.length + 1 + left = limit
  unit : code.unit? f.unit = some u
  shows : f.Shows p c L env

section

variable {p : Program} {types : TypeTable} {code : Bytecode} {limit left : Nat} {u : CodeUnit}
  {c : CallableDecl} {L L' : Layout} {env : Env} {f : Frame} {fs : List Frame}

/-- The frame stands before an instruction of its unit. -/
theorem Scene.at (h : Scene p types code limit left u c L env f fs) {pc : Nat} {op : Op}
    (hop : u.ops[pc]? = some op) : (f.goto pc).At code u op := ⟨h.unit, hop⟩

theorem Scene.distinct (h : Scene p types code limit left u c L env f fs) : p.Distinct :=
  have ⟨_, ht⟩ := h.compiled.typed
  ht.distinct

/-- **The call of a unit is followed** from the operands for its arguments. -/
theorem Scene.call (h : Scene p types code limit left u c L env f fs) {pc : Nat} {id : UnitId}
    {callee : CallableDecl} {args vs vs₀ : List Value} (hc : p.callables[id]? = some callee)
    (ha : List.Forall₂ (Value.Of p) args (paramTypes callee.params))
    (hs : ∀ w, code.unit? id = some w → w.arity = args.length → ∀ globals sink,
      step code limit (.of vs₀ (f.goto pc :: fs) globals sink) =
        .ofResult sink (if limit ≤ fs.length + 1 then .error (.stackOverflow limit)
          else .ok (.of vs (⟨id, 0, args, Array.replicate w.locals .void, vs.length⟩ ::
            f.goto (pc + 1) :: fs) globals sink))) :
    Follows p code limit vs₀ (f.goto pc :: fs) (p.call types limit left id args)
      (Gained p callee.returns vs (f.goto (pc + 1) :: fs)) := by
  obtain ⟨w, hw, he⟩ := h.compiled.placed.coded hc
  exact CallsFollowed.call h.calls hc hw ha h.room (hs w hw (he.takes ha))

theorem truth?_ofBool (b : Bool) : (Value.ofBool b).truth? = some b := by
  cases b <;> rfl

/-! ## 1. Expressions -/

mutual
/-- **The evaluation of an expression is followed by its code.** -/
theorem ExprPlaced.follows {pc pc' : Nat} {ty : Ty} {vs : List Value} : (e : Expr) →
    ExprPlaced p types code u c L pc e ty pc' → Scene p types code limit left u c L env f fs →
    Follows p code limit vs (f.goto pc :: fs) (evalExpr p (p.call types limit left) env e)
      (Gained p ty vs (f.goto pc' :: fs))
  | .int _ n, .int _ hop, h => by
    rw [evalExpr]
    exact .puts (h.at hop) nofun (fun _ _ _ _ _ _ => rfl) .int
  | .text _ s, .text _ hop, h => by
    rw [evalExpr]
    exact .puts (h.at hop) nofun (fun _ _ _ _ _ _ => rfl) .text
  | .char _ ch, .char _ hop, h => by
    rw [evalExpr]
    exact .puts (h.at hop) nofun (fun _ _ _ _ _ _ => rfl) .char
  | .bool _ b, .bool _ hop, h => by
    rw [evalExpr]
    exact .puts (h.at hop) nofun (fun _ _ _ _ _ _ => by cases b <;> rfl) (.ofBool b)
  | .name _ name, .name _ hf _ hop, h => by
    rw [evalExpr]
    exact (h.shows.goto pc).name h.compiled (h.at hop) hf
  | .binary _ op left right, .binary _ hl hr hty ho hop, h => by
    obtain ⟨hvl, hvr, -⟩ := hty.ne_void
    rw [evalExpr]
    refine (ExprPlaced.follows left hl h).bind fun a vs₁ fs₁ hga => ?_
    obtain ⟨ha, rfl, rfl⟩ := hga.value hvl
    refine (ExprPlaced.follows right hr h).bind fun b vs₂ fs₂ hgb => ?_
    obtain ⟨hb, rfl, rfl⟩ := hgb.value hvr
    obtain ⟨r, hg, heval, hy⟩ := hty.gives ho ha hb
    rw [heval]
    refine .computes (h.at hop) (fun ty hprint => ?_) hg hy
    subst hprint
    obtain h | h | h | h | h | ⟨_, _, h⟩ := BinaryOp.op?_cases ho <;> cases h
  | .array _ items, .array _ hv hop hi, h => by
    rw [evalExpr]
    have hitems := ItemsPlaced.follows vs [] items hi h hv rfl nofun
    refine .gives [] (h.at hop) nofun (hitems.bind fun vals vs' fs' hvals => ?_)
      fun _ _ _ _ _ _ => rfl
    obtain ⟨hof, rfl, rfl⟩ := hvals
    exact .pure (.of (.array hof))
  | .hash _ entries, .hash _ hk hv hop he, h => by
    rw [evalExpr]
    have hentries := EntriesPlaced.follows vs [] entries he h hk hv (.hash nofun nofun)
    refine .gives [] (h.at hop) nofun (hentries.bind fun after vs' fs' hafter => ?_)
      fun _ _ _ _ _ _ => rfl
    obtain ⟨hof, rfl, rfl⟩ := hafter
    exact .pure (.of hof)
  | .fn node params returns (.mk body span), @ExprPlaced.fn _ _ _ _ _ _ _ _ _ _ _ _ place _ hl _
      hop, h => by
    rw [evalExpr, show node.id = (Literal.mk node params returns (.mk body span)).node.id from rfl,
      Program.placeOf_eq h.compiled.ids hl]
    exact .puts (h.at hop) nofun (Computes.gives_pushUnit h.compiled.placed (.literal hl))
      (.unit (.literal hl))
  | .index _ target key, .indexArray _ _ hg hk hop, h => by
    rw [evalExpr]
    refine (ExprPlaced.follows target hg h).bind fun a vs₁ fs₁ hga => ?_
    obtain ⟨ha, rfl, rfl⟩ := hga.value nofun
    refine (ExprPlaced.follows key hk h).bind fun b vs₂ fs₂ hgb => ?_
    obtain ⟨hb, rfl, rfl⟩ := hgb.value nofun
    obtain ⟨r, hgives, heval, hy⟩ := gives_indexArray ha hb
    rw [heval]
    exact .computes (h.at hop) nofun hgives hy
  | .index _ target key, .indexHash _ _ hkt hg hk hop, h => by
    rw [evalExpr]
    refine (ExprPlaced.follows target hg h).bind fun a vs₁ fs₁ hga => ?_
    obtain ⟨ha, rfl, rfl⟩ := hga.value nofun
    refine (ExprPlaced.follows key hk h).bind fun b vs₂ fs₂ hgb => ?_
    obtain ⟨hb, rfl, rfl⟩ := hgb.value (Ty.key_ne_void hkt)
    obtain ⟨r, hgives, heval, hy⟩ := gives_indexHash hkt ha hb
    rw [heval]
    exact .computes (h.at hop) nofun hgives hy
  | .call _ (.name _ name) args, .callFunction _ hf ha hop, h => by
    obtain ⟨decl, hdecl, -, hent, heval⟩ := (h.shows.evalName_callable h.distinct hf).1 _ rfl
    cases hent
    rw [evalExpr, evalExpr, heval, pure_bind]
    refine (ArgsPlaced.follows args ha h).bind fun vals vs₁ fs₁ hvals => ?_
    obtain ⟨hof, rfl, rfl⟩ := hvals
    rw [ArgsPlaced.length args ha, ← hof.length_eq] at hop
    exact h.call (Program.callable_function hdecl) hof fun w hw harity globals sink =>
      step_call (h.at hop) hw harity
  | .call _ (.name _ name) args, .callBuiltin _ _ hf ha hb hop, h => by
    obtain ⟨-, heval⟩ := (h.shows.evalName_callable h.distinct hf).2 _ rfl
    rw [evalExpr, evalExpr, heval, pure_bind]
    refine (ArgsPlaced.follows args ha h).bind fun vals vs₁ fs₁ hvals => ?_
    obtain ⟨hof, rfl, rfl⟩ := hvals
    obtain ⟨harity, hy⟩ := hb.yields hof
    exact .computes (h.at hop) nofun (gives_callBuiltin harity) hy
  | .call _ callee args, .callValue _ hcallee ha hop, h => by
    rw [evalExpr]
    refine (ExprPlaced.follows callee hcallee h).bind fun v vs₁ fs₁ hgv => ?_
    obtain ⟨hv, rfl, rfl⟩ := hgv.value nofun
    refine (ArgsPlaced.follows args ha h).bind fun vals vs₂ fs₂ hvals => ?_
    obtain ⟨hof, rfl, rfl⟩ := hvals
    rw [ArgsPlaced.length args ha, ← hof.length_eq] at hop
    obtain ⟨id, target, rfl, htarget, rfl, rfl⟩ | ⟨b, rfl, rfl, rfl⟩ := hv.fn_inv
    · exact h.call htarget.callable hof fun w hw harity globals sink =>
        step_callIndirect (h.at hop) hw harity
    · rw [← List.singleton_append, ← List.append_assoc]
      exact .computes (h.at hop) nofun (gives_callIndirect b vals _)
        (b.typed_signature.yields hof).2
termination_by structural e => e

/-- Items are stored in the array on the operands. -/
theorem ItemsPlaced.follows {pc pc' index : Nat} {element : Ty} (vs done : List Value) :
    (items : List Expr) → ItemsPlaced p types code u c L element index pc items pc' →
    Scene p types code limit left u c L env f fs → element ≠ .void → done.length = index →
    (∀ v ∈ done, v.Of p element) →
    Follows p code limit (.array (done ++ List.replicate items.length .void) :: vs)
      (f.goto pc :: fs) (evalAll p (p.call types limit left) env items) fun vals vs' fs' =>
        (∀ v ∈ done ++ vals, v.Of p element) ∧ vs' = .array (done ++ vals) :: vs ∧
          fs' = f.goto pc' :: fs
  | [], .nil, _, _, _, hdone => by
    rw [evalAll]
    exact .pure ⟨(List.append_nil done).symm ▸ hdone, rfl, rfl⟩
  | item :: rest, .cons hi hop hr, h, hv, hindex, hdone => by
    rw [evalAll]
    refine (ExprPlaced.follows item hi h).bind fun v vs₁ fs₁ hitem => ?_
    obtain ⟨hof, rfl, rfl⟩ := hitem.value hv
    have hrest := ItemsPlaced.follows vs (done ++ [v]) rest hr h hv
      (by rw [List.length_append, hindex]; rfl)
      (List.forall_mem_append.mpr ⟨hdone, List.forall_mem_singleton.mpr hof⟩)
    subst hindex
    refine .gives [v, _] (h.at hop) nofun (hrest.bind fun vals vs' fs' hvals => ?_)
      (gives_setElement v done rest.length)
    rw [List.append_assoc, List.singleton_append] at hvals
    exact .pure hvals
termination_by structural items => items

/-- Entries are added to the hash on the operands. -/
theorem EntriesPlaced.follows {pc pc' : Nat} {key value : Ty} (vs : List Value)
    (before : List (HashKey × Value)) : (entries : List (Expr × Expr)) →
    EntriesPlaced p types code u c L key value pc entries pc' →
    Scene p types code limit left u c L env f fs → key = .int ∨ key = .string → value ≠ .void →
    (Value.hash before).Of p (.hash key value) →
    Follows p code limit (.hash before :: vs) (f.goto pc :: fs)
      (evalEntries p (p.call types limit left) env before entries) fun after vs' fs' =>
        (Value.hash after).Of p (.hash key value) ∧ vs' = .hash after :: vs ∧
          fs' = f.goto pc' :: fs
  | [], .nil, _, _, _, hbefore => by
    rw [evalEntries]
    exact .pure ⟨hbefore, rfl, rfl⟩
  | (k, e) :: rest, .cons hk he hop hr, h, hkey, hv, hbefore => by
    rw [evalEntries]
    refine (ExprPlaced.follows k hk h).bind fun v vs₁ fs₁ hkv => ?_
    obtain ⟨hkof, rfl, rfl⟩ := hkv.value (Ty.key_ne_void hkey)
    refine (ExprPlaced.follows e he h).bind fun w vs₂ fs₂ hev => ?_
    obtain ⟨heof, rfl, rfl⟩ := hev.value hv
    obtain ⟨key', hkey', rfl⟩ := hkof.key_inv hkey
    rw [hkey']
    have hrest := EntriesPlaced.follows vs _ rest hr h hkey hv (hbefore.insertEntry hkof heof)
    exact .gives [w, _, _] (h.at hop) nofun hrest (gives_insertEntry key' w before)
termination_by structural entries => entries

/-- The values of arguments are put on the operands. -/
theorem ArgsPlaced.follows {pc pc' : Nat} {params : List Ty} {vs : List Value} :
    (args : List Expr) → ArgsPlaced p types code u c L pc args params pc' →
    Scene p types code limit left u c L env f fs →
    Follows p code limit vs (f.goto pc :: fs) (evalAll p (p.call types limit left) env args)
      fun vals vs' fs' => List.Forall₂ (Value.Of p) vals params ∧ vs' = vals.reverse ++ vs ∧
        fs' = f.goto pc' :: fs
  | [], .nil, _ => by
    rw [evalAll]
    exact .pure ⟨.nil, rfl, rfl⟩
  | arg :: rest, .cons hv ha hr, h => by
    rw [evalAll]
    refine (ExprPlaced.follows arg ha h).bind fun v vs₁ fs₁ harg => ?_
    obtain ⟨hof, rfl, rfl⟩ := harg.value hv
    refine (ArgsPlaced.follows rest hr h).bind fun vals vs₂ fs₂ hvals => ?_
    obtain ⟨hofs, rfl, rfl⟩ := hvals
    refine .pure ⟨.cons hof hofs, ?_, rfl⟩
    rw [List.reverse_cons, List.append_assoc, List.singleton_append]
termination_by structural args => args
end

/-! ## 2. Statements -/

/-- **How the machine stands after a statement:** the frame goes on with the names after it, and
    not if the statement always returns, or the frame has been left with a result. -/
inductive Resumes (p : Program) (types : TypeTable) (code : Bytecode) (limit left : Nat)
    (u : CodeUnit) (c : CallableDecl) (L : Layout) (env : Env) (returns : Bool) (pc : Nat)
    (vs : List Value) (fs : List Frame) : Flow → List Value → List Frame → Prop
  | next {env' f f'} (h : Scene p types code limit left u c L env' f fs) (hf : f' = f.goto pc)
      (hb : f.base = vs.length) (ht : env'.tail = env.tail) (hr : returns = false) :
      Resumes p types code limit left u c L env returns pc vs fs (.next env') vs (f' :: fs)
  | back {v vs'} (hv : v.Has p c.returns) (hvs : vs' = c.returns.put v vs) :
      Resumes p types code limit left u c L env returns pc vs fs (.back v) vs' fs

variable {L₁ : Layout} {pc pc' pc₁ : Nat} {vs : List Value} {returns : Bool}

/-- A scene with other locals and names. -/
theorem Scene.shown (h : Scene p types code limit left u c L env f fs) {f' : Frame} {env' : Env}
    (hs : f'.Shows p c L' env') (hf : f'.unit = f.unit) :
    Scene p types code limit left u c L' env' f' fs :=
  ⟨h.compiled, h.calls, h.room, hf ▸ h.unit, hs⟩

/-- A statement that declares nothing and goes on. -/
theorem Resumes.stay {f' : Frame} (h : Scene p types code limit left u c L env f fs)
    (hb : f.base = vs.length) (hf : f' = f.goto pc) :
    Resumes p types code limit left u c L env false pc vs fs (.next env) vs (f' :: fs) :=
  .next h hf hb rfl rfl

/-- The frame is left without a result. -/
theorem Scene.retVoid (h : Scene p types code limit left u c L env f fs) (hb : f.base = vs.length)
    (hop : u.ops[pc]? = some .retVoid) (globals : Array (Option Value)) (sink : Sink) :
    step code limit (.of vs (f.goto pc :: fs) globals sink) = .running (.of vs fs globals sink) :=
  @step_retVoid _ _ _ _ _ vs _ _ [] (h.at hop) hb

/-- **A declaration at top level stores its cell.** -/
theorem Scene.declareCell {globals : GlobalNames} {cell : Nat} {name : String} {ty : Ty}
    {v : Value} (h : Scene p types code limit left u c ⟨[], globals⟩ env f fs)
    (hb : f.base = vs.length) (hc : p.cells[cell]? = some (name, ty)) (hv : v.Of p ty)
    (hop : u.ops[pc]? = some (.storeGlobal cell)) :
    Follows p code limit (v :: vs) (f.goto pc :: fs)
      (do return Flow.next (← declare env name v))
      (Resumes p types code limit left u c ⟨[], (name, .global cell, .value ty) :: globals⟩ env
        false (pc + 1) vs fs) := by
  obtain rfl : env = [] := List.forall₂_nil_left_iff.mp h.shows.scopes
  intro w cells hw
  have hshows : f.Shows p c ⟨[], (name, .global cell, .value ty) :: globals⟩ [] :=
    ⟨h.shows.size, .nil, List.forall_mem_cons.mpr ⟨.cell hc, h.shows.globals⟩⟩
  exact ⟨vs, f.goto (pc + 1) :: fs, _, .next (h.shown hshows rfl) rfl hb rfl rfl,
    hw.store h.distinct hc hv, .single (step_storeGlobal (h.at hop))⟩

/-- **A local declaration stores its slot.** -/
theorem Scene.declareLocal {slot : Nat} (name : String) {ty : Ty} {v : Value}
    (h : Scene p types code limit left u c L env f fs) (hb : f.base = vs.length)
    (hs : L.scopes ≠ []) (hslot : c.slots[slot]? = some ty)
    (hfresh : ∀ scope ∈ L.scopes, ∀ x ∈ scope, x.2.1 ≠ .loc slot) (hv : v.Of p ty)
    (hop : u.ops[pc]? = some (.storeLocal slot)) :
    Follows p code limit (v :: vs) (f.goto pc :: fs)
      (do return Flow.next (← declare env name v))
      (Resumes p types code limit left u c (L.bind name (.loc slot) ty) env false (pc + 1) vs
        fs) := by
  obtain ⟨env', hdeclare, htail, hshows⟩ := h.shows.bind name hs hslot hfresh hv
  have hscene := h.shown hshows rfl
  rw [hdeclare, pure_bind]
  exact .step (fun globals sink => step_storeLocal (h.at hop))
    (.pure (.next hscene rfl hb htail rfl))

/-- A line is written by both. -/
theorem Scene.print {ty : Ty} {v : Value} (h : Scene p types code limit left u c L env f fs)
    (hb : f.base = vs.length) (hop : u.ops[pc]? = some (.print ty)) :
    Follows p code limit (v :: vs) (f.goto pc :: fs)
      (do
        Eval.writeLine (v.format ty)
        return Flow.next env)
      (Resumes p types code limit left u c L env false (pc + 1) vs fs) := by
  intro w globals hw
  have hstep := @step_print code limit u (f.goto pc) fs vs globals w.sink v ty (h.at hop)
  rcases hwrite : w.sink.write (v.format ty ++ "\n") with ⟨sink, _ | _⟩
  · have heval : (Eval.writeLine (v.format ty) >>= fun _ => pure (Flow.next env)) w =
        .error (.fault (.output Sink.fullMessage) sink) := by
      show StateT.bind (Eval.writeLine (v.format ty)) _ w = _
      rw [StateT.bind, Eval.writeLine, hwrite]
      rfl
    rw [hwrite] at hstep
    rw [heval]
    exact ⟨1, .fault hstep⟩
  · have heval : (Eval.writeLine (v.format ty) >>= fun _ => pure (Flow.next env)) w =
        .ok (.next env, { w with sink }) := by
      show StateT.bind (Eval.writeLine (v.format ty)) _ w = _
      rw [StateT.bind, Eval.writeLine, hwrite]
      rfl
    rw [hwrite] at hstep
    rw [heval]
    exact ⟨vs, f.goto (pc + 1) :: fs, globals, .stay h hb rfl, hw.write sink, .single hstep⟩

/-- **A condition decides where the frame goes on.** -/
theorem Scene.test {l : Label} {target : Nat} {b : Bool} {α : Type} {m : Eval α}
    {good : α → List Value → List Frame → Prop}
    (h : Scene p types code limit left u c L env f fs) (hnot : u.ops[pc]? = some .not)
    (hjump : u.ops[pc + 1]? = some (.jumpIf l)) (ho : u.offset? l = some target)
    (hm : Follows p code limit vs (f.goto (if b then pc + 2 else target) :: fs) m good) :
    Follows p code limit (.ofBool b :: vs) (f.goto pc :: fs) m good := by
  refine .gives [.ofBool b] (h.at hnot) nofun (.step (fun globals sink => ?_) hm) (gives_not _)
  have hstep := @step_jumpIf code limit u (f.goto (pc + 1)) fs vs globals sink l target
    (h.at hjump) ho !b
  cases b
  · exact hstep
  · exact hstep

/-- **After the arm of a branch** its names are forgotten, and the frame goes on behind the
    branch. -/
theorem Resumes.arm {vs' : List Value} {fs' : List Frame} {flow : Flow} {arm : Bool}
    (h : Resumes p types code limit left u c L₁ ([] :: env) arm pc₁ vs fs flow vs' fs')
    (hg : L.branch.Grown L₁) (hr : arm = false → returns = false)
    (hs : pc' = pc₁ ∨ ∀ f : Frame, code.unit? f.unit = some u → ∀ globals sink,
      step code limit (.of vs (f.goto pc₁ :: fs) globals sink) =
        .running (.of vs (f.goto pc' :: fs) globals sink)) :
    Follows p code limit vs' fs' (pure (flow.leaving env))
      (Resumes p types code limit left u c L env returns pc' vs fs) := by
  cases h with
  | next h hf hb ht hno =>
    have hscene := h.shown (h.shows.of_branch hg ht) rfl
    subst hf
    rcases hs with rfl | hstep
    · exact .pure (.next hscene rfl hb rfl (hr hno))
    · exact .step (hstep _ h.unit) (.pure (.next hscene rfl hb rfl (hr hno)))
  | back hv hvs => exact .pure (.back hv hvs)

mutual
/-- **What a statement does is followed by its code.** -/
theorem StmtPlaced.follows {pc pc' : Nat} {L L' : Layout} {env : Env} {f : Frame} : (s : Stmt) →
    StmtPlaced p types code u c L pc s L' pc' → Scene p types code limit left u c L env f fs →
    f.base = vs.length →
    Follows p code limit vs (f.goto pc :: fs) (evalStmt p (p.call types limit left) types env s)
      (Resumes p types code limit left u c L' env s.alwaysReturns pc' vs fs)
  | .declare _ _ name _ value, .declareCell _ hv he hcell hop, h, hb => by
    rw [evalStmt]
    refine (ExprPlaced.follows value he h).bind fun v vs₁ fs₁ hg => ?_
    obtain ⟨hof, rfl, rfl⟩ := hg.value hv
    exact h.declareCell hb hcell hof hop
  | .declare _ _ name _ value, .declareLocal hs hv he hslot hfresh hop, h, hb => by
    rw [evalStmt]
    refine (ExprPlaced.follows value he h).bind fun v vs₁ fs₁ hg => ?_
    obtain ⟨hof, rfl, rfl⟩ := hg.value hv
    exact h.declareLocal name hb hs hslot hfresh hof hop
  | .returns _ none, .returnsNothing _ hr hop, h, hb => by
    rw [evalStmt]
    exact .step (h.retVoid hb hop) (.pure (.back (hr ▸ Value.has_void) (by rw [hr]; rfl)))
  | .returns _ (some value), .returnsVoid _ hr he hop, h, hb => by
    rw [evalStmt]
    refine (ExprPlaced.follows value he h).bind fun v vs₁ fs₁ hg => ?_
    obtain ⟨hhas, rfl, rfl⟩ := hg
    exact .step (h.retVoid hb hop) (.pure (.back (hr ▸ hhas) (by rw [hr]; rfl)))
  | .returns _ (some value), .returns _ hr he hop, h, hb => by
    rw [evalStmt]
    refine (ExprPlaced.follows value he h).bind fun v vs₁ fs₁ hg => ?_
    obtain ⟨hof, rfl, rfl⟩ := hg.value hr
    exact .step (fun globals sink => @step_ret _ _ _ _ _ vs _ _ _ [] (h.at hop) hb)
      (.pure (.back hof.has (Ty.put_of_ne hr).symm))
  | .expr value, .exprVoid he, h, hb => by
    rw [evalStmt]
    refine (ExprPlaced.follows value he h).bind fun v vs₁ fs₁ hg => ?_
    obtain ⟨-, rfl, rfl⟩ := hg
    exact .pure (.stay h hb rfl)
  | .expr value, .expr hv he hop, h, hb => by
    rw [evalStmt]
    refine (ExprPlaced.follows value he h).bind fun v vs₁ fs₁ hg => ?_
    obtain ⟨-, rfl, rfl⟩ := hg.value hv
    exact .step (fun globals sink => step_pop (h.at hop)) (.pure (.stay h hb rfl))
  | .branch _ condition (.mk yes _) none, .branch hc hnot hjump hafter hy, h, hb => by
    rw [evalStmt]
    refine (ExprPlaced.follows condition hc h).bind fun v vs₁ fs₁ hg => ?_
    obtain ⟨hof, rfl, rfl⟩ := hg.value nofun
    obtain ⟨b, rfl⟩ := hof.bool_inv
    rw [truth?_ofBool, show Eval.get? (some b) = pure b from rfl, pure_bind, evalBlock]
    refine h.test hnot hjump hafter ?_
    cases b with
    | false => exact .pure (.stay h hb rfl)
    | true =>
      exact (StmtsPlaced.follows yes hy (h.shown h.shows.branch rfl) hb).bind
        fun flow vs' fs' hflow => hflow.arm (StmtsPlaced.grown yes hy)
          (fun _ => rfl) (.inl rfl)
  | .branch _ condition (.mk yes _) (some (.mk no _)),
      .branchElse hc hnot hjump hother hy hskip hafter hn, h, hb => by
    rw [evalStmt]
    refine (ExprPlaced.follows condition hc h).bind fun v vs₁ fs₁ hg => ?_
    obtain ⟨hof, rfl, rfl⟩ := hg.value nofun
    obtain ⟨b, rfl⟩ := hof.bool_inv
    rw [truth?_ofBool, show Eval.get? (some b) = pure b from rfl, pure_bind, evalBlock, evalBlock,
      Stmt.alwaysReturns, Block.alwaysReturns, Block.alwaysReturns]
    refine h.test hnot hjump hother ?_
    cases b with
    | false =>
      exact (StmtsPlaced.follows no hn (h.shown h.shows.branch rfl) hb).bind
        fun flow vs' fs' hflow => hflow.arm (StmtsPlaced.grown no hn)
          (fun hr => by rw [hr, Bool.and_false]) (.inl rfl)
    | true =>
      exact (StmtsPlaced.follows yes hy (h.shown h.shows.branch rfl) hb).bind
        fun flow vs' fs' hflow => hflow.arm (StmtsPlaced.grown yes hy)
          (fun hr => by rw [hr, Bool.false_and]) (.inr fun f hu globals sink =>
            step_jump ⟨hu, hskip⟩ hafter)
  | .print _ value, .print hv he hop, h, hb => by
    rw [evalStmt]
    refine (ExprPlaced.follows value he h).bind fun v vs₁ fs₁ hg => ?_
    obtain ⟨-, rfl, rfl⟩ := hg.value hv
    rw [he.filed]
    exact h.print hb hop
  | .block (.mk body _), .block hbody, h, hb => by
    rw [evalStmt, evalBlock, Stmt.alwaysReturns, Block.alwaysReturns]
    exact StmtsPlaced.follows body hbody h hb
termination_by structural s => s

theorem StmtsPlaced.follows {pc pc' : Nat} {L L' : Layout} {env : Env} {f : Frame} :
    (body : List Stmt) → StmtsPlaced p types code u c L pc body L' pc' →
    Scene p types code limit left u c L env f fs → f.base = vs.length →
    Follows p code limit vs (f.goto pc :: fs)
      (evalStmts p (p.call types limit left) types env body)
      (Resumes p types code limit left u c L' env (anyAlwaysReturns body) pc' vs fs)
  | [], .nil, h, hb => by
    rw [evalStmts]
    exact .pure (.stay h hb rfl)
  | s :: rest, .cons hs hr, h, hb => by
    rw [evalStmts]
    refine (StmtPlaced.follows s hs h hb).bind fun flow vs₁ fs₁ hflow => ?_
    cases hflow with
    | back hv hvs => exact .pure (.back hv hvs)
    | next h₁ hf hb₁ ht hno =>
      subst hf
      refine (StmtsPlaced.follows rest hr h₁ hb₁).mono fun flow vs₂ fs₂ hflow => ?_
      cases hflow with
      | back hv hvs => exact .back hv hvs
      | next h₂ hf hb₂ ht₂ hno₂ =>
        exact .next h₂ hf hb₂ (ht₂.trans ht) (by rw [anyAlwaysReturns, hno, hno₂]; rfl)
termination_by structural body => body
end

end

/-! ## 3. Calls -/

/-- **Calls are followed,** however many frames are left. -/
theorem Compiled.callsFollowed {p : Program} {types : TypeTable} {code : Bytecode}
    (h : Compiled p types code) (limit left : Nat) : CallsFollowed p types code limit left := by
  induction left with
  | zero => exact fun _ _ _ hpos => absurd hpos (Nat.lt_irrefl 0)
  | succ left ih =>
    intro id c u args vs fs hc hu hargs _ hroom
    obtain ⟨globals, hplaced⟩ := h.placed.callables id c hc
    cases hplaced with
    | @mk _ _ _ w L pc hw _ _ hl hg _ hb ht he _ =>
      cases hu.symm.trans hw
      have hcall : p.call types limit (left + 1) id args = do
          return (← evalStmts p (p.call types limit left) types (c.env args) c.body).result := by
        rw [Program.call, hc]
      have hscene : Scene p types code limit left u c (c.layout globals) (c.env args)
          ⟨id, 0, args, Array.replicate u.locals .void, vs.length⟩ fs :=
        ⟨h, ih, by omega, hu, CallableDecl.shows (by simpa using hl) rfl hargs hg⟩
      rw [hcall]
      refine (StmtsPlaced.follows c.body hb hscene rfl).bind fun flow vs' fs' hflow => ?_
      cases hflow with
      | back hv hvs => exact .pure ⟨hv, hvs, rfl⟩
      | next h' hf hb' _ hno =>
        -- a body that comes to its end belongs to a callable without a result
        have hvoid : c.returns = .void :=
          he.resolve_right (by rw [hno]; exact Bool.false_ne_true)
        rw [hvoid] at ht ⊢
        subst hf
        exact .step (h'.retVoid hb' ht) (.pure ⟨Value.has_void, rfl, rfl⟩)

end Stackling
