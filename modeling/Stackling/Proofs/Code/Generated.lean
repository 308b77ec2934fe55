import Stackling.Proofs.Code.Literals
import Stackling.Proofs.Code.Units
import Stackling.Proofs.Typing.Acceptance

/-
  File:     Stackling/Proofs/Code/Generated.lean
  Subject:  Code is generated for every accepted program.

  The units of a program are written in the order in which the generator goes through them,
  and each is placed where the relations of code demand. No conversion but the identity is
  asked for, so that the code is the same whatever the others do.

  * `Standing.callable`, `.lowerFunctions` -- the units of functions and of `main`;
  * `Standing.finish`                 -- the program with the unit that a run starts with;
  * `ProgramTyped.generated`          -- a well typed program has code, and it is placed;
  * `generate_accepted`               -- code is generated for what the analysis accepts.
-/
namespace Stackling

open Generate

/-! ## 1. Units of functions -/

variable {p : Program} {types : TypeTable} {g : Generator} {globals : GlobalNames}
  {pending : UnitId → Prop}

/-- Units are written from one state between units to another, without a global name. -/
structure UnitsWritten (p : Program) (types : TypeTable) (globals : GlobalNames)
    (pending : UnitId → Prop) (literals : List Literal) (m : Conversion → Generate Unit)
    (placed : Bytecode → Prop) (g g' : Generator) : Prop where
  run : ∀ conv, Conversion.Trivial conv → m conv g = .ok ((), g')
  standing : Standing p types g' globals pending
  literals : g'.literals = g.literals + literals.length
  cells : g'.globalNames = g.globalNames
  holds : ∀ code, Holds code g' → Holds code g ∧ placed code

theorem begun_callableBuilder (id : UnitId) {c : CallableDecl} (ho : c.outside = false) :
    Begun (callableBuilder id c) id c := by
  refine ⟨rfl, rfl, rfl, rfl, rfl, rfl, rfl, rfl, ho.symm, ?_⟩
  unfold CallableDecl.layout
  rw [ho]
  rfl

theorem begun_initializer (p : Program) :
    Begun (.newInitializer p.globalsUnit) p.functions.length p.globalsCallable :=
  ⟨rfl, rfl, rfl, rfl, rfl, rfl, rfl, rfl, rfl, rfl⟩

/-- **The unit of a function is written.** -/
theorem Standing.callable (c : CallableDecl) (id : Nat) (span : Span) {Γ' : Context}
    {rows : Rows} (h : Standing p types g globals pending) (ho : c.outside = false)
    (hid : pending id) (hs : ((c.layout globals).context []).Sane) (hw : c.returns.Proper)
    (ht : StmtsTyped ((c.layout globals).context []) (some c.returns) c.body Γ' rows)
    (hliterals : Segment p.literals g.literals (stmtLiterals c.body))
    (hrows : ∀ row ∈ rows, types.find? row.1 = some row.2)
    (hv : ∀ x ∈ c.params, x.written.toTy ≠ .void)
    (he : c.returns = .void ∨ anyAlwaysReturns c.body = true) :
    ∃ g', UnitsWritten p types globals (fun i : Nat => pending i ∧ i ≠ id) (stmtLiterals c.body)
      (fun conv => lowerCallable conv (.new id c.name c.params.length c.returns) c.params
        (.mk c.body span))
      (fun code => CallablePlaced p types code id c globals) g g' := by
  obtain ⟨g₁, v, hunit⟩ := h.unit (some c.returns) (begun_callableBuilder id ho) hid hs
    (fun _ hty => ⟨ho, Option.some.inj hty⟩) (.some hw) ht hliterals hrows
    (fun hout => absurd hout (by rw [ho]; exact Bool.false_ne_true)) hv he
  obtain ⟨L', -, hbody, hstanding⟩ := hunit.body
  have hscopes : (c.layout globals).scopes ≠ [] := by
    unfold CallableDecl.layout
    rw [ho]
    exact List.cons_ne_nil _ _
  have hglobals : L'.globals = globals := by
    rw [hbody.wrote.grown.globals hscopes]
    rfl
  refine ⟨g.endUnit g₁ v, fun conv hc => ?_, hglobals ▸ hstanding, hbody.wrote.literals,
    (hbody.wrote.inner hscopes).2, hunit.holds⟩
  refine unit_ok ?_ hunit.finish (hunit.number ▸ hunit.lt)
  rw [bind_of_ok (bindParams_ok c.params _), lowerBlock]
  exact hbody.run conv hc

theorem Standing.congr {pending' : UnitId → Prop} (h : Standing p types g globals pending)
    (hp : ∀ i, pending' i ↔ pending i) : Standing p types g globals pending' where
  table := h.table
  functions := h.functions
  outside := h.outside
  names := h.names
  counted := h.counted
  reserved i hi := h.reserved i ((hp i).mp hi)
  finished i hi hn := h.finished i hi fun hi' => hn ((hp i).mpr hi')

theorem Block.alwaysReturns_eq (b : Block) : b.alwaysReturns = anyAlwaysReturns b.body := by
  cases b
  rw [alwaysReturns, body]

theorem Block.mk_body_span (b : Block) : Block.mk b.body b.span = b := by
  cases b
  rfl

/-- The context of the body of a function is that of its layout. -/
theorem FunctionDecl.context_layout {entries : List (String × Entity)}
    (h : globals.map (fun x => (x.1, x.2.2)) = entries) (f : FunctionDecl) :
    (f.callable.layout globals).context [] = ⟨[paramScope f.params], [], entries⟩ := by
  rw [← h, ← slotScope_types]
  rfl

/-- **The units of functions are written,** one after the other. -/
theorem Standing.lowerFunctions {fs : List FunctionDecl} {id : Nat} {rows : Rows}
    {entries : List (String × Entity)} (h : Standing p types g globals pending)
    (hentries : globals.map (fun x => (x.1, x.2.2)) = entries)
    (hs : Context.Sane ⟨[], [], entries⟩)
    (hid : ∀ i < fs.length, pending (id + i)) (hp : ∀ f ∈ fs, f.returns.toTy.Proper)
    (ht : FunctionsTyped entries fs rows)
    (hliterals : Segment p.literals g.literals (functionLiterals fs))
    (hrows : ∀ row ∈ rows, types.find? row.1 = some row.2) :
    ∃ g', UnitsWritten p types globals (fun i : Nat => pending i ∧ ¬ (id ≤ i ∧ i < id + fs.length))
      (functionLiterals fs) (fun conv => Stackling.lowerFunctions conv id fs)
      (fun code => ∀ i f, fs[i]? = some f →
        CallablePlaced p types code (id + i) f.callable globals) g g' := by
  induction fs generalizing g pending id rows with
  | nil =>
    refine ⟨g, fun _ _ => rfl, h.congr fun i : Nat => ?_, rfl, rfl, fun _ hc => ⟨hc, by simp⟩⟩
    rw [List.length_nil]
    exact ⟨fun hi => hi.1, fun hi => ⟨hi, by omega⟩⟩
  | cons f fs ih =>
    cases ht with
    | @cons _ _ rows₁ rows₂ hf hrest =>
      obtain ⟨hparams, hb, he⟩ := hf
      obtain ⟨hproper, hprest⟩ := List.forall_mem_cons.mp hp
      have hl : Segment p.literals g.literals
          (stmtLiterals f.callable.body ++ functionLiterals fs) := by
        rw [functionLiterals, Block.literals_eq] at hliterals
        exact hliterals
      have hsane := hs.literal (paramScope_proper hparams)
      have hctx := FunctionDecl.context_layout hentries f
      obtain ⟨g₁, h₁⟩ := h.callable f.callable id f.body.span rfl
        (by simpa using hid 0 (Nat.succ_pos _)) (hctx ▸ hsane) hproper (hctx ▸ hb) hl.left
        (fun row hr => hrows row (List.mem_append_left _ hr)) hparams.value
        (he.imp_right fun he => (Block.alwaysReturns_eq f.body).symm.trans he)
      have hpend : ∀ i < fs.length, pending (id + 1 + i) ∧ id + 1 + i ≠ id := fun i hi =>
        ⟨by simpa [Nat.add_assoc, Nat.add_comm 1] using hid (i + 1) (Nat.succ_lt_succ hi), by omega⟩
      obtain ⟨g₂, h₂⟩ := ih h₁.standing hpend hprest hrest (h₁.literals ▸ hl.right)
        fun row hr => hrows row (List.mem_append_right _ hr)
      refine ⟨g₂, fun conv hc => ?_, h₂.standing.congr fun i : Nat => ?_, ?_,
        h₂.cells.trans h₁.cells, fun code hc => ?_⟩
      · have hrun := h₁.run conv hc
        rw [show Block.mk f.callable.body f.body.span = f.body from f.body.mk_body_span] at hrun
        exact (bind_of_ok hrun).trans (h₂.run conv hc)
      · rw [List.length_cons, and_assoc]
        refine and_congr_right fun _ => ⟨fun hi => ⟨?_, ?_⟩, fun hi => ?_⟩ <;> omega
      · rw [h₂.literals, h₁.literals, functionLiterals, Block.literals_eq, List.length_append,
          Nat.add_assoc]
        rfl
      · obtain ⟨hc₁, hplaced⟩ := h₂.holds code hc
        obtain ⟨hc₀, hfirst⟩ := h₁.holds code hc₁
        refine ⟨hc₀, fun i f' hf' => ?_⟩
        cases i with
        | zero =>
          obtain rfl : f = f' := by simpa using hf'
          exact hfirst
        | succ i =>
          rw [show id + (i + 1) = id + 1 + i by omega]
          exact hplaced i f' (by simpa using hf')

/-! ## 2. The first and the last steps -/

theorem reserve_ok (g : Generator) :
    reserve g = .ok (g.units.size, { g with units := g.units.push none }) := rfl

/-- **Units are reserved for the functions, the statements at top level and `main`.** -/
theorem standing_start (types : TypeTable) (hd : (p.entries.map (·.1)).Nodup) :
    ∃ g, Standing p types g p.places (fun i : Nat => i < p.functions.length + 2) ∧
      g.literals = 0 ∧ g.globalNames = #[] ∧
      ∀ {α : Type} (k : UnitId → UnitId → Generate α),
        (reserveFunctions p.functions >>= fun _ => reserve >>= fun globals =>
          reserve >>= fun main => k globals main) (.new types) =
            k p.globalsUnit p.mainUnit g := by
  obtain ⟨hn, -, -⟩ := nodup_withFunctions.mp hd
  have hreserve := reserveFunctions_ok (g := .new types) hn fun _ _ => rfl
  have hentries : ([] : List FunctionEntry) ++
      functionEntries (#[] : Array (Option CodeUnit)).size p.functions =
        functionEntries 0 p.functions := rfl
  refine ⟨{ Generator.new types with
    units := ⟨List.replicate (p.functions.length + 2) none⟩
    functions := functionEntries 0 p.functions }, ?_, rfl, rfl, fun {α} k => ?_⟩
  · refine ⟨rfl, rfl, fun name => ?_, p.names_places, ?_, fun i hi => ?_, fun i hi hp => ?_⟩
    · rw [Program.lookup_places hd]
      simp only [Generator.outside?, Generator.new, Generator.function?, List.lookup_nil]
      cases (functionEntries 0 p.functions).find? fun e => e.name == name <;> rfl
    · simp [Program.literalUnit, Generator.new]
    · have hi' : i < p.functions.length + 2 := hi
      simp [hi']
    · exact absurd (by simpa using hi) hp
  · have hunits : ((⟨List.replicate p.functions.length none⟩ : Array (Option CodeUnit)).push
        none).push none = ⟨List.replicate (p.functions.length + 2) none⟩ := by
      apply Array.toList_inj.mp
      simp [List.replicate_succ']
    rw [bind_of_ok hreserve, bind_of_ok (reserve_ok _), bind_of_ok (reserve_ok _)]
    simp only [Generator.new, List.nil_append, hunits]
    simp [Program.globalsUnit, Program.mainUnit]

theorem finishedUnits_ok (id : UnitId) (us : List CodeUnit) :
    finishedUnits id (us.map some) = .ok us := by
  induction us generalizing id with
  | nil => rfl
  | cons u us ih =>
    rw [List.map_cons, finishedUnits, ih]
    rfl

/-- The unit that a run starts with, before its last instruction. -/
def entryBody (p : Program) : Generate Unit := do
  emit (.call p.globalsUnit 0 false)
  emit (.call p.mainUnit 0 false)

/-- The unit that a run starts with has been written behind the others. -/
structure EntryWritten (p : Program) (g g₁ : Generator) (v : CodeUnit) : Prop where
  run : Generate.unit (.new g.units.size "<entry>" 0 .void) (entryBody p)
    { g with units := g.units.push none } = .ok ((), g.endUnit g₁ v)
  units : g₁.units = g.units.push none
  cells : g₁.globalNames = g.globalNames
  number : v.id = g.units.size
  plain : Plain v.ops.toList
  starts : v.arity = 0 ∧ v.locals = 0 ∧
    v.ops = #[.call p.globalsUnit 0 false, .call p.mainUnit 0 false, .retVoid]

theorem exists_entryWritten (p : Program) (g : Generator) : ∃ g₁ v, EntryWritten p g g₁ v := by
  obtain ⟨b, hb⟩ : ∃ b, b = UnitBuilder.new g.units.size "<entry>" 0 .void := ⟨_, rfl⟩
  obtain ⟨g₀, hg₀⟩ : ∃ g₀ : Generator, g₀ = { g with units := g.units.push none, current := b } :=
    ⟨_, rfl⟩
  obtain ⟨g₁, hg₁⟩ : ∃ g₁, g₁ = (g₀.put (.call p.globalsUnit 0 false)).put
    (.call p.mainUnit 0 false) := ⟨_, rfl⟩
  have hwhole : g₀.Extends g₁ :=
    hg₁ ▸ (@Generator.Extends.put _ (.call p.globalsUnit 0 false) nofun).trans
      (@Generator.Extends.put _ (.call p.mainUnit 0 false) nofun)
  obtain ⟨v, hfin⟩ := hwhole.finished_ok (b := b) (by rw [hg₀]) (by rw [hb]; rfl) (by rw [hb]; rfl)
    (by rw [hg₁, hg₀, hb]; rfl)
  have hbody : entryBody p g₀ = .ok ((), g₁) := by
    rw [hg₁]
    exact (bind_of_ok (emit_ok (Nat.zero_le _))).trans (emit_ok (Nat.zero_le _))
  have hunits : g₁.units = g.units.push none := by
    rw [hg₁, hg₀]
    rfl
  have hid : v.id = g.units.size := hfin.id.trans (by rw [hb]; rfl)
  refine ⟨g₁, v, ?_, hunits, by rw [hg₁, hg₀]; rfl, hid, hfin.plain, ?_, ?_, ?_⟩
  · rw [← hb]
    exact unit_ok (hg₀ ▸ hbody) hfin.finish (by rw [hid, hunits]; simp)
  · rw [hfin.arity, hb]
    rfl
  · rw [hfin.locals, hg₁, hg₀, hb]
    rfl
  · rw [hfin.ops, hg₁, hg₀, hb]
    rfl

/-- **No unit is left that is only reserved** when nothing is still to be written. -/
theorem Standing.written (h : Standing p types g globals fun _ => False) :
    ∃ us : List CodeUnit, g.units.toList = us.map some ∧ ∀ u ∈ us, Plain u.ops.toList := by
  obtain ⟨us, hus⟩ := exists_map_some (l := g.units.toList) fun i hi => by
    obtain ⟨w, hw, -⟩ := h.finished i (by simpa using hi) id
    exact ⟨w, by rw [Array.getElem?_toList, hw]⟩
  refine ⟨us, hus, fun u hu => ?_⟩
  obtain ⟨i, hi⟩ := List.getElem?_of_mem hu
  have hunit : g.units[i]? = some (some u) := by
    rw [← Array.getElem?_toList, hus, List.getElem?_map, hi]
    rfl
  obtain ⟨w, hw, hp⟩ := h.finished i (Array.getElem?_eq_some_iff.mp hunit).1 id
  rw [hunit] at hw
  cases hw
  exact hp

/-- **When all units are written the program is finished** with the unit that a run starts
    with. -/
theorem Standing.finish (h : Standing p types g globals fun _ => False) :
    ∃ code : Bytecode, Holds code g ∧ code.entry = g.units.size ∧
      code.units.size = g.units.size + 1 ∧ code.globals = g.globalNames ∧
      (∀ u ∈ code.units, Plain u.ops.toList) ∧
      (∃ u, code.unit? code.entry = some u ∧ u.arity = 0 ∧ u.locals = 0 ∧
        u.ops = #[.call p.globalsUnit 0 false, .call p.mainUnit 0 false, .retVoid]) ∧
      ∃ g', (do
        let entry ← reserve
        Generate.unit (.new entry "<entry>" 0 .void) (entryBody p)
        let g ← get
        let units ← finishedUnits 0 g.units.toList
        return ⟨units.toArray, g.globalNames, entry⟩ : Generate Bytecode) g = .ok (code, g') := by
  obtain ⟨us, hus, hplain⟩ := h.written
  obtain ⟨g₁, v, he⟩ := exists_entryWritten p g
  have hlen : g.units.size = us.length := by
    rw [← Array.length_toList, hus, List.length_map]
  have hall : (g.endUnit g₁ v).units.toList = (us ++ [v]).map some := by
    show (g₁.units.setIfInBounds v.id (some v)).toList = _
    rw [he.units, he.number, Array.toList_setIfInBounds, Array.toList_push, hus, hlen,
      List.set_append_right _ _ (by simp)]
    simp
  have hself : (us ++ [v])[g.units.size]? = some v := by rw [hlen]; simp
  refine ⟨⟨(us ++ [v]).toArray, g.globalNames, g.units.size⟩, fun i w hw => ?_, rfl,
    by simp [hlen], rfl, fun u hu => ?_, ⟨v, (List.getElem?_toArray ..).trans hself, he.starts⟩,
    g.endUnit g₁ v, ?_⟩
  · have hi : us[i]? = some w := by
      rw [← Array.getElem?_toList, hus, List.getElem?_map] at hw
      simpa using hw
    show (us ++ [v]).toArray[i]? = _
    rw [List.getElem?_toArray, List.getElem?_append_left (List.getElem?_eq_some_iff.mp hi).1, hi]
  · rcases List.mem_append.mp (by simpa using hu : u ∈ us ++ [v]) with hu | hu
    · exact hplain u hu
    · rw [List.mem_singleton.mp hu]
      exact he.plain
  · rw [bind_of_ok (reserve_ok g), bind_of_ok he.run, bind_of_ok get_ok, hall, finishedUnits_ok]
    show Except.ok ((⟨(us ++ [v]).toArray, g₁.globalNames, g.units.size⟩ : Bytecode),
      g.endUnit g₁ v) = _
    rw [he.cells]

/-! ## 3. Programs -/

/-- The contexts of the global names. -/
theorem context_globals {L : Layout} {Γ : Context} (h : Γ = L.context []) :
    L.globals.map (fun x => (x.1, x.2.2)) = Γ.globals := by
  rw [h]
  rfl

/-- Every literal of a program has its unit if the bodies have theirs. -/
theorem callablePlaced_literal {code : Bytecode} (hn : p.ids.Nodup) {place : Nat} {l : Literal}
    (hl : p.literals[place]? = some l) (h : LiteralPlaced p types code l) :
    ∃ globals, CallablePlaced p types code (p.literalUnit place) (l.callable place) globals := by
  obtain ⟨place', globals, hl', hc⟩ := h
  obtain rfl : place = place' := by rw [← Program.placeOf_eq hn hl, Program.placeOf_eq hn hl']
  exact ⟨globals, hc⟩

/-- A literal stands in the statements at top level, in a function, or in the main block. -/
theorem Program.literal_cases {l : Literal} (h : l ∈ p.literals) :
    l ∈ stmtLiterals p.globals ∨
      (∃ (i : Nat) (f : FunctionDecl), p.functions[i]? = some f ∧ l ∈ stmtLiterals f.body.body) ∨
      l ∈ stmtLiterals p.main.body := by
  rw [literals, List.mem_append, List.mem_append] at h
  rcases h with (h | h) | h
  · exact .inl h
  · obtain ⟨i, f, hf, h⟩ := mem_functionLiterals h
    exact .inr (.inl ⟨i, f, hf, f.body.literals_eq ▸ h⟩)
  · exact .inr (.inr (p.main.literals_eq ▸ h))

/-- **Every callable has its unit** if those that are no literals have theirs. -/
theorem callables_placed {code : Bytecode} {outer : GlobalNames} (hids : p.ids.Nodup)
    (htop : CallablePlaced p types code p.globalsUnit p.globalsCallable outer)
    (hfunctions : ∀ (i : Nat) (f : FunctionDecl), p.functions[i]? = some f →
      CallablePlaced p types code i f.callable globals)
    (hmain : CallablePlaced p types code p.mainUnit p.mainCallable globals) (id : UnitId)
    (c : CallableDecl) (hc : p.callables[id]? = some c) :
    ∃ globals, CallablePlaced p types code id c globals := by
  rcases Program.callable_cases hc with ⟨f, hf, rfl⟩ | ⟨rfl, rfl⟩ | ⟨rfl, rfl⟩ |
    ⟨place, l, hl, rfl, rfl⟩
  · exact ⟨_, hfunctions id f hf⟩
  · exact ⟨_, htop⟩
  · exact ⟨_, hmain⟩
  · refine callablePlaced_literal hids hl ?_
    rcases Program.literal_cases (List.mem_of_getElem? hl) with hmem | ⟨i, f, hf, hmem⟩ | hmem
    · exact htop.literal l hmem
    · exact (hfunctions i f hf).literal l hmem
    · exact hmain.literal l hmem

/-- **A well typed program has code,** which stands where the relations of code say, and in
    which nothing is turned into a truth value. -/
theorem ProgramTyped.generated {rows : Rows} (h : ProgramTyped p rows)
    (hrows : ∀ row ∈ rows, types.find? row.1 = some row.2) (hids : p.ids.Nodup) :
    ∃ code, (∀ conv, Conversion.Trivial conv → generateWith conv p types = .ok code) ∧
      ProgramPlaced p types code ∧ ∀ u ∈ code.units, Plain u.ops.toList := by
  cases h with
  | @mk Γ Γ' rows₁ rows₂ rows₃ hr hd hg hfs hm =>
    have hΓ := Context.sane_entries (hfs.proper hr) hd
    have hΓ₁ := StmtsTyped.sane hΓ p.globals hg
    obtain ⟨entries, rfl⟩ := (hg.grown p.globals).outside
    have hliterals : Segment p.literals 0
        (stmtLiterals p.globals ++ functionLiterals p.functions ++ stmtLiterals p.main.body) := by
      rw [← Block.literals_eq]
      exact .self _
    obtain ⟨g₀, hs₀, hlit₀, hcells₀, hrun₀⟩ := standing_start types hd
    -- the statements at top level
    have hctx : (p.globalsCallable.layout p.places).context [] = ⟨[], [], p.entries⟩ := by
      rw [← p.places_entries]
      rfl
    obtain ⟨g₁, v₁, hunit₁⟩ := hs₀.unit none (begun_initializer p)
      (show p.functions.length < p.functions.length + 2 by omega) (hctx ▸ hΓ) nofun .none
      (hctx ▸ hg) (hlit₀ ▸ hliterals.left.left)
      (fun row hr => hrows row (List.mem_append_left _ (List.mem_append_left _ hr)))
      (fun _ => by rw [hcells₀]; exact .self _) nofun (.inl rfl)
    obtain ⟨L₁, hL₁, hbody₁, hs₁⟩ := hunit₁.body
    have hentries : L₁.globals.map (fun x => (x.1, x.2.2)) = entries := context_globals hL₁
    have hlit₁ : (g₀.endUnit g₁ v₁).literals = 0 + (stmtLiterals p.globals).length :=
      hlit₀ ▸ hbody₁.wrote.literals
    -- the functions
    obtain ⟨g₂, h₂⟩ := @Standing.lowerFunctions _ _ _ _ _ p.functions 0 _ _ hs₁ hentries hΓ₁
      (fun i hi => ⟨by omega, by omega⟩) hr hfs
      (hlit₁ ▸ hliterals.left.right)
      fun row hr => hrows row (List.mem_append_left _ (List.mem_append_right _ hr))
    -- the main block
    have hctx' : (p.mainCallable.layout L₁.globals).context [] = ⟨[[]], [], entries⟩ := by
      rw [← hentries]
      rfl
    have hΓ₂ : Context.Sane ⟨[[]], [], entries⟩ := hΓ₁.branch
    obtain ⟨g₃, h₃⟩ := h₂.standing.callable p.mainCallable p.mainUnit p.main.span rfl
      ⟨⟨by simp [Program.mainUnit], by simp [Program.mainUnit]⟩,
        by simp [Program.mainUnit]⟩ (hctx' ▸ hΓ₂) .void (hctx' ▸ hm)
      (by
        rw [h₂.literals, hlit₁, Nat.add_assoc, ← List.length_append]
        exact hliterals.right)
      (fun row hr => hrows row (List.mem_append_right _ hr)) nofun (.inl rfl)
    have hs₃ := @Standing.congr _ _ _ _ _ (fun _ => False) h₃.standing fun i : Nat => by
      simp only [Program.mainUnit, false_iff]
      omega
    -- the unit that a run starts with
    obtain ⟨code, hholds, hentry, hsize, hglobals, hplain, hfirst, g₄, hrun₄⟩ := hs₃.finish
    have hlit₃ : g₃.literals = p.literals.length := by
      rw [h₃.literals, h₂.literals, hlit₁, Nat.zero_add, Program.literals, Block.literals_eq,
        List.length_append, List.length_append]
      rfl
    have hlast : g₃.units.size = p.entryUnit :=
      hs₃.counted.trans (congrArg p.literalUnit hlit₃)
    obtain ⟨hholds₂, hmain⟩ := h₃.holds code hholds
    obtain ⟨hholds₁, hfunctions⟩ := h₂.holds code hholds₂
    obtain ⟨-, htop⟩ := hunit₁.holds code hholds₁
    have hcallables := callables_placed hids htop
      (fun i f hf => Nat.zero_add i ▸ hfunctions i f hf) hmain
    refine ⟨code, fun conv hc => ?_,
      ⟨hcallables, hfirst, hlast ▸ hentry, hlast ▸ hsize, ?_⟩, hplain⟩
    · have hrun₁ := unit_ok (hbody₁.run conv hc) hunit₁.finish (hunit₁.number ▸ hunit₁.lt)
      have hrun₃ := h₃.run conv hc
      rw [show Block.mk p.mainCallable.body p.main.span = p.main from p.main.mk_body_span] at hrun₃
      have hrun : lowerProgram conv p (.new types) = .ok (code, g₄) := by
        unfold lowerProgram
        refine (hrun₀ _).trans ?_
        exact (bind_of_ok hrun₁).trans ((bind_of_ok (h₂.run conv hc)).trans
          ((bind_of_ok hrun₃).trans hrun₄))
      unfold generateWith StateT.run
      rw [hrun]
      rfl
    · have houter := hbody₁.wrote.outer rfl
      rw [hglobals, h₃.cells, h₂.cells]
      show g₁.globalNames.toList = _
      rw [houter]
      show g₀.globalNames.toList ++ _ = _
      rw [hcells₀]
      rfl

/-- **Every accepted program has code.** Nothing fails on the way, and of the conversions only
    those that leave a value as it is are asked for: the code is the same whatever the others
    do, and nothing in it is turned into a truth value. -/
theorem generate_accepted {tokens : List Token} {p : Program} {a : Analysis}
    (h : parse tokens = .ok p) (hc : typeCheck p = .ok a) (hd : a.diagnostics = []) :
    ∃ code, generate p a.types = .ok code ∧
      (∀ conv, Conversion.Trivial conv → generateWith conv p a.types = .ok code) ∧
      ∀ u ∈ code.units, Op.intToBool ∉ u.ops := by
  obtain ⟨rows, ht, htypes⟩ := typeCheck_accepts_iff.mp ⟨a, hc, hd, rfl⟩
  have hids : p.ids.Nodup := parse_nodup h
  have hrows : ∀ row ∈ rows, a.types.find? row.1 = some row.2 := by
    intro row hr
    rw [htypes, TypeTable.find?_fileAll (ht.ids ▸ hids)]
    exact hr
  obtain ⟨code, hrun, -, hplain⟩ := ht.generated hrows hids
  refine ⟨code, hrun convert convert_trivial, hrun, fun u hu hmem => hplain u hu ?_⟩
  exact Array.mem_toList_iff.mpr hmem

/-- The tokens of a program whose `main` prints a number in a branch. -/
def branchTokens : List Token :=
  [.blank .fnWord "fn", .blank .identifier "main", .blank .openParen "(", .blank .closeParen ")",
    .blank .openCurly "\x7b", .blank .ifWord "if", .blank .openParen "(", .blank .trueWord "true",
    .blank .closeParen ")", .blank .openCurly "\x7b", .blank .printWord "print",
    .blank .openParen "(", .blank .number "7", .blank .closeParen ")", .blank .closeCurly "\x7d",
    .blank .closeCurly "\x7d"]

/-- The program is accepted, so it has code. -/
theorem branch_has_code : ∃ p a code, parse branchTokens = .ok p ∧ typeCheck p = .ok a ∧
    a.diagnostics = [] ∧ generate p a.types = .ok code := by
  obtain ⟨code, hg, -, -⟩ := @generate_accepted branchTokens _ _ rfl rfl rfl
  exact ⟨_, _, code, rfl, rfl, rfl, hg⟩

end Stackling
