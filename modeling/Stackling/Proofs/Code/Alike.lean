import Stackling.Proofs.Code.Meeting

/-
  File:     Stackling/Proofs/Code/Alike.lean
  Subject:  What both passes go over they take alike.

  Both passes are taken apart construct by construct, the analysis as it reports nothing and the
  generator as it does not fail. The parts follow each other in both, and between them the passes
  meet again.

  * `call_name_alike`, `call_value_alike`   -- calls;
  * `checkExpr_alike`, `checkStmt_alike`, … -- expressions and statements.
-/
namespace Stackling

open Check Generate

variable {within : Option Enclosing} {B : Bindings} {wanted : Option Ty} {a a' : Analysis}
  {g g' : Generator} {x y : Ty} {node : Node}

/-! ## 1. Steps of the generator -/

/-- No step of a branch binds a name. -/
theorem SameNames.test {ty : Ty} {after : Label} (h : lowerTest ty g = .ok (after, g')) :
    SameNames g.enter g' := by
  obtain ⟨g₁, hc, -, rfl⟩ := lowerTest_inv h
  have htested : SameNames g₁ g₁.tested := ⟨rfl, rfl, rfl⟩
  exact ((convert hc).trans htested).enter

theorem SameNames.between {otherwise after : Label}
    (h : lowerBetween otherwise g = .ok (after, g')) : SameNames g.leave.enter g' := by
  obtain ⟨-, rfl⟩ := lowerBetween_inv h
  exact ⟨rfl, rfl, rfl⟩

theorem SameNames.behind {after : Label} {u : Unit} (h : lowerBehind after g = .ok (u, g')) :
    SameNames g.leave g' := by
  obtain rfl := lowerBehind_inv h
  exact ⟨rfl, rfl, rfl⟩

/-- Nor does the end of a return, or of a statement that is an expression. -/
theorem SameNames.returned {ty : Ty} {u : Unit}
    (h : (if ty.isVoid then Generate.emit .retVoid else do
      Generate.convert ty (← get).current.returns
      Generate.emit .ret : Generate Unit) g = .ok (u, g')) : SameNames g g' := by
  split at h
  · exact .emit h
  · obtain ⟨_, _, hget, h⟩ := bind_eq_ok.mp h
    cases hget
    exact .turned h

theorem SameNames.dropped {ty : Ty} {u : Unit}
    (h : (if !ty.isVoid then Generate.emit .pop else pure () : Generate Unit) g = .ok (u, g')) :
    SameNames g g' := by
  split at h
  · exact .emit h
  · obtain ⟨-, rfl⟩ := pure_eq_ok.mp h
    exact .refl g

/-! ## 2. Steps of both passes -/

/-- The analysis has nothing to do. -/
theorem Both.generated_only {n : Generate Unit} (h : n g = .ok ((), g')) :
    Both (pure ()) n ⟨a, g⟩ () () ⟨a, g'⟩ := ⟨.pure _ _, h⟩

/-- An expression is filed at its end. -/
theorem Both.filed {m : Generate Unit} (h : m g = .ok ((), g')) (node : Node) (x : Ty) :
    Both (file node x) m ⟨a, g⟩ x () ⟨{ a with types := a.types.file node.id x }, g'⟩ :=
  ⟨.file node x a, h⟩

/-- An expression without parts. -/
theorem constant_alike {e : Expr} (h : Meets within B a g) (hc : e.isConstant = true)
    (hq : Quiet (checkExpr within wanted e) a x a') (hg : lowerExpr convert e g = .ok (y, g'))
    (ha : a'.scopes = a.scopes) (hn : SameNames g g') :
    ExprAlike within B wanted e ⟨a, g⟩ x y ⟨a', g'⟩ ∧ Meets within B a' g' :=
  ⟨.constant hc ⟨hq, hg⟩, h.keep ha hn⟩

/-- A name. -/
theorem name_alike {name : String} (h : Meets within B a g)
    (hq : Quiet (checkExpr within wanted (.name node name)) a x a')
    (hg : lowerExpr convert (.name node name) g = .ok (y, g')) :
    ExprAlike within B wanted (.name node name) ⟨a, g⟩ x y ⟨a', g'⟩ ∧ Meets within B a' g' := by
  have hg' := hg
  obtain ⟨ha, b, hb, hl, hr⟩ := h.bound hq
  rw [lowerExpr] at hg'
  obtain ⟨_, -, he⟩ := lowerName_inv (producing_inv hg').2.1
  exact ⟨.name ⟨h.shows, b, hb, hl, hr⟩ ⟨hq, hg⟩, h.keep ha (.emit he)⟩

/-- **A callable is taken alike** if its body is, and what is known outside of it stays. -/
theorem Known.callable {f : Enclosing} {params : List Param} {body : List Stmt}
    {builder : UnitBuilder} {a₁ a₂ : Analysis} {g₁ g₂ : Generator} {v : CodeUnit}
    {u u₁ u₂ : Unit} (h : Known B a g) (hf : ∀ n ∈ f.floor?, n = B.level + 1)
    (ho : f.floor? = none → B.scopes ++ B.outer = []) (hs : builder.scopes = [])
    (hi : builder.initializer = false)
    (ha : Quiet (do enter; declareParams params (paramTypes params)) a u a₁)
    (hg : bindParams params { g with current := builder } = .ok (u₁, g₁))
    (hb : Meets (some f) (B.callable params) a₁ g₁ →
      ∃ more, StmtsAlike (some f) (B.callable params) body ⟨a₁, g₁⟩ more ⟨a₂, g₂⟩ ∧
        Meets (some f) ((B.callable params).add more) a₂ g₂)
    (hl : Quiet leave a₂ u₂ a') (hfin : g₂.current.finish = .ok v) :
    CallableAlike f B builder params body ⟨a, g⟩ ⟨a', g₂.finished g v⟩ ∧
      Known B a' (g₂.finished g v) := by
  obtain ⟨more, halike, hm⟩ := hb (h.begin hf ho ha hg hs hi)
  exact ⟨.mk ⟨ha, hg⟩ halike hl hfin, h.finish hm hl⟩

/-! ## 3. Calls -/

section Calls

variable {args : List Expr}
  (hbuiltin : ∀ {builtin : Builtin} {types : List Ty} {a a' : Analysis} {g g' : Generator}
    {u : Unit}, Meets within B a g → Quiet (checkBuiltinArgs within builtin none args) a types a' →
    lowerAll convert args g = .ok (u, g') →
    BuiltinArgsAlike within B builtin none args ⟨a, g⟩ ⟨a', g'⟩ ∧ Meets within B a' g')
  (hargs : ∀ {params params' types : List Ty} {a a' : Analysis} {g g' : Generator} {u : Unit},
    params'.length = args.length → Meets within B a g →
    Quiet (checkArgs within params args) a types a' →
    lowerArgs convert params' args g = .ok (u, g') →
    ArgsAlike within B params params' args ⟨a, g⟩ ⟨a', g'⟩ ∧ Meets within B a' g')

include hbuiltin hargs in
/-- **A call by name is taken alike** if its arguments are. -/
theorem call_name_alike {inner : Node} {name : String} (h : Meets within B a g)
    (hq : Quiet (checkExpr within wanted (.call node (.name inner name) args)) a x a')
    (hg : lowerExpr convert (.call node (.name inner name) args) g = .ok (y, g')) :
    ExprAlike within B wanted (.call node (.name inner name) args) ⟨a, g⟩ x y ⟨a', g'⟩ ∧
      Meets within B a' g' := by
  obtain ⟨calleeTy, a₁, a₂, hqc, rfl, hcases⟩ := checkExpr_call_inv hq
  have hgen := lowerCall_inv hg
  obtain ⟨ha, b, hb, hl, hr⟩ := h.bound hqc
  have hn : NameAlike B name ⟨a, g⟩ := ⟨h.shows, b, hb, hl, hr⟩
  have h₁ : Meets within B a₁ g := h.keep ha (.refl g)
  have hboth : Both (checkExpr within none (.name inner name)) (pure ()) ⟨a, g⟩ calleeTy ()
      ⟨a₁, g⟩ := ⟨hqc, rfl⟩
  have htarget := (g.callTarget_name inner name).trans (by rw [hr])
  rcases hcases with ⟨builtin, types, hcallee, hqa, -⟩ | ⟨hnone, params, rfl, hqa⟩
  · have hs := (h.builtinCallee hb hl).mp hcallee
    rw [hs] at htarget
    obtain ⟨_, _, _, _, ht, -⟩ | ⟨_, _, g₁, ht, hga, he⟩ | ⟨_, _, _, _, ht, -⟩ := hgen
    · cases ht.symm.trans htarget
    · cases ht.symm.trans htarget
      obtain ⟨halike, h₂⟩ := hbuiltin h₁ hqa hga
      exact ⟨.callBuiltin hn hcallee hboth halike (.filed he _ _) (h.callsBuiltin hb hl hs inner)
        ⟨hq, hg⟩, h₂.keep rfl (.emit he)⟩
    · cases ht.symm.trans htarget
  · have hnotBuiltin : ∀ builtin, b.source ≠ .builtin builtin := fun builtin hs =>
      nomatch hnone.symm.trans ((h.builtinCallee hb hl).mpr hs)
    obtain ⟨_, place, f, g₁, ht, hf, hlen, hga, he⟩ | ⟨_, builtin, _, ht, -⟩ |
      ⟨_, _, _, _, ht, hgc, hlen, hga, he⟩ := hgen
    · have hs : b.source = .function place := by
        cases hs : b.source <;> rw [hs] at htarget <;> cases ht.symm.trans htarget
        rfl
      obtain ⟨halike, h₂⟩ := hargs hlen h₁ hqa hga
      exact ⟨.callFunction hn hf hboth halike (.filed he _ _)
        (h.callsFunction hb hl hs inner args.length _) ⟨hq, hg⟩, h₂.keep rfl (.emit he)⟩
    · have hs : b.source = .builtin builtin := by
        cases hs : b.source <;> rw [hs] at htarget <;> cases ht.symm.trans htarget
        rfl
      exact absurd hs (hnotBuiltin builtin)
    · have hnotFunction : ∀ place, b.source ≠ .function place := fun place hs => by
        rw [hs] at htarget
        cases ht.symm.trans htarget
      obtain ⟨hc, h₁⟩ := name_alike h hqc hgc
      obtain ⟨halike, h₂⟩ := hargs hlen h₁ hqa hga
      exact ⟨.callValue hc halike (.filed he _ _)
        (h.callsValue hb hl hnotBuiltin hnotFunction inner args.length _) ⟨hq, hg⟩,
        h₂.keep rfl (.emit he)⟩

include hargs in
/-- **A call of a value is taken alike** if callee and arguments are. -/
theorem call_value_alike {callee : Expr} (hvalue : ∀ inner name, callee ≠ .name inner name)
    (hcallee : ∀ {x y : Ty} {a' : Analysis} {g' : Generator},
      Quiet (checkExpr within none callee) a x a' → lowerExpr convert callee g = .ok (y, g') →
      ExprAlike within B none callee ⟨a, g⟩ x y ⟨a', g'⟩ ∧ Meets within B a' g')
    (hq : Quiet (checkExpr within wanted (.call node callee args)) a x a')
    (hg : lowerExpr convert (.call node callee args) g = .ok (y, g')) :
    ExprAlike within B wanted (.call node callee args) ⟨a, g⟩ x y ⟨a', g'⟩ ∧
      Meets within B a' g' := by
  obtain ⟨calleeTy, a₁, a₂, hqc, rfl, hcases⟩ := checkExpr_call_inv hq
  have hgen := lowerCall_inv hg
  have htarget : g.callTarget callee = .value := by
    cases callee with
    | name inner name => exact absurd rfl (hvalue inner name)
    | _ => rfl
  have hnone : ∀ scopes, builtinCallee? scopes callee = none := by
    cases callee with
    | name inner name => exact absurd rfl (hvalue inner name)
    | _ => exact fun _ => rfl
  rcases hcases with ⟨builtin, types, hbuiltin, -⟩ | ⟨-, params, rfl, hqa⟩
  · cases hbuiltin.symm.trans (hnone _)
  · obtain ⟨_, _, _, _, ht, -⟩ | ⟨_, _, _, ht, -⟩ | ⟨_, _, g₁, g₂, -, hgc, hlen, hga, he⟩ := hgen
    · cases ht.symm.trans htarget
    · cases ht.symm.trans htarget
    · obtain ⟨hc, h₁⟩ := hcallee hqc hgc
      obtain ⟨halike, h₂⟩ := hargs hlen h₁ hqa hga
      exact ⟨.callValue hc halike (.filed he _ _) (.value hvalue) ⟨hq, hg⟩,
        h₂.keep rfl (.emit he)⟩

end Calls

/-! ## 4. Expressions and statements -/

mutual
/-- **An expression is taken alike.** -/
theorem checkExpr_alike : (e : Expr) → {within : Option Enclosing} → {B : Bindings} →
    {wanted : Option Ty} → {a a' : Analysis} → {g g' : Generator} → {x y : Ty} →
    Meets within B a g → Quiet (checkExpr within wanted e) a x a' →
    lowerExpr convert e g = .ok (y, g') →
    ExprAlike within B wanted e ⟨a, g⟩ x y ⟨a', g'⟩ ∧ Meets within B a' g'
  | .int _ _, _, _, _, _, _, _, _, _, _, h, hq, hg | .text _ _, _, _, _, _, _, _, _, _, _, h, hq, hg
  | .char _ _, _, _, _, _, _, _, _, _, _, h, hq, hg
  | .bool _ _, _, _, _, _, _, _, _, _, _, h, hq, hg => by
    have hq' := hq
    have hg' := hg
    unfold checkExpr at hq'
    obtain ⟨-, rfl⟩ := hq'.file_inv
    rw [lowerExpr] at hg'
    exact constant_alike h rfl hq hg rfl (.emit (producing_inv hg').2.1)
  | .name _ _, _, _, _, _, _, _, _, _, _, h, hq, hg => name_alike h hq hg
  | .binary node op left right, within, B, wanted, a, a', g, g', x, y, h, hq, hg => by
    obtain ⟨l, r, a₁, a₂, hql, hqr, -, rfl⟩ := checkExpr_binary_iff.mp hq
    obtain ⟨operand, other, o, g₁, g₂, hgl, hgr, -, he⟩ := lowerBinary_inv hg
    obtain ⟨hl, h₁⟩ := checkExpr_alike left h hql hgl
    obtain ⟨hr, h₂⟩ := checkExpr_alike right h₁ hqr hgr
    exact ⟨.binary hl hr (.filed he _ _) ⟨hq, hg⟩, h₂.keep rfl (.emit he)⟩
  | .array node [], within, B, wanted, a, a', g, g', x, y, h, hq, hg => by
    have hq' := hq
    unfold checkExpr at hq'
    obtain ⟨-, rfl⟩ := hq'.file_inv
    obtain ⟨element, g₁, -, hnew, hitems⟩ := lowerArray_inv hg
    rw [lowerItems] at hitems
    obtain ⟨-, rfl⟩ := pure_eq_ok.mp hitems
    exact constant_alike h rfl hq hg rfl (.emit hnew)
  | .array node (first :: rest), within, B, wanted, a, a', g, g', x, y, h, hq, hg => by
    obtain ⟨element, a₁, a₂, hqf, -, hqr, rfl, rfl⟩ := checkExpr_array_iff.mp hq
    obtain ⟨element', g₀, rfl, hnew, hitems⟩ := lowerArray_inv hg
    obtain ⟨_, g₁, g₂, hgf, hstore, hgr⟩ := lowerItems_cons_inv hitems
    obtain ⟨hf, h₁⟩ := checkExpr_alike first (h.keep rfl (.emit hnew)) hqf hgf
    obtain ⟨hr, h₂⟩ := checkItems_alike rest (h₁.keep rfl (.turned hstore)) hqr hgr
    exact ⟨.array (.generated_only hnew) hf (.generated_only hstore) hr
      (.filed (m := pure ()) rfl _ _) ⟨hq, hg⟩, h₂.keep rfl (.refl _)⟩
  | .hash node [], within, B, wanted, a, a', g, g', x, y, h, hq, hg => by
    have hq' := hq
    unfold checkExpr at hq'
    obtain ⟨-, rfl⟩ := hq'.file_inv
    obtain ⟨key, value, g₁, -, hnew, hentries⟩ := lowerHash_inv hg
    rw [lowerEntries] at hentries
    obtain ⟨-, rfl⟩ := pure_eq_ok.mp hentries
    exact constant_alike h rfl hq hg rfl (.emit hnew)
  | .hash node ((k, v) :: rest), within, B, wanted, a, a', g, g', x, y, h, hq, hg => by
    obtain ⟨t, w, a₁, a₂, a₃, hqk, hqv, -, -, hqr, rfl, rfl⟩ := checkExpr_hash_iff.mp hq
    obtain ⟨key, value, g₀, rfl, hnew, hentries⟩ := lowerHash_inv hg
    obtain ⟨_, _, g₁, g₂, g₃, g₄, hgk, hturn, hgv, hstore, hgr⟩ := lowerEntries_cons_inv hentries
    obtain ⟨hk, h₁⟩ := checkExpr_alike k (h.keep rfl (.emit hnew)) hqk hgk
    obtain ⟨hv, h₃⟩ := checkExpr_alike v (h₁.keep rfl (.convert hturn)) hqv hgv
    obtain ⟨hr, h₄⟩ := checkEntries_alike rest (h₃.keep rfl (.turned hstore)) hqr hgr
    exact ⟨.hash (.generated_only hnew) hk (.generated_only hturn) hv (.generated_only hstore) hr
      (.filed (m := pure ()) rfl _ _) ⟨hq, hg⟩, h₄.keep rfl (.refl _)⟩
  | .fn node params returns (.mk body span), within, B, wanted, a, a', g, g', x, y, h, hq, hg => by
    obtain ⟨a₁, a₂, a₃, -, -, hparams, hqb, hleave, -, rfl, rfl⟩ := checkExpr_fn_inv hq
    obtain ⟨g₁, hunit, hemit⟩ := lowerFn_inv hg
    obtain ⟨g₂, v, hwritten, hfin, -, rfl⟩ := unit_inv hunit
    obtain ⟨_, g₃, hbind, hwritten⟩ := bind_eq_ok.mp hwritten
    rw [lowerBlock] at hwritten
    have hknown : Known B a { g.reserve.2 with literals := g.literals + 1 } :=
      ⟨h.shows, h.outside, h.levelled, h.globals⟩
    have hlevel : a.scopes.enter.level = B.level + 1 := hknown.level_enter
    rw [hlevel] at hqb
    obtain ⟨halike, hk⟩ := hknown.callable (f := ⟨returns.toTy, some (B.level + 1)⟩)
      (by rintro _ ⟨⟩; rfl) nofun rfl rfl ((Quiet.enter a).bind hparams) hbind
      (fun hm => checkStmts_alike body hm hqb hwritten) hleave hfin
    exact ⟨.fn halike (.filed hemit _ _) ⟨hq, hg⟩, (h.back hk rfl).keep rfl (.emit hemit)⟩
  | .index node target key, within, B, wanted, a, a', g, g', x, y, h, hq, hg => by
    obtain ⟨t, a₁, k, a₂, hqt, ht, hqk, rfl⟩ := checkExpr_index_inv hq
    have hkey : t.keyOf = some k := by
      rcases ht with ⟨rfl, rfl⟩ | rfl <;> rfl
    obtain ⟨_, _, _, o, g₁, g₂, hgt, hgk, -, hlast⟩ := lowerIndex_inv hg
    obtain ⟨ha, h₁⟩ := checkExpr_alike target h hqt hgt
    obtain ⟨hb, h₂⟩ := checkExpr_alike key h₁ hqk hgk
    rw [← hkey] at hb
    exact ⟨.index ha hb (.filed hlast _ _) ⟨hq, hg⟩, h₂.keep rfl (.turned hlast)⟩
  | .call node callee args, within, B, wanted, a, a', g, g', x, y, h, hq, hg => by
    by_cases hname : ∃ inner name, callee = .name inner name
    · obtain ⟨inner, name, rfl⟩ := hname
      exact call_name_alike (fun h' => checkBuiltinArgs_alike args h')
        (fun hlen h' => checkArgs_alike args hlen h') h hq hg
    · exact call_value_alike (fun hlen h' => checkArgs_alike args hlen h')
        (fun inner name he => hname ⟨inner, name, he⟩)
        (fun hqc hgc => checkExpr_alike callee h hqc hgc) hq hg

theorem checkItems_alike : (items : List Expr) → {within : Option Enclosing} → {B : Bindings} →
    {line index : Nat} → {ty element : Ty} → {a a' : Analysis} → {g g' : Generator} →
    {u u' : Unit} → Meets within B a g → Quiet (checkItems within line ty items) a u a' →
    lowerItems convert element index items g = .ok (u', g') →
    ItemsAlike within B ty element index items ⟨a, g⟩ ⟨a', g'⟩ ∧ Meets within B a' g'
  | [], within, B, line, index, ty, element, a, a', g, g', u, u', h, hq, hg => by
    unfold checkItems at hq
    obtain ⟨-, rfl⟩ := hq.pure_inv
    rw [lowerItems] at hg
    obtain ⟨-, rfl⟩ := pure_eq_ok.mp hg
    exact ⟨.nil, h⟩
  | item :: rest, within, B, line, index, ty, element, a, a', g, g', u, u', h, hq, hg => by
    obtain ⟨found, a₁, hqi, -, hqr⟩ := checkItems_cons_inv hq
    obtain ⟨_, g₁, g₂, hgi, hstore, hgr⟩ := lowerItems_cons_inv hg
    obtain ⟨hi, h₁⟩ := checkExpr_alike item h hqi hgi
    obtain ⟨hr, h₂⟩ := checkItems_alike rest (h₁.keep rfl (.turned hstore)) hqr hgr
    exact ⟨.cons hi (.generated_only hstore) hr, h₂⟩

theorem checkEntries_alike : (entries : List (Expr × Expr)) → {within : Option Enclosing} →
    {B : Bindings} → {line : Nat} → {t w key value : Ty} → {a a' : Analysis} →
    {g g' : Generator} → {u u' : Unit} → Meets within B a g →
    Quiet (checkEntries within line t w entries) a u a' →
    lowerEntries convert key value entries g = .ok (u', g') →
    EntriesAlike within B t w key value entries ⟨a, g⟩ ⟨a', g'⟩ ∧ Meets within B a' g'
  | [], within, B, line, t, w, key, value, a, a', g, g', u, u', h, hq, hg => by
    unfold checkEntries at hq
    obtain ⟨-, rfl⟩ := hq.pure_inv
    rw [lowerEntries] at hg
    obtain ⟨-, rfl⟩ := pure_eq_ok.mp hg
    exact ⟨.nil, h⟩
  | (k, v) :: rest, within, B, line, t, w, key, value, a, a', g, g', u, u', h, hq, hg => by
    obtain ⟨_, a₁, a₂, hqk, hqv, -, hqr⟩ := checkEntries_cons_inv hq
    obtain ⟨_, _, g₁, g₂, g₃, g₄, hgk, hturn, hgv, hstore, hgr⟩ := lowerEntries_cons_inv hg
    obtain ⟨hk, h₁⟩ := checkExpr_alike k h hqk hgk
    obtain ⟨hv, h₃⟩ := checkExpr_alike v (h₁.keep rfl (.convert hturn)) hqv hgv
    obtain ⟨hr, h₄⟩ := checkEntries_alike rest (h₃.keep rfl (.turned hstore)) hqr hgr
    exact ⟨.cons hk (.generated_only hturn) hv (.generated_only hstore) hr, h₄⟩

theorem checkArgs_alike : (args : List Expr) → {within : Option Enclosing} → {B : Bindings} →
    {params params' types : List Ty} → {a a' : Analysis} → {g g' : Generator} → {u : Unit} →
    params'.length = args.length → Meets within B a g →
    Quiet (checkArgs within params args) a types a' →
    lowerArgs convert params' args g = .ok (u, g') →
    ArgsAlike within B params params' args ⟨a, g⟩ ⟨a', g'⟩ ∧ Meets within B a' g'
  | [], within, B, params, params', types, a, a', g, g', u, hn, h, hq, hg => by
    unfold checkArgs at hq
    obtain ⟨-, rfl⟩ := hq.pure_inv
    simp only [lowerArgs] at hg
    obtain ⟨-, rfl⟩ := pure_eq_ok.mp hg
    exact ⟨.nil, h⟩
  | arg :: rest, within, B, params, params', types, a, a', g, g', u, hn, h, hq, hg => by
    obtain ⟨_, _, a₁, hqa, hqr, -⟩ := checkArgs_cons_inv hq
    cases params' with
    | nil => cases hn
    | cons param params' =>
      obtain ⟨_, g₁, g₂, hga, hturn, hgr⟩ := lowerArgs_cons_inv hg
      obtain ⟨ha, h₁⟩ := checkExpr_alike arg h hqa hga
      have h₂ := h₁.keep rfl (.convert hturn)
      obtain ⟨hr, h₃⟩ := checkArgs_alike rest (Nat.succ.inj hn) h₂ hqr hgr
      exact ⟨.cons ha (.generated_only hturn) hr, h₃⟩

theorem checkBuiltinArgs_alike : (args : List Expr) → {within : Option Enclosing} →
    {B : Bindings} → {builtin : Builtin} → {first : Option Ty} → {types : List Ty} →
    {a a' : Analysis} → {g g' : Generator} → {u : Unit} → Meets within B a g →
    Quiet (checkBuiltinArgs within builtin first args) a types a' →
    lowerAll convert args g = .ok (u, g') →
    BuiltinArgsAlike within B builtin first args ⟨a, g⟩ ⟨a', g'⟩ ∧ Meets within B a' g'
  | [], within, B, builtin, first, types, a, a', g, g', u, h, hq, hg => by
    unfold checkBuiltinArgs at hq
    obtain ⟨-, rfl⟩ := hq.pure_inv
    rw [lowerAll] at hg
    obtain ⟨-, rfl⟩ := pure_eq_ok.mp hg
    exact ⟨.nil, h⟩
  | arg :: rest, within, B, builtin, first, types, a, a', g, g', u, h, hq, hg => by
    obtain ⟨_, _, a₁, hqa, hqr, -⟩ := checkBuiltinArgs_cons_inv hq
    obtain ⟨_, g₁, hga, hgr⟩ := lowerAll_cons_inv hg
    obtain ⟨ha, h₁⟩ := checkExpr_alike arg h hqa hga
    obtain ⟨hr, h₂⟩ := checkBuiltinArgs_alike rest h₁ hqr hgr
    exact ⟨.cons ha hr, h₂⟩

/-- **A statement is taken alike,** and what it declares is bound in both passes. -/
theorem checkStmt_alike : (st : Stmt) → {within : Option Enclosing} → {B : Bindings} →
    {a a' : Analysis} → {g g' : Generator} → {u u' : Unit} → Meets within B a g →
    Quiet (checkStmt within st) a u a' → lowerStmt convert st g = .ok (u', g') →
    ∃ more, StmtAlike within B st ⟨a, g⟩ more ⟨a', g'⟩ ∧ Meets within (B.add more) a' g'
  | .declare span constant name written value, within, B, a, a', g, g', u, u', h, hq, hg => by
    obtain ⟨a₁, -, -, hqv, hd⟩ := checkStmt_declare_inv hq
    obtain ⟨ty, g₁, g₂, source, hgv, hc, hgd⟩ := lowerStmt_declare_inv hg
    obtain ⟨hv, h₁⟩ := checkExpr_alike value h hqv hgv
    have h₂ : Meets within B a₁ g₂ := h₁.keep rfl (.convert hc)
    exact ⟨_, .declare hv (.generated_only hc) ⟨hd, hgd⟩ ⟨hq, hg⟩, h₂.declare hd hgd⟩
  | .returns span none, within, B, a, a', g, g', u, u', h, hq, hg => by
    have hg' := hg
    rw [lowerStmt] at hg'
    obtain ⟨f, -, -, ha⟩ := checkStmt_returnsNothing_inv hq
    exact ⟨[], .returnsNothing ⟨hq, hg⟩,
      B.add_nil.symm ▸ h.keep (congrArg _ ha) (.emit (preserving_inv hg').1)⟩
  | .returns span (some value), within, B, a, a', g, g', u, u', h, hq, hg => by
    have hg' := hg
    obtain ⟨f, rfl, hqv⟩ := checkStmt_returns_inv hq
    rw [lowerStmt] at hg'
    obtain ⟨hbody, -⟩ := preserving_inv hg'
    obtain ⟨ty, g₁, hgv, hbody⟩ := bind_eq_ok.mp hbody
    obtain ⟨hv, h₁⟩ := checkExpr_alike value h hqv hgv
    exact ⟨[], .returns hv (.generated_only hbody) ⟨hq, hg⟩,
      B.add_nil.symm ▸ h₁.keep rfl (.returned hbody)⟩
  | .expr value, within, B, a, a', g, g', u, u', h, hq, hg => by
    have hq' := hq
    have hg' := hg
    unfold checkStmt at hq'
    obtain ⟨found, hqv⟩ := hq'.discard_inv
    rw [lowerStmt] at hg'
    obtain ⟨hbody, -⟩ := preserving_inv hg'
    obtain ⟨ty, g₁, hgv, hbody⟩ := bind_eq_ok.mp hbody
    obtain ⟨hv, h₁⟩ := checkExpr_alike value h hqv hgv
    exact ⟨[], .expr hv (.generated_only hbody) ⟨hq, hg⟩,
      B.add_nil.symm ▸ h₁.keep rfl (.dropped hbody)⟩
  | .branch span condition (.mk yes spanYes) none, within, B, a, a', g, g', u, u', h, hq, hg => by
    obtain ⟨a₁, a₂, a₃, hqc, henter, hqy, hleave⟩ := checkStmt_branch_inv hq
    obtain rfl := henter.enter_inv
    obtain ⟨ty, g₁, after, g₂, g₃, hgc, htest, hgy, hbehind⟩ := lowerStmt_branch_inv hg
    obtain ⟨hc, h₁⟩ := checkExpr_alike condition h hqc hgc
    have h₂ := h₁.enter.keep rfl (.test htest)
    obtain ⟨more, hy, h₃⟩ := checkStmts_alike yes h₂ hqy hgy
    exact ⟨[], .branch hc ⟨henter, htest⟩ hy ⟨hleave, hbehind⟩ ⟨hq, hg⟩,
      B.add_nil.symm ▸ (h₃.leave h₁ hleave).keep rfl (.behind hbehind)⟩
  | .branch span condition (.mk yes spanYes) (some (.mk no spanNo)), within, B, a, a', g, g', u, u',
      h, hq, hg => by
    obtain ⟨a₁, a₂, a₃, a₄, a₅, a₆, hqc, henter, hqy, hleave, henter', hqn, hleave'⟩ :=
      checkStmt_branchElse_inv hq
    obtain rfl := henter.enter_inv
    have ha₅ := henter'.enter_inv
    obtain ⟨ty, g₁, otherwise, g₂, g₃, after, g₄, g₅, hgc, htest, hgy, hbetween, hgn, hbehind⟩ :=
      lowerStmt_branchElse_inv hg
    obtain ⟨hc, h₁⟩ := checkExpr_alike condition h hqc hgc
    have h₂ := h₁.enter.keep rfl (.test htest)
    obtain ⟨more, hy, h₃⟩ := checkStmts_alike yes h₂ hqy hgy
    have h₄ := h₃.leave h₁ hleave
    have h₅ : Meets within B.branch a₅ g₄ := h₄.enter.keep (by rw [ha₅]) (.between hbetween)
    obtain ⟨more', hn, h₆⟩ := checkStmts_alike no h₅ hqn hgn
    exact ⟨[], .branchElse hc ⟨henter, htest⟩ hy ⟨hleave.bind henter', hbetween⟩ hn
      ⟨hleave', hbehind⟩ ⟨hq, hg⟩,
      B.add_nil.symm ▸ (h₆.leave h₄ hleave').keep rfl (.behind hbehind)⟩
  | .print span value, within, B, a, a', g, g', u, u', h, hq, hg => by
    have hg' := hg
    obtain ⟨found, hqv, -⟩ := checkStmt_print_inv hq
    rw [lowerStmt] at hg'
    obtain ⟨hbody, -⟩ := preserving_inv hg'
    obtain ⟨ty, g₁, hgv, hbody⟩ := bind_eq_ok.mp hbody
    obtain ⟨hv, h₁⟩ := checkExpr_alike value h hqv hgv
    exact ⟨[], .print hv (.generated_only hbody) ⟨hq, hg⟩,
      B.add_nil.symm ▸ h₁.keep rfl (.emit hbody)⟩
  | .block (.mk body span), within, B, a, a', g, g', u, u', h, hq, hg => by
    have hq' := hq
    have hg' := hg
    unfold checkStmt checkBlock at hq'
    rw [lowerStmt, lowerBlock] at hg'
    obtain ⟨more, hb, h₁⟩ := checkStmts_alike body h hq' (preserving_inv hg').1
    exact ⟨more, .block hb ⟨hq, hg⟩, h₁⟩

theorem checkStmts_alike : (body : List Stmt) → {within : Option Enclosing} → {B : Bindings} →
    {a a' : Analysis} → {g g' : Generator} → {u u' : Unit} → Meets within B a g →
    Quiet (checkStmts within body) a u a' → lowerStmts convert body g = .ok (u', g') →
    ∃ more, StmtsAlike within B body ⟨a, g⟩ more ⟨a', g'⟩ ∧ Meets within (B.add more) a' g'
  | [], within, B, a, a', g, g', u, u', h, hq, hg => by
    unfold checkStmts at hq
    obtain ⟨-, rfl⟩ := hq.pure_inv
    rw [lowerStmts] at hg
    obtain ⟨-, rfl⟩ := pure_eq_ok.mp hg
    exact ⟨[], .nil, by rwa [B.add_nil]⟩
  | st :: rest, within, B, a, a', g, g', u, u', h, hq, hg => by
    unfold checkStmts at hq
    obtain ⟨_, a₁, hqs, hqr⟩ := hq.bind_inv
    rw [lowerStmts] at hg
    obtain ⟨_, g₁, hgs, hgr⟩ := bind_eq_ok.mp hg
    obtain ⟨more, hs, h₁⟩ := checkStmt_alike st h hqs hgs
    obtain ⟨more', hr, h₂⟩ := checkStmts_alike rest h₁ hqr hgr
    exact ⟨more' ++ more, .cons hs hr, by rwa [B.add_append]⟩
end

end Stackling
