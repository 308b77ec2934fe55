import Mathlib.Data.List.Perm.Subperm
import Mathlib.Data.List.Nodup
import Mathlib.Logic.Relation
import Stackling.Proofs.Run.Shapes

/-
  File:     Stackling/Proofs/Run/Equality.lean
  Subject:  Values that are equal but for the order of entries.

  A hash is compared with another one from the left: it has as many entries, and each of its keys
  has an equal value in the other one. No key stands twice, so no entry of the right one is left
  over, and it does not matter which of the two is the left one. Two values are equal exactly if
  one comes from the other by giving hashes in it another order.

  * `Value.Keyed`        -- no key stands twice in a hash of the value;
  * `Value.Step`, `Value.child?`, `Value.at?` -- the ways into a value, and what stands there;
  * `equal_iff`          -- equal values have equal values under every index and key;
  * `Value.Reorders`     -- the entries of a hash somewhere in a value in another order;
  * `Value.structural_equality` -- what structural comparison tells.
-/
namespace Stackling

/-! ## 1. Entries -/

section

variable {k : HashKey} {v w : Value} {es fs : List (HashKey × Value)}

/-- A key that no other entry has finds its value. -/
theorem valueAt?_of_mem (hd : (es.map (·.1)).Nodup) (h : (k, v) ∈ es) :
    valueAt? k es = some v := by
  induction es with
  | nil => cases h
  | cons e rest ih =>
    obtain ⟨k', v'⟩ := e
    obtain ⟨hnot, hd⟩ := List.nodup_cons.mp hd
    rw [valueAt?]
    rcases List.mem_cons.mp h with heq | hmem
    · cases heq
      exact if_pos rfl
    · have hne : k' ≠ k := by
        rintro rfl
        exact hnot (List.mem_map_of_mem (f := (·.1)) hmem)
      rw [if_neg hne]
      exact ih hd hmem

/-- The keys are those that find a value. -/
theorem mem_keys_iff : k ∈ es.map (·.1) ↔ (valueAt? k es).isSome := by
  rw [Option.isSome_iff_exists]
  constructor
  · intro h
    induction es with
    | nil => cases h
    | cons e rest ih =>
      obtain ⟨k', v'⟩ := e
      rw [valueAt?]
      rcases List.mem_cons.mp h with rfl | hmem
      · exact ⟨v', if_pos rfl⟩
      · split
        · exact ⟨v', rfl⟩
        · exact ih hmem
  · rintro ⟨v, hv⟩
    exact List.mem_map_of_mem (f := (·.1)) (mem_of_valueAt? hv)

/-- Under distinct keys the order of entries is of no matter to a key. -/
theorem valueAt?_perm (hd : (es.map (·.1)).Nodup) (h : es.Perm fs) (k : HashKey) :
    valueAt? k es = valueAt? k fs := by
  have hd' : (fs.map (·.1)).Nodup := (h.map _).nodup_iff.mp hd
  refine Option.ext fun v => ?_
  exact ⟨fun hv => valueAt?_of_mem hd' (h.mem_iff.mp (mem_of_valueAt? hv)),
    fun hv => valueAt?_of_mem hd (h.mem_iff.mpr (mem_of_valueAt? hv))⟩

theorem insertEntry_keys (h : valueAt? k es = some v) :
    (insertEntry k w es).map (·.1) = es.map (·.1) := by
  induction es with
  | nil => cases h
  | cons e rest ih =>
    obtain ⟨k', v'⟩ := e
    rw [valueAt?] at h
    rw [insertEntry]
    split
    · rfl
    · rename_i hk
      rw [if_neg hk] at h
      rw [List.map_cons, List.map_cons, ih h]

/-- **Nothing is left over:** keys that are distinct and no fewer than those among which they are
    found are all of these. -/
theorem keys_subset (hd : (es.map (·.1)).Nodup) (hl : es.length = fs.length)
    (hs : es.map (·.1) ⊆ fs.map (·.1)) : fs.map (·.1) ⊆ es.map (·.1) := by
  have hle : (fs.map (·.1)).length ≤ (es.map (·.1)).length := by simp [hl]
  exact ((hd.subperm hs).perm_of_length_le hle).symm.subset

end

/-! ## 2. Places in a value -/

namespace Value

/-- **No key stands twice** in a hash of the value. -/
inductive Keyed : Value → Prop
  | int {n} : Keyed (.int n)
  | char {c} : Keyed (.char c)
  | text {s} : Keyed (.text s)
  | array {items} (hi : ∀ v ∈ items, Keyed v) : Keyed (.array items)
  | hash {entries} (hd : (entries.map (·.1)).Nodup) (hv : ∀ e ∈ entries, Keyed e.2) :
      Keyed (.hash entries)
  | callable {target} : Keyed (.callable target)
  | void : Keyed .void

/-- A way into a value: the index of an item, or the key of an entry. -/
inductive Step
  | index (i : Nat)
  | key (k : HashKey)

/-- What stands there in the value. -/
def child? : Value → Step → Option Value
  | .array items, .index i => items[i]?
  | .hash entries, .key k => valueAt? k entries
  | _, _ => none

/-- What stands at the end of some steps, each into the value that the one before has led to. -/
def at? (v : Value) : List Step → Option Value
  | [] => some v
  | step :: path => (v.child? step).bind (·.at? path)

/-- The value without what is in it. -/
def shell : Value → Value
  | .array _ => .array []
  | .hash _ => .hash []
  | v => v

/-- The number of items or of entries. -/
def size : Value → Nat
  | .array items => items.length
  | .hash entries => entries.length
  | _ => 0

theorem kind_shell (v : Value) : v.shell.kind = v.kind := by cases v <;> rfl

variable {a b c v w : Value} {step : Step}

theorem Keyed.child (h : v.Keyed) (hw : v.child? step = some w) : w.Keyed := by
  cases h with
  | array hi =>
    cases step with
    | index i => exact hi w (List.mem_of_getElem? hw)
    | key k => cases hw
  | hash hd hv =>
    cases step with
    | index i => cases hw
    | key k => exact hv _ (mem_of_valueAt? hw)
  | _ => cases hw

theorem sizeOf_child (h : v.child? step = some w) : sizeOf w < sizeOf v := by
  cases v with
  | array items =>
    cases step with
    | index i =>
      have hlt := List.sizeOf_lt_of_mem (List.mem_of_getElem? h)
      simp only [array.sizeOf_spec]
      omega
    | key k => cases h
  | hash entries =>
    cases step with
    | index i => cases h
    | key k =>
      have hlt := List.sizeOf_lt_of_mem (mem_of_valueAt? h)
      simp only [Prod.mk.sizeOf_spec] at hlt
      simp only [hash.sizeOf_spec]
      omega
  | _ => cases h

/-- **Induction over what is in a value.** -/
theorem childInduction {P : Value → Prop}
    (inner : ∀ v : Value, (∀ step w, v.child? step = some w → P w) → P v) (v : Value) : P v :=
  inner v fun _ w _ => childInduction inner w
termination_by v
decreasing_by exact sizeOf_child ‹_›

end Value

/-! ## 3. What is compared -/

/-- Two values that are found equal. -/
def Value.Equal (v w : Value) : Prop := v.equal w = true

section

variable {α β γ : Type} {R : α → β → Prop} {S : β → γ → Prop} {o : Option α} {o' : Option β}
  {o'' : Option γ}

theorem exists_of_rel_some {x : α} (h : Option.Rel R (some x) o') : ∃ y, o' = some y ∧ R x y := by
  cases h with
  | some hr => exact ⟨_, rfl, hr⟩

theorem isSome_of_rel (h : Option.Rel R o o') : o.isSome = o'.isSome := by
  cases h <;> rfl

theorem rel_self {T : α → α → Prop} (hT : ∀ x, o = some x → T x x) : Option.Rel T o o := by
  cases o with
  | some x => exact .some (hT x rfl)
  | none => exact .none

/-- What may be missing is related in another way, -/
theorem rel_imp {T : α → β → Prop} (h : Option.Rel R o o')
    (hT : ∀ x y, o = some x → o' = some y → R x y → T x y) : Option.Rel T o o' := by
  cases h with
  | some hr => exact .some (hT _ _ rfl rfl hr)
  | none => exact .none

/-- and so may be what it leads to. -/
theorem rel_bind {δ ε : Type} {T : δ → ε → Prop} {f : α → Option δ} {g : β → Option ε}
    (h : Option.Rel R o o')
    (hT : ∀ x y, o = some x → o' = some y → R x y → Option.Rel T (f x) (g y)) :
    Option.Rel T (o.bind f) (o'.bind g) := by
  cases h with
  | some hr => exact hT _ _ rfl rfl hr
  | none => exact .none

/-- It is related the other way round, -/
theorem rel_turned {T : β → α → Prop} (h : Option.Rel R o o')
    (hT : ∀ x y, o = some x → o' = some y → R x y → T y x) : Option.Rel T o' o := by
  cases h with
  | some hr => exact .some (hT _ _ rfl rfl hr)
  | none => exact .none

/-- and across a third one. -/
theorem rel_across {T : α → γ → Prop} (h : Option.Rel R o o') (h' : Option.Rel S o' o'')
    (hT : ∀ x y z, o = some x → o' = some y → o'' = some z → R x y → S y z → T x z) :
    Option.Rel T o o'' := by
  cases h with
  | some hr =>
    cases h' with
    | some hs => exact .some (hT _ _ _ rfl rfl rfl hr hs)
  | none =>
    cases h' with
    | none => exact .none

end

section

variable {xs ys : List Value} {es fs : List (HashKey × Value)}

/-- Lists are equal if they are equally long and equal at every index. -/
theorem equalAll_iff :
    equalAll xs ys = true ↔ ∀ i : Nat, Option.Rel Value.Equal xs[i]? ys[i]? := by
  induction xs generalizing ys with
  | nil =>
    cases ys with
    | nil => exact ⟨fun _ _ => .none, fun _ => rfl⟩
    | cons y ys => exact ⟨nofun, fun h => nomatch h 0⟩
  | cons x xs ih =>
    cases ys with
    | nil => exact ⟨nofun, fun h => nomatch h 0⟩
    | cons y ys =>
      rw [equalAll, Bool.and_eq_true, ih]
      constructor
      · rintro ⟨hx, hrest⟩ i
        cases i with
        | zero => exact .some hx
        | succ i => exact hrest i
      · intro h
        have hx : Option.Rel Value.Equal (some x) (some y) := h 0
        cases hx with
        | some hx => exact ⟨hx, fun i => h (i + 1)⟩

theorem matched_iff :
    matched es fs = true ↔ ∀ e ∈ es, ∃ w, valueAt? e.1 fs = some w ∧ e.2.Equal w := by
  induction es with
  | nil => simp [matched]
  | cons e rest ih =>
    obtain ⟨k, v⟩ := e
    rw [matched, Bool.and_eq_true, ih, List.forall_mem_cons]
    refine and_congr_left' ?_
    cases valueAt? k fs with
    | none => simp
    | some w => simp [Value.Equal]

/-- **Hashes are equal if they are equal under every key,** although they are compared from the
    left only. -/
theorem equal_hash_iff (he : (es.map (·.1)).Nodup) (hf : (fs.map (·.1)).Nodup) :
    (Value.hash es).Equal (.hash fs) ↔
      ∀ k, Option.Rel Value.Equal (valueAt? k es) (valueAt? k fs) := by
  rw [Value.Equal, Value.equal, Bool.and_eq_true, beq_iff_eq, matched_iff]
  constructor
  · rintro ⟨hl, hm⟩ k
    have hsub : es.map (·.1) ⊆ fs.map (·.1) := by
      intro k hk
      obtain ⟨v, hv⟩ := Option.isSome_iff_exists.mp (mem_keys_iff.mp hk)
      obtain ⟨w, hw, -⟩ := hm _ (mem_of_valueAt? hv)
      exact mem_keys_iff.mpr (Option.isSome_of_eq_some hw)
    cases hv : valueAt? k es with
    | some v =>
      obtain ⟨w, hw, heq⟩ := hm _ (mem_of_valueAt? hv)
      rw [hw]
      exact .some heq
    | none =>
      cases hw : valueAt? k fs with
      | none => exact .none
      | some w =>
        -- a key of the right one only would be one too many
        have hk := keys_subset he hl hsub (mem_keys_iff.mpr (Option.isSome_of_eq_some hw))
        rw [mem_keys_iff, hv] at hk
        cases hk
  · intro h
    have hsame : ∀ k, k ∈ es.map (·.1) ↔ k ∈ fs.map (·.1) := by
      intro k
      rw [mem_keys_iff, mem_keys_iff, isSome_of_rel (h k)]
    have hperm := (List.perm_ext_iff_of_nodup he hf).mpr hsame
    refine ⟨by simpa using hperm.length_eq, fun e hmem => ?_⟩
    have hrel := h e.1
    rw [valueAt?_of_mem he hmem] at hrel
    exact exists_of_rel_some hrel

end

namespace Value

variable {a b c v w : Value}

/-- **Equal values** look alike from outside and have equal values under every index and key. -/
theorem equal_iff (ha : a.Keyed) (hb : b.Keyed) :
    a.Equal b ↔ a.shell = b.shell ∧ ∀ step, Option.Rel Equal (a.child? step) (b.child? step) := by
  cases ha with
  | array hi =>
    cases hb with
    | array hj =>
      refine equalAll_iff.trans ⟨fun h => ⟨rfl, fun step => ?_⟩, fun h i => h.2 (.index i)⟩
      cases step with
      | index i => exact h i
      | key k => exact .none
    | _ => exact ⟨nofun, fun h => nomatch h.1⟩
  | hash hd hv =>
    cases hb with
    | hash hd' hw =>
      refine (equal_hash_iff hd hd').trans
        ⟨fun h => ⟨rfl, fun step => ?_⟩, fun h k => h.2 (.key k)⟩
      cases step with
      | index i => exact .none
      | key k => exact h k
    | _ => exact ⟨nofun, fun h => nomatch h.1⟩
  | _ => cases hb <;> simp [Equal, equal, shell, child?]

/-! ## 4. An equivalence -/

theorem equal_refl (h : a.Keyed) : a.Equal a := by
  induction a using childInduction with
  | inner v ih =>
    exact (equal_iff h h).mpr ⟨rfl, fun step =>
      rel_self fun w hw => ih step w hw (h.child hw)⟩

theorem equal_symm (ha : a.Keyed) (hb : b.Keyed) (h : a.Equal b) : b.Equal a := by
  induction a using childInduction generalizing b with
  | inner v ih =>
    obtain ⟨hshell, hchildren⟩ := (equal_iff ha hb).mp h
    exact (equal_iff hb ha).mpr ⟨hshell.symm, fun step =>
      rel_turned (hchildren step) fun w x hw hx => ih step w hw (ha.child hw) (hb.child hx)⟩

theorem equal_trans (ha : a.Keyed) (hb : b.Keyed) (hc : c.Keyed) (h : a.Equal b)
    (h' : b.Equal c) : a.Equal c := by
  induction a using childInduction generalizing b c with
  | inner v ih =>
    obtain ⟨hshell, hchildren⟩ := (equal_iff ha hb).mp h
    obtain ⟨hshell', hchildren'⟩ := (equal_iff hb hc).mp h'
    exact (equal_iff ha hc).mpr ⟨hshell.trans hshell', fun step =>
      rel_across (hchildren step) (hchildren' step) fun w x y hw hx hy =>
        ih step w hw (ha.child hw) (hb.child hx) (hc.child hy)⟩

/-! ## 5. Another order -/

/-- **The entries of one hash,** somewhere in the value, are put in another order. -/
inductive Reorders : Value → Value → Prop
  | here {es fs : List (HashKey × Value)} (h : es.Perm fs) : Reorders (.hash es) (.hash fs)
  | item {items : List Value} {i : Nat} {v w : Value} (hv : items[i]? = some v)
      (h : Reorders v w) : Reorders (.array items) (.array (items.set i w))
  | entry {entries : List (HashKey × Value)} {k : HashKey} {v w : Value}
      (hv : valueAt? k entries = some v) (h : Reorders v w) :
      Reorders (.hash entries) (.hash (insertEntry k w entries))

theorem Reorders.keyed (h : a.Reorders b) (ha : a.Keyed) : b.Keyed := by
  induction h with
  | here hp =>
    cases ha with
    | hash hd hv =>
      exact .hash ((hp.map _).nodup_iff.mp hd) fun e he => hv e (hp.mem_iff.mpr he)
  | item hv _ ih =>
    cases ha with
    | array hi =>
      refine .array fun x hx => ?_
      rcases List.mem_or_eq_of_mem_set hx with hx | rfl
      · exact hi x hx
      · exact ih (hi _ (List.mem_of_getElem? hv))
  | entry hv _ ih =>
    cases ha with
    | hash hd hvs =>
      refine .hash (by rwa [insertEntry_keys hv]) ?_
      exact forall_insertEntry hvs (ih (hvs _ (mem_of_valueAt? hv)))

/-- **Reordered values are equal.** -/
theorem Reorders.equal (h : a.Reorders b) (ha : a.Keyed) : a.Equal b := by
  have hb := h.keyed ha
  induction h with
  | here hp =>
    cases ha with
    | hash hd hv =>
      refine (equal_hash_iff hd ((hp.map _).nodup_iff.mp hd)).mpr fun k => ?_
      rw [← valueAt?_perm hd hp k]
      exact rel_self fun v hw => equal_refl (hv _ (mem_of_valueAt? hw))
  | @item items i v w hv h ih =>
    cases ha with
    | array hi =>
      have hvk := hi v (List.mem_of_getElem? hv)
      refine equalAll_iff.mpr fun j => ?_
      by_cases hj : i = j
      · subst hj
        rw [hv, List.getElem?_set_self (List.getElem?_eq_some_iff.mp hv).1]
        exact .some (ih hvk (h.keyed hvk))
      · rw [List.getElem?_set_ne hj]
        exact rel_self fun x hx => equal_refl (hi x (List.mem_of_getElem? hx))
  | @entry entries k v w hv h ih =>
    cases ha with
    | hash hd hvs =>
      have hvk := hvs _ (mem_of_valueAt? hv)
      refine (equal_hash_iff hd (by rwa [insertEntry_keys hv])).mpr fun k' => ?_
      by_cases hk : k = k'
      · subst hk
        rw [hv, valueAt?_insertEntry]
        exact .some (ih hvk (h.keyed hvk))
      · rw [valueAt?_insertEntry_of_ne hk]
        exact rel_self fun x hx => equal_refl (hvs _ (mem_of_valueAt? hx))

/-- Any number of hashes in the value are put in another order. -/
abbrev Reordered : Value → Value → Prop := Relation.ReflTransGen Reorders

theorem Reordered.equal (h : a.Reordered b) (ha : a.Keyed) : b.Keyed ∧ a.Equal b := by
  induction h with
  | refl => exact ⟨ha, equal_refl ha⟩
  | tail _ hstep ih =>
    obtain ⟨hb, heq⟩ := ih
    have hc := hstep.keyed hb
    exact ⟨hc, equal_trans ha hb hc heq (hstep.equal hb)⟩

/-- Items are reordered one after the other. -/
theorem reordered_items {done xs ys : List Value} (h : List.Forall₂ Reordered xs ys) :
    Reordered (.array (done ++ xs)) (.array (done ++ ys)) := by
  induction h generalizing done with
  | nil => exact .refl
  | @cons x y xs ys hxy _ ih =>
    have hfirst : Reordered (.array (done ++ x :: xs)) (.array (done ++ y :: xs)) := by
      refine Relation.ReflTransGen.lift (fun v => Value.array (done ++ v :: xs))
        (fun v w hvw => ?_) _ _ hxy
      have hitem := @Reorders.item (done ++ v :: xs) done.length v w (by simp) hvw
      rwa [List.set_append_right _ _ (Nat.le_refl _), Nat.sub_self] at hitem
    have hrest := @ih (done ++ [y])
    rw [List.append_assoc, List.append_assoc] at hrest
    exact hfirst.trans hrest

/-- So are the values of entries. -/
theorem reordered_entries {done es fs : List (HashKey × Value)}
    (hd : ((done ++ es).map (·.1)).Nodup)
    (h : List.Forall₂ (fun e f : HashKey × Value => e.1 = f.1 ∧ e.2.Reordered f.2) es fs) :
    Reordered (.hash (done ++ es)) (.hash (done ++ fs)) := by
  induction h generalizing done with
  | nil => exact .refl
  | @cons e f es fs hef _ ih =>
    obtain ⟨k, v⟩ := e
    obtain ⟨_, w⟩ := f
    obtain ⟨rfl, hvw⟩ := hef
    have hnot : k ∉ done.map (·.1) := by
      rw [List.map_append, List.map_cons] at hd
      exact fun hk => (List.nodup_append.mp hd).2.2 _ hk _ List.mem_cons_self rfl
    have hkeys : ∀ x : Value, ((done ++ (k, x) :: es).map (·.1)).Nodup := by
      intro x
      simpa using hd
    have hfirst : Reordered (.hash (done ++ (k, v) :: es)) (.hash (done ++ (k, w) :: es)) := by
      refine Relation.ReflTransGen.lift (fun x => Value.hash (done ++ (k, x) :: es))
        (fun x y hxy => ?_) _ _ hvw
      have hentry := Reorders.entry (valueAt?_of_mem (hkeys x) (List.mem_append_right _
        List.mem_cons_self)) hxy
      rwa [insertEntry_append hnot, insertEntry, if_pos rfl] at hentry
    have hrest := @ih (done ++ [(k, w)]) (by simpa using hkeys w)
    rw [List.append_assoc, List.append_assoc] at hrest
    exact hfirst.trans hrest

theorem reordered_array {xs ys : List Value} (h : ∀ i : Nat, Option.Rel Reordered xs[i]? ys[i]?) :
    Reordered (.array xs) (.array ys) := by
  refine @reordered_items [] _ _ ?_
  induction xs generalizing ys with
  | nil =>
    cases ys with
    | nil => exact .nil
    | cons y ys => exact nomatch h 0
  | cons x xs ih =>
    cases ys with
    | nil => exact nomatch h 0
    | cons y ys =>
      have hfirst : Option.Rel Reordered (some x) (some y) := h 0
      cases hfirst with
      | some hxy => exact .cons hxy (ih fun i => h (i + 1))

theorem reordered_hash {es fs : List (HashKey × Value)} (hd : (es.map (·.1)).Nodup)
    (hd' : (fs.map (·.1)).Nodup)
    (h : ∀ k, Option.Rel Reordered (valueAt? k es) (valueAt? k fs)) :
    Reordered (.hash es) (.hash fs) := by
  -- the values of the right hash in the order of the left one
  let between := es.map fun e => (e.1, (valueAt? e.1 fs).getD .void)
  have hfound : ∀ e ∈ es, ∃ w, valueAt? e.1 fs = some w ∧ e.2.Reordered w := by
    intro e hmem
    have hrel := h e.1
    rw [valueAt?_of_mem hd hmem] at hrel
    exact exists_of_rel_some hrel
  have hkeys : between.map (·.1) = es.map (·.1) := by
    rw [List.map_map]
    rfl
  have hvalues : Reordered (.hash es) (.hash between) := by
    refine @reordered_entries [] _ _ hd ?_
    rw [List.forall₂_map_right_iff, List.forall₂_same]
    intro e hmem
    obtain ⟨w, hw, hew⟩ := hfound e hmem
    exact ⟨rfl, by rwa [hw]⟩
  have hperm : between.Perm fs := by
    have hnodup : (between.map (·.1)).Nodup := hkeys ▸ hd
    refine (List.perm_ext_iff_of_nodup (.of_map _ hnodup) (.of_map _ hd')).mpr fun f => ?_
    constructor
    · intro hf
      obtain ⟨e, hmem, rfl⟩ := List.mem_map.mp hf
      obtain ⟨w, hw, -⟩ := hfound e hmem
      rw [hw]
      exact mem_of_valueAt? hw
    · intro hf
      have hw := valueAt?_of_mem hd' hf
      have hsome := isSome_of_rel (h f.1)
      rw [hw] at hsome
      obtain ⟨v, hv⟩ := Option.isSome_iff_exists.mp hsome
      refine List.mem_map.mpr ⟨_, mem_of_valueAt? hv, ?_⟩
      rw [hw]
      rfl
  exact hvalues.tail (.here hperm)

/-- **Equal values differ in the order of entries only.** -/
theorem Equal.reordered (ha : a.Keyed) (hb : b.Keyed) (h : a.Equal b) : a.Reordered b := by
  induction a using childInduction generalizing b with
  | inner v ih =>
    obtain ⟨hshell, hchildren⟩ := (equal_iff ha hb).mp h
    have hinner : ∀ step, Option.Rel Reordered (v.child? step) (b.child? step) := fun step =>
      rel_imp (hchildren step) fun w x hw hx => ih step w hw (ha.child hw) (hb.child hx)
    cases ha with
    | array hi =>
      cases hb with
      | array hj => exact reordered_array fun i => hinner (.index i)
      | _ => cases hshell
    | hash hd hv =>
      cases hb with
      | hash hd' hw => exact reordered_hash hd hd' fun k => hinner (.key k)
      | _ => cases hshell
    | _ =>
      cases hb <;> cases hshell
      exact .refl

theorem length_of_equalAll {xs ys : List Value} (h : equalAll xs ys = true) :
    xs.length = ys.length := by
  induction xs generalizing ys with
  | nil =>
    cases ys with
    | nil => rfl
    | cons y ys => cases h
  | cons x xs ih =>
    cases ys with
    | nil => cases h
    | cons y ys =>
      rw [equalAll, Bool.and_eq_true] at h
      rw [List.length_cons, List.length_cons, ih h.2]

theorem Equal.size (h : a.Equal b) : a.size = b.size := by
  cases a with
  | array xs =>
    cases b with
    | array ys => exact length_of_equalAll h
    | _ => cases h
  | hash es =>
    cases b with
    | hash fs =>
      rw [Equal, equal, Bool.and_eq_true, beq_iff_eq] at h
      exact h.1
    | _ => cases h
  | _ => cases b <;> first | rfl | cases h

/-- What stands at the same place in two equal values is equal, of one kind and of one size. -/
structure Alike (v w : Value) : Prop where
  equal : v.Equal w
  kind : v.kind = w.kind
  size : v.size = w.size

theorem Equal.alike (ha : a.Keyed) (hb : b.Keyed) (h : a.Equal b) : a.Alike b where
  equal := h
  kind := by rw [← kind_shell a, ((equal_iff ha hb).mp h).1, kind_shell]
  size := h.size

theorem Equal.at (ha : a.Keyed) (hb : b.Keyed) (h : a.Equal b) (path : List Step) :
    Option.Rel Alike (a.at? path) (b.at? path) := by
  induction path generalizing a b with
  | nil => exact .some (h.alike ha hb)
  | cons step path ih =>
    have hrel := ((equal_iff ha hb).mp h).2 step
    rw [at?, at?]
    exact rel_bind hrel fun w x hw hx hwx => ih (ha.child hw) (hb.child hx) hwx

/-! ## 6. Structural comparison -/

/-- Two values are equal for the instruction that compares values of any sort. -/
def Same (v w : Value) : Prop := compareValues .equal .structural v w = .ok true

theorem same_iff : a.Same b ↔ a.Equal b := by
  show Except.ok (a.equal b) = .ok true ↔ a.equal b = true
  rw [Except.ok.injEq]

/-- **Structural comparison is an equivalence that overlooks the order of entries,** and nothing
    else. Values are equal if and only if one comes from the other by putting hashes anywhere in
    it in another order. At each place equal values have equal values of one kind and of one size,
    or both have none there. The comparison never fails, and inequality is its negation. -/
theorem structural_equality :
    (Equivalence fun a b : {v : Value // v.Keyed} => a.1.Same b.1) ∧
      (∀ a b : Value, a.Keyed → (b.Keyed ∧ a.Same b ↔ a.Reordered b)) ∧
      (∀ a b : Value, a.Keyed → b.Keyed → a.Same b → ∀ path : List Step,
        Option.Rel (fun v w => v.Same w ∧ v.kind = w.kind ∧ v.size = w.size)
          (a.at? path) (b.at? path)) ∧
      ∀ a b : Value, ∃ same : Bool, compareValues .equal .structural a b = .ok same ∧
        compareValues .notEqual .structural a b = .ok !same := by
  refine ⟨⟨fun a => ?_, fun {a b} h => ?_, fun {a b c} h h' => ?_⟩, fun a b ha => ⟨?_, fun h => ?_⟩,
    fun a b ha hb h path => ?_, fun a b => ⟨_, rfl, rfl⟩⟩
  · exact same_iff.mpr (equal_refl a.2)
  · exact same_iff.mpr (equal_symm a.2 b.2 (same_iff.mp h))
  · exact same_iff.mpr (equal_trans a.2 b.2 c.2 (same_iff.mp h) (same_iff.mp h'))
  · rintro ⟨hb, h⟩
    exact (same_iff.mp h).reordered ha hb
  · obtain ⟨hb, heq⟩ := h.equal ha
    exact ⟨hb, same_iff.mpr heq⟩
  · exact rel_imp ((same_iff.mp h).at ha hb path) fun v w _ _ hvw =>
      ⟨same_iff.mpr hvw.equal, hvw.kind, hvw.size⟩

/-- A hash in a hash in an array, both of them in another order. -/
theorem nested_same :
    let inner : Value := .hash [(.int 2, .void), (.int 3, .char 'c')]
    let turned : Value := .hash [(.int 3, .char 'c'), (.int 2, .void)]
    let a : Value := .array [.hash [(.int 1, .text "x"), (.text "k", inner)]]
    let b : Value := .array [.hash [(.text "k", turned), (.int 1, .text "x")]]
    let path : List Step := [.index 0, .key (.text "k")]
    a.Keyed ∧ a.Reordered b ∧ b.Keyed ∧ a.Same b ∧
      a.at? path = some inner ∧ b.at? path = some turned ∧ inner.Same turned := by
  intro inner turned a b path
  have hinner : inner.Keyed :=
    .hash (by decide) (List.forall_mem_cons.mpr ⟨.void, List.forall_mem_singleton.mpr .char⟩)
  have ha : a.Keyed :=
    .array (List.forall_mem_singleton.mpr (.hash (by decide)
      (List.forall_mem_cons.mpr ⟨.text, List.forall_mem_singleton.mpr hinner⟩)))
  have hfirst : a.Reorders (.array [.hash [(.int 1, .text "x"), (.text "k", turned)]]) :=
    .item (i := 0) rfl (.entry (k := .text "k") rfl (.here (.swap _ _ _)))
  have hsecond : Reorders (.array [.hash [(.int 1, .text "x"), (.text "k", turned)]]) b :=
    .item (i := 0) rfl (.here (.swap _ _ _))
  have hreordered : a.Reordered b := (Relation.ReflTransGen.single hfirst).tail hsecond
  obtain ⟨-, hsame, hplaces, -⟩ := structural_equality
  obtain ⟨hb, hab⟩ := (hsame a b ha).mpr hreordered
  have hrel := hplaces a b ha hb hab path
  have hchild : a.at? path = some inner := rfl
  have hchild' : b.at? path = some turned := rfl
  rw [hchild, hchild'] at hrel
  cases hrel with
  | some h => exact ⟨ha, hreordered, hb, hab, hchild, hchild', h.1⟩

end Value

end Stackling
