import Stackling.Proofs.Run.Shapes
import Stackling.Proofs.Syntax.PlainValues
import Stackling.Proofs.Text.Delimited

/-
  File:     Stackling/Proofs/Run/Formats.lean
  Subject:  What is printed tells which value it was.

  Inside another value, the text of a number, a truth value, a quoted text or a collection ends by
  itself. So the items of a collection can be told apart, and nothing in a text can pass for a
  comma, a bracket or another item.

  * `Ty.Plain.delimited`   -- the texts of the values of a type, inside another value;
  * `Value.format_eq_iff`  -- values that are printed the same are the same.
-/
namespace Stackling

open Text

variable {p : Program} {T key value element : Ty} {v w : Value}

/-! ## 1. Collections -/

theorem formatItems_eq_map (element : Ty) (items : List Value) :
    formatItems element items = items.map (Value.formatIn true · element) := by
  induction items with
  | nil => rfl
  | cons v items ih => rw [formatItems, ih, List.map_cons]

theorem formatEntries_eq_map (key value : Ty) (entries : List (HashKey × Value)) :
    formatEntries key value entries =
      entries.map fun e => e.1.format key ++ ": " ++ e.2.formatIn true value := by
  induction entries with
  | nil => rfl
  | cons e entries ih => rw [formatEntries, ih, List.map_cons]

/-- The text of an array, up to its closing bracket. -/
theorem toList_format_array (nested : Bool) (items : List Value) :
    ((Value.array items).formatIn nested (.array element)).toList =
      '[' :: Delimited.listed (fun v => (v.formatIn true element).toList) ']' items := by
  rw [Value.formatIn, inBrackets, formatItems_eq_map, String.toList_append, String.toList_append,
    List.append_assoc]
  exact congrArg ('[' :: ·) (Delimited.intercalate_close _ ']' items)

/-- The text of a hash, up to its closing bracket. -/
theorem toList_format_hash (nested : Bool) (entries : List (HashKey × Value)) :
    ((Value.hash entries).formatIn nested (.hash key value)).toList =
      '\x7b' :: Delimited.listed (fun e : HashKey × Value =>
        (e.1.format key).toList ++ ':' :: ' ' :: (e.2.formatIn true value).toList) '\x7d'
          entries := by
  rw [Value.formatIn, inBraces, formatEntries_eq_map, String.toList_append, String.toList_append,
    List.append_assoc]
  have hentries := Delimited.intercalate_close
    (fun e : HashKey × Value => e.1.format key ++ ": " ++ e.2.formatIn true value) '\x7d' entries
  simp only [String.toList_append, List.append_assoc] at hentries
  exact congrArg ('\x7b' :: ·) hentries

/-! ## 2. Values inside other values -/

/-- Keys end by themselves. -/
theorem HashKey.delimited (h : key = .int ∨ key = .string) :
    Delimited (fun k : HashKey => k.value.Of p key) fun k => (k.format key).toList := by
  rcases h with rfl | rfl
  · refine Delimited.number.map HashKey.int fun k hk => ?_
    cases k with
    | int n => exact ⟨n, trivial, rfl, rfl⟩
    | text s => cases hk
  · refine (Delimited.quoted (.inl rfl)).map (HashKey.text ∘ String.ofList) fun k hk => ?_
    cases k with
    | int n => cases hk
    | text s =>
      exact ⟨s.toList, trivial, congrArg HashKey.text String.ofList_toList, String.toList_ofList⟩

/-- **Values of a plain type end by themselves,** where they stand inside another value. -/
theorem Ty.Plain.delimited (hT : T.Plain) :
    Delimited (fun v : Value => v.Of p T) fun v => (v.formatIn true T).toList := by
  induction hT with
  | int =>
    refine Delimited.number.map Value.int fun v hv => ?_
    obtain ⟨n, rfl⟩ := hv.int_inv
    exact ⟨n, trivial, rfl, rfl⟩
  | bool =>
    refine Delimited.truth.map Value.ofBool fun v hv => ?_
    obtain ⟨b, rfl⟩ := hv.bool_inv
    exact ⟨b, trivial, rfl, by cases b <;> rfl⟩
  | char =>
    refine (Delimited.quoted (.inr rfl)).map (Value.char ∘ List.head!) fun v hv => ?_
    cases hv with
    | @char c => exact ⟨[c], trivial, rfl, String.toList_ofList⟩
  | string =>
    refine (Delimited.quoted (.inl rfl)).map (Value.text ∘ String.ofList) fun v hv => ?_
    cases hv with
    | @text s =>
      exact ⟨s.toList, trivial, congrArg Value.text String.ofList_toList, String.toList_ofList⟩
  | array _ ih =>
    have hlist := ih.bracketed (show isClosing ']' = true by decide)
      (show isClosing '[' = false by decide)
    refine hlist.map Value.array fun v hv => ?_
    obtain ⟨items, rfl, hitems⟩ := hv.array_inv
    exact ⟨items, hitems, rfl, toList_format_array _ _⟩
  | hash hkey _ ih =>
    have hentry := (HashKey.delimited (p := p) hkey).pair ih
    have hlist := hentry.bracketed (show isClosing '\x7d' = true by decide)
      (show isClosing '\x7b' = false by decide)
    refine hlist.map Value.hash fun v hv => ?_
    obtain ⟨entries, rfl, hkeys, hvalues⟩ := hv.hash_inv
    exact ⟨entries, fun e he => ⟨hkeys e he, hvalues e he⟩, rfl, toList_format_hash _ _⟩

/-! ## 3. Values alone -/

/-- Only texts and characters are written in another way inside a value. -/
theorem Ty.Plain.format_eq (hT : T.Plain) (hs : T ≠ .string) (hc : T ≠ .char) (hv : v.Of p T) :
    v.format T = v.formatIn true T := by
  cases hT with
  | int =>
    obtain ⟨n, rfl⟩ := hv.int_inv
    rfl
  | bool =>
    obtain ⟨b, rfl⟩ := hv.bool_inv
    rfl
  | char => exact absurd rfl hc
  | string => exact absurd rfl hs
  | array _ =>
    obtain ⟨items, rfl, -⟩ := hv.array_inv
    rw [Value.format, Value.formatIn, Value.formatIn]
  | hash _ _ =>
    obtain ⟨entries, rfl, -⟩ := hv.hash_inv
    rw [Value.format, Value.formatIn, Value.formatIn]

/-- Values that are printed the same are the same. -/
theorem Value.format_injective (hT : T.Plain) (hv : v.Of p T) (hw : w.Of p T)
    (h : v.format T = w.format T) : v = w := by
  by_cases hs : T = .string
  · subst hs
    cases hv
    cases hw
    exact congrArg Value.text h
  by_cases hc : T = .char
  · subst hc
    cases hv
    cases hw
    exact congrArg Value.char (String.singleton_inj.mp h)
  rw [hT.format_eq hs hc hv, hT.format_eq hs hc hw] at h
  exact hT.delimited.injective hv hw (congrArg String.toList h)

/-- **What is printed identifies the value,** with the order of the entries of every hash in it.
    Inside another value this is so whatever stands behind the value, as long as it does not start
    with a digit: what is in a text cannot pass for anything around it. -/
theorem Value.format_eq_iff (hT : T.Plain) (hv : v.Of p T) (hw : w.Of p T) :
    (v.format T = w.format T ↔ v = w) ∧
      ∀ rest rest' : List Char, EndsRun isDigit rest → EndsRun isDigit rest' →
        ((v.formatIn true T).toList ++ rest = (w.formatIn true T).toList ++ rest' ↔
          v = w ∧ rest = rest') := by
  refine ⟨⟨Value.format_injective hT hv hw, congrArg (Value.format · T)⟩, fun rest rest' hr hr' => ?_⟩
  constructor
  · exact hT.delimited.cut hv hw hr hr'
  · rintro ⟨rfl, rfl⟩
    rfl

/-- A text with quotes, a comma and a blank in it is not printed as two texts. -/
theorem quoted_pair_differs :
    let p : Program := ⟨[], [], .mk [] .blank, .blank⟩
    let one : Value := .array [.text "a\", \"b"]
    let two : Value := .array [.text "a", .text "b"]
    one.Of p (.array .string) ∧ two.Of p (.array .string) ∧
      one.format (.array .string) ≠ two.format (.array .string) :=
  have hplain := Ty.Plain.array .string
  have hone := .array (List.forall_mem_singleton.mpr .text)
  have htwo := .array (List.forall_mem_cons.mpr ⟨.text, List.forall_mem_singleton.mpr .text⟩)
  ⟨hone, htwo, (Value.format_eq_iff hplain hone htwo).1.not.mpr (by simp)⟩

end Stackling
