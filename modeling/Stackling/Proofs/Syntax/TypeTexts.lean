import Stackling.Proofs.Syntax.Spelling
import Stackling.Proofs.Typing.Compatibility

/-
  File:     Stackling/Proofs/Syntax/TypeTexts.lean
  Subject:  The texts of types.

  A type is written with letters, brackets, commas and colons. Read as source, its text is an
  annotation for the type again: brackets that close one behind the other stay apart, and what
  follows the last parameter of a function is its result.

  * `TypeExpr.spelled`   -- the text of an annotation spells its words;
  * `Ty.reads`           -- the text of a type is read to its end, as an annotation for the type;
  * `types_unambiguous`  -- so types with the same text are the same.
-/
namespace Stackling

/-! ## 1. Texts and words -/

/-- The name a type starts with. -/
theorem spelled_name {s : String}
    (h : s ∈ ["int", "string", "bool", "char", "void", "array", "hash"]) :
    Spelled s.toList [Word.name s] := by
  simp only [List.mem_cons, List.not_mem_nil, or_false] at h
  rcases h with rfl | rfl | rfl | rfl | rfl | rfl | rfl <;>
    exact .name rfl (by decide) (List.all_eq_true.mp (by decide)) (by decide)

mutual
/-- **The text of an annotation spells its words.** -/
theorem TypeExpr.spelled : (t : TypeExpr) → Spelled t.text.toList t.words
  | .int | .string | .bool | .char | .void => spelled_name (by decide)
  | .array element => by
    have hname : Spelled "array".toList [Word.name "array"] := spelled_name (by decide)
    rw [TypeExpr.text, String.toList_append, String.toList_append]
    exact hname.angled element.spelled
  | .hash key value => by
    have hname : Spelled "hash".toList [Word.name "hash"] := spelled_name (by decide)
    have hboth := key.spelled.joined (k := .comma) (c := ',') (by decide) rfl (by decide)
      value.spelled
    have hhash := hname.angled hboth
    rw [List.append_assoc, List.append_assoc] at hhash
    simp only [TypeExpr.text, String.toList_append, List.append_assoc]
    exact hhash
  | .fn params returns => by
    have hfn : Spelled "fn".toList [Word.of .fnWord] :=
      spelled_keyword (by decide) rfl (by decide)
    have hparams : Spelled ('(' :: ((", ".intercalate (texts params)).toList ++ [')']))
        (.of .openParen :: (commaSeparated (typeWords params) ++ [.of .closeParen])) :=
      .enclosed (texts_spelled params) (by decide) rfl (by decide) rfl (by decide) (by decide)
        (by decide)
    have hhead := hfn.beside (by decide) hparams
    have hall := hhead.joined (k := .colon) (c := ':') (by decide) rfl (by decide) returns.spelled
    simp only [TypeExpr.text, String.toList_append, List.append_assoc]
    simp only [List.append_assoc, List.cons_append] at hall
    exact hall

/-- The same for the parameters of a function. -/
theorem TypeExpr.texts_spelled : (ts : List TypeExpr) →
    List.Forall₂ (fun s ws => Spelled s.toList ws) (TypeExpr.texts ts) (typeWords ts)
  | [] => .nil
  | t :: rest => .cons t.spelled (TypeExpr.texts_spelled rest)
end

/-- The text of a type spells an annotation for it. -/
theorem Ty.spelled (t : Ty) : ∃ e : TypeExpr, e.toTy = t ∧ Spelled t.text.toList e.words := by
  refine ⟨t.written, t.toTy_written, ?_⟩
  have htext : t.text = t.written.text := by rw [← TypeExpr.toTy_text, toTy_written]
  rw [htext]
  exact t.written.spelled

/-! ## 2. Reading -/

/-- **The text of a type is read as an annotation for it,** to the end of the text. -/
theorem Ty.reads (t : Ty) : ∃ tokens e s, tokenize t.text = .ok tokens ∧
    readType (Stream.ofTokens .standard tokens) = .ok e s ∧
    s.kind = .endOfText ∧ s.following = [] ∧ e.toTy = t ∧ e.text = t.text := by
  obtain ⟨e, rfl, hspelled⟩ := t.spelled
  have hspells : Spells e.toTy.text.toList e.words := by
    have h := hspelled.spells .nil .nil
    rwa [List.append_nil, List.append_nil] at h
  obtain ⟨tokens, htokens, hshows⟩ := hspells.shows
  have hreads := readType_reads e [] (Stream.ofTokens .standard tokens)
  rw [List.append_nil] at hreads
  obtain ⟨_, s, hread, rfl, hrest⟩ := hreads hshows
  obtain ⟨hword, hfollowing⟩ := List.cons.inj hrest.words
  exact ⟨tokens, _, s, htokens, hread, congrArg Word.kind hword, List.map_eq_nil_iff.mp hfollowing,
    rfl, (TypeExpr.toTy_text _).symm⟩

/-- **The texts of types are unambiguous.** Each is read to its end as an annotation for the type,
    which is written the same way. So types with the same text are the same. -/
theorem types_unambiguous :
    (∀ t : Ty, ∃ tokens e s, tokenize t.text = .ok tokens ∧
      readType (Stream.ofTokens .standard tokens) = .ok e s ∧
      s.kind = .endOfText ∧ s.following = [] ∧ e.toTy = t ∧ e.text = t.text) ∧
    Function.Injective Ty.text := by
  refine ⟨Ty.reads, fun t u htext => ?_⟩
  obtain ⟨tokens, e, s, htokens, hread, -, -, rfl, -⟩ := t.reads
  obtain ⟨tokens', e', s', htokens', hread', -, -, rfl, -⟩ := u.reads
  rw [htext, htokens'] at htokens
  cases htokens
  rw [hread'] at hread
  cases hread
  rfl

end Stackling
