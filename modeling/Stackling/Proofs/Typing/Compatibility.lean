import Mathlib.Logic.Function.Basic
import Stackling.Syntax.TypeExpr

/-
  File:     Stackling/Proofs/Typing/Compatibility.lean
  Subject:  Compatibility is equality, and annotations name types one to one.

  Where one type is wanted and another one found, the analyser and the generator ask whether the
  two are compatible. That is to ask whether they are the same, however deep they are and however
  many parameters their functions have. Nor is anything lost between an annotation and its type.

  * `Ty.written`                   -- the annotation for a type;
  * `Ty.toTy_written`,
    `TypeExpr.written_toTy`        -- it names the type, and no other annotation does;
  * `TypeExpr.toTy_bijective`      -- annotations and types correspond;
  * `Ty.compatible_equivalence`    -- compatibility is reflexive, symmetric and transitive;
  * `compatible_structural`        -- the two together: compatible types are the same, and their
                                      annotations are too.
-/
namespace Stackling

/-! ## 1. The annotation for a type -/

mutual
/-- The annotation for a type. -/
def Ty.written : Ty → TypeExpr
  | int => .int
  | string => .string
  | bool => .bool
  | char => .char
  | void => .void
  | array element => .array element.written
  | hash key value => .hash key.written value.written
  | fn params returns => .fn (writtens params) returns.written

/-- The annotations for some types. -/
def Ty.writtens : List Ty → List TypeExpr
  | [] => []
  | t :: rest => t.written :: writtens rest
end

mutual
/-- **Every type has an annotation.** -/
theorem Ty.toTy_written (t : Ty) : t.written.toTy = t := by
  cases t <;> simp [written, TypeExpr.toTy, toTy_written, toTys_writtens]

/-- The same for a list of types. -/
theorem Ty.toTys_writtens (ts : List Ty) : TypeExpr.toTys (writtens ts) = ts := by
  cases ts <;> simp [writtens, TypeExpr.toTys, toTy_written, toTys_writtens]
end

mutual
/-- **No type has two annotations.** -/
theorem TypeExpr.written_toTy (e : TypeExpr) : e.toTy.written = e := by
  cases e <;> simp [toTy, Ty.written, written_toTy, writtens_toTys]

/-- The same for a list of annotations. -/
theorem TypeExpr.writtens_toTys (es : List TypeExpr) : Ty.writtens (toTys es) = es := by
  cases es <;> simp [toTys, Ty.writtens, written_toTy, writtens_toTys]
end

/-- Annotations and types correspond one to one. -/
theorem TypeExpr.toTy_bijective : Function.Bijective TypeExpr.toTy :=
  Function.bijective_iff_has_inverse.mpr ⟨Ty.written, TypeExpr.written_toTy, Ty.toTy_written⟩

/-! ## 2. Compatibility -/

/-- Compatibility is an equivalence relation. -/
theorem Ty.compatible_equivalence : Equivalence fun a b : Ty => a.compatible b = true where
  refl := compatible_self
  symm {a b} hab := by
    have hsame : a = b := (compatible_iff a b).mp hab
    exact (compatible_iff b a).mpr hsame.symm
  trans {a b c} hab hbc := by
    have hsame : a = c := ((compatible_iff a b).mp hab).trans ((compatible_iff b c).mp hbc)
    exact (compatible_iff a c).mpr hsame

/-- Two annotations name compatible types exactly if they are the same. -/
theorem TypeExpr.compatible_toTy_iff (d e : TypeExpr) :
    d.toTy.compatible e.toTy = true ↔ d = e := by
  rw [Ty.compatible_iff, TypeExpr.toTy_bijective.injective.eq_iff]

/-- **Compatibility is structural equality.** Two types are compatible exactly if they are the
    same type, so compatibility is an equivalence relation. Annotations and types correspond one
    to one, so two annotations name compatible types exactly if they are the same annotation. -/
theorem compatible_structural :
    (∀ a b : Ty, a.compatible b = true ↔ a = b) ∧
    (Equivalence fun a b : Ty => a.compatible b = true) ∧
    Function.Bijective TypeExpr.toTy ∧
    ∀ d e : TypeExpr, d.toTy.compatible e.toTy = true ↔ d = e :=
  ⟨Ty.compatible_iff, Ty.compatible_equivalence, TypeExpr.toTy_bijective,
    TypeExpr.compatible_toTy_iff⟩

/-- A function of one more parameter is of another type, also below a hash. -/
example : (Ty.hash .int (.fn [.array .int] .void)).compatible
    (.hash .int (.fn [.array .int, .int] .void)) = false := by decide

end Stackling
