/-
  File:     Stackling/Ty.lean
  Subject:  The types of values.

  A closed set of constructors. There is no subtyping: a value of one type may stand where
  another is wanted exactly when the two are built alike all the way down.

  * `Ty.text`           -- a type as it is written;
  * `Ty.compatible`     -- whether two types are built alike;
  * `Ty.compatibleAll_iff`,
    `Ty.compatible_iff` -- that is equality, so equality of types is decidable.
-/
namespace Stackling

/-! ## 1. Types -/

/-- The type of a value. `void` is the type of a call that leaves no value. -/
inductive Ty
  | int | string | bool | char | void
  | array (element : Ty)
  | hash (key value : Ty)
  | fn (params : List Ty) (returns : Ty)
  deriving Inhabited

namespace Ty

def isVoid : Ty → Bool
  | void => true
  | _ => false

/-- Only integers and strings may be keys of a hash. -/
def isHashKey : Ty → Bool
  | int | string => true
  | _ => false

/-- The types whose values have an order. -/
def isOrdered : Ty → Bool
  | int | string | bool | char => true
  | _ => false

/-- The number of arguments a function type takes. -/
def arity? : Ty → Option Nat
  | fn params _ => some params.length
  | _ => none

@[simp] theorem isVoid_iff (t : Ty) : t.isVoid = true ↔ t = void := by
  cases t <;> simp [isVoid]

/-! ## 2. Written form -/

mutual
/-- A type as it is written. -/
def text : Ty → String
  | int => "int"
  | string => "string"
  | bool => "bool"
  | char => "char"
  | void => "void"
  | array element => "array<" ++ element.text ++ ">"
  | hash key value => "hash<" ++ key.text ++ ", " ++ value.text ++ ">"
  | fn params returns => "fn(" ++ ", ".intercalate (texts params) ++ "): " ++ returns.text

/-- The written forms of some types. -/
def texts : List Ty → List String
  | [] => []
  | t :: ts => t.text :: texts ts
end

/-! ## 3. Compatibility -/

mutual
/-- Whether two types are built alike. Functions have to take equally many arguments, for their
    parameters are compared only as far as both lists go. -/
def compatible : Ty → Ty → Bool
  | int, int | string, string | bool, bool | char, char | void, void => true
  | array a, array b => a.compatible b
  | hash k v, hash l w => k.compatible l && v.compatible w
  | fn ps r, fn qs s => ps.length == qs.length && compatibleAll ps qs && r.compatible s
  | _, _ => false

/-- Whether two lists of types are built alike place by place, as far as the shorter one goes. -/
def compatibleAll : List Ty → List Ty → Bool
  | p :: ps, q :: qs => p.compatible q && compatibleAll ps qs
  | _, _ => true
end

/-- Two lists of types are the same if they are equally long and one of them begins the other. -/
theorem begins_iff_eq (ps qs : List Ty) :
    ps.length = qs.length ∧ (ps <+: qs ∨ qs <+: ps) ↔ ps = qs := by
  constructor
  · rintro ⟨hlength, h | h⟩
    · exact h.eq_of_length hlength
    · exact (h.eq_of_length hlength.symm).symm
  · rintro rfl
    exact ⟨rfl, .inl (List.prefix_refl ps)⟩

mutual
/-- **Compatible types are the same type.** -/
theorem compatible_iff (a b : Ty) : a.compatible b = true ↔ a = b := by
  cases a <;> cases b <;>
    simp only [compatible, compatible_iff, Bool.and_eq_true, beq_iff_eq, array.injEq, hash.injEq,
      fn.injEq, reduceCtorEq, Bool.false_eq_true]
  case fn.fn ps r qs s =>
    -- without the lengths, one list of parameters would only have to begin the other
    rw [compatibleAll_iff, begins_iff_eq]

/-- Lists of types are compatible place by place if one of them begins the other. -/
theorem compatibleAll_iff (ps qs : List Ty) :
    compatibleAll ps qs = true ↔ ps <+: qs ∨ qs <+: ps := by
  cases ps with
  | nil => simp [compatibleAll]
  | cons p ps =>
    cases qs with
    | nil => simp [compatibleAll]
    | cons q qs =>
      rw [compatibleAll, Bool.and_eq_true, compatible_iff p q, compatibleAll_iff ps qs,
        List.cons_prefix_cons, List.cons_prefix_cons, eq_comm (a := q), and_or_left]
end

/-- A type is compatible with itself. -/
@[simp] theorem compatible_self (a : Ty) : a.compatible a = true := (compatible_iff a a).mpr rfl

instance : DecidableEq Ty := fun a b => decidable_of_iff _ (compatible_iff a b)

end Ty

end Stackling
