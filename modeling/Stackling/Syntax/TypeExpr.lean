import Stackling.Ty

/-
  File:     Stackling/Syntax/TypeExpr.lean
  Subject:  Types as the source writes them.

  An annotation may be written although no value can have the type it names, as in
  `hash<bool, void>`; the analyser says so later (`TypeExpr.toTy` does not refuse).

  * `TypeExpr.toTy` -- the type that an annotation names;
  * `TypeExpr.text` -- its written form.
-/
namespace Stackling

/-- A type annotation. -/
inductive TypeExpr
  | int | string | bool | char | void
  | array (element : TypeExpr)
  | hash (key value : TypeExpr)
  | fn (params : List TypeExpr) (returns : TypeExpr)
  deriving Inhabited

namespace TypeExpr

def isVoid : TypeExpr → Bool
  | void => true
  | _ => false

/-- Whether the annotation may be the key of a hash. -/
def isHashKey : TypeExpr → Bool
  | int | string => true
  | _ => false

mutual
/-- The type that an annotation names. -/
def toTy : TypeExpr → Ty
  | int => .int
  | string => .string
  | bool => .bool
  | char => .char
  | void => .void
  | array element => .array element.toTy
  | hash key value => .hash key.toTy value.toTy
  | fn params returns => .fn (toTys params) returns.toTy

/-- The types that some annotations name. -/
def toTys : List TypeExpr → List Ty
  | [] => []
  | a :: rest => a.toTy :: toTys rest
end

mutual
/-- The written form of an annotation. -/
def text : TypeExpr → String
  | int => "int"
  | string => "string"
  | bool => "bool"
  | char => "char"
  | void => "void"
  | array element => "array<" ++ element.text ++ ">"
  | hash key value => "hash<" ++ key.text ++ ", " ++ value.text ++ ">"
  | fn params returns => "fn(" ++ ", ".intercalate (texts params) ++ "): " ++ returns.text

/-- The written forms of some annotations. -/
def texts : List TypeExpr → List String
  | [] => []
  | a :: rest => a.text :: texts rest
end

mutual
/-- **An annotation is written as the type it names.** -/
theorem toTy_text (a : TypeExpr) : a.toTy.text = a.text := by
  cases a <;> simp [toTy, text, Ty.text, toTy_text, texts_toTys]

/-- The same for a list of annotations. -/
theorem texts_toTys (ps : List TypeExpr) : Ty.texts (toTys ps) = texts ps := by
  cases ps <;> simp [toTys, texts, Ty.texts, toTy_text, texts_toTys]
end

end TypeExpr

end Stackling
