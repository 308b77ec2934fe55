import Stackling.Builtin
import Stackling.Syntax.Tree

/-
  File:     Stackling/Typing/Problem.lean
  Subject:  What the analyser reports.

  * `Problem`           -- the closed list of problems, with the types and names involved;
  * `Problem.message`   -- the wording;
  * `Diagnostic`        -- a problem and the line it is reported under;
  * `TypeExpr.problems` -- the problems of an annotation by itself.
-/
namespace Stackling

/-! ## 1. Problems -/

/-- Something wrong with a program that reads well. -/
inductive Problem
  -- annotations
  | voidElementType
  | badKeyType
  | voidEntryType
  | voidParamType
  -- declarations
  | voidParam (name : String)
  | repeatedParam (name : String)
  | repeatedFunction (name : String)
  | repeatedName (constant : Bool) (name : String)
  | voidDeclaration (name : String)
  | declaredMismatch (constant : Bool) (name : String) (expected found : Ty)
  -- names
  | undeclared (name : String)
  | captured (name : String)
  -- operators
  | addOperands (left right : Ty)
  | subOperands (left right : Ty)
  | mulOperands (left right : Ty)
  | voidComparison (op : BinaryOp)
  | unlikeComparison (op : BinaryOp) (left right : Ty)
  | unordered (op : BinaryOp) (operand : Ty)
  -- literals
  | voidItem
  | itemMismatch (expected found : Ty)
  | badKey
  | voidEntry
  | keyMismatch (expected found : Ty)
  | entryMismatch (expected found : Ty)
  | literalWithoutReturn (returns : Ty)
  -- places and calls
  | indexMismatch (found : Ty)
  | notIndexable (target : Ty)
  | call (problem : Builtin.CallProblem)
  | notCallable (callee : Ty)
  -- statements
  | returnOutside
  | returnMismatch (expected found : Ty)
  | returnWithoutValue (expected : Ty)
  | functionWithoutReturn (name : String) (returns : Ty)
  | conditionMismatch (found : Ty)
  | voidPrint
  deriving DecidableEq

namespace Problem

/-- What was expected and what was found, at the end of a message. -/
def unlike (expected found : Ty) : String :=
  "Expected " ++ expected.text ++ ", got " ++ found.text

/-- The wording of a problem. -/
def message : Problem → String
  | voidElementType => "Array element type cannot be void"
  | badKeyType => "Hash key type must be int or string"
  | voidEntryType => "Hash value type cannot be void"
  | voidParamType => "Parameter type cannot be void"
  | voidParam name => "Parameter '" ++ name ++ "' cannot be of type void"
  | repeatedParam name => "Parameter '" ++ name ++ "' is already declared"
  | repeatedFunction name => "Function '" ++ name ++ "' is already declared in this scope"
  | repeatedName constant name =>
    (if constant then "Constant" else "Variable") ++ " '" ++ name
      ++ "' is already declared in this scope"
  | voidDeclaration name => "Cannot declare '" ++ name ++ "' of type void"
  | declaredMismatch constant name expected found =>
    "Type mismatch in " ++ (if constant then "const declaration" else "declaration") ++ " of '"
      ++ name ++ "'. " ++ unlike expected found
  | undeclared name => "Undeclared identifier '" ++ name ++ "'"
  | captured name => "Function literal cannot capture local '" ++ name ++ "'"
  | addOperands left right =>
    "Operator '+' requires both operands to be int or both to be string. Got " ++ left.text
      ++ " and " ++ right.text
  | subOperands left right =>
    "Operator '-' requires both operands to be int. Got " ++ left.text ++ " and " ++ right.text
  | mulOperands left right =>
    "Multiplication/division requires both operands to be int. Got " ++ left.text ++ " and "
      ++ right.text
  | voidComparison op => "Operator '" ++ op.sign ++ "' cannot compare values of type void"
  | unlikeComparison op left right =>
    "Type mismatch in relational operation '" ++ op.sign ++ "'. Cannot compare " ++ left.text
      ++ " with " ++ right.text
  | unordered op operand =>
    "Operator '" ++ op.sign ++ "' cannot order values of type " ++ operand.text
  | voidItem => "Array elements cannot be of type void"
  | itemMismatch expected found =>
    "Array elements must have the same type. " ++ unlike expected found
  | badKey => "Hash keys must be int or string"
  | voidEntry => "Hash values cannot be of type void"
  | keyMismatch expected found => "Hash key type mismatch. " ++ unlike expected found
  | entryMismatch expected found => "Hash value type mismatch. " ++ unlike expected found
  | literalWithoutReturn returns =>
    "Function literal must return a value of type " ++ returns.text
  | indexMismatch found => "Array index must be int, got " ++ found.text
  | notIndexable target => "Cannot index type " ++ target.text
  | call problem => problem.message
  | notCallable callee => "Cannot call non-function type " ++ callee.text
  | returnOutside => "Return statement outside of function"
  | returnMismatch expected found => "Return type mismatch. " ++ unlike expected found
  | returnWithoutValue expected => "Function must return a value of type " ++ expected.text
  | functionWithoutReturn name returns =>
    "Function '" ++ name ++ "' must return a value of type " ++ returns.text
  | conditionMismatch found => "If condition must be of type bool, got " ++ found.text
  | voidPrint => "Cannot print a value of type void"

end Problem

/-- A problem and the line it is reported under. -/
structure Diagnostic where
  line : Nat
  problem : Problem
  deriving DecidableEq

/-- A diagnostic on one line. -/
def Diagnostic.message (d : Diagnostic) : String :=
  "Line " ++ toString d.line ++ ": " ++ d.problem.message

/-! ## 2. Annotations -/

namespace TypeExpr

mutual
/-- What is wrong with an annotation: hash keys other than integers and strings, and `void`
    as an element, as a value of a hash or as a parameter, at any depth. -/
def problems : TypeExpr → List Problem
  | array element =>
    (if element.isVoid then [.voidElementType] else []) ++ element.problems
  | hash key value =>
    (if key.isHashKey then [] else [.badKeyType])
      ++ (if value.isVoid then [.voidEntryType] else []) ++ key.problems ++ value.problems
  | fn params returns => paramProblems params ++ returns.problems
  | int | string | bool | char | void => []

/-- What is wrong with the parameters of a function type. -/
def paramProblems : List TypeExpr → List Problem
  | [] => []
  | p :: rest => (if p.isVoid then [.voidParamType] else []) ++ p.problems ++ paramProblems rest
end

end TypeExpr

end Stackling
