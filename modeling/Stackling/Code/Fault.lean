import Stackling.Typing.Scope

/-
  File:     Stackling/Code/Fault.lean
  Subject:  What can stop the generation of code.

  None of these is the fault of a source text: the analysis lets no program through that
  raises one. They are raised for a table of types that does not fit the program.
-/
namespace Stackling

/-- Why no code was generated. -/
inductive CodeFault
  | unresolvedVariable (name : String)
  | missingType (node : Nat)
  | unsupportedConversion (source target : Ty)
  | arityMismatch (function : String) (expected received : Nat)
  | unsupportedOperator (operator : String) (operand : Ty)
  | invalidIndexTarget (target : Ty)
  | invalidCallee (callee : Ty)
  | stackImbalance (unit : String) (expected found : Nat)
  | unplacedLabel (unit : String) (label : Nat)
  | unfinishedUnit (unit : Nat)
  | invariant (violation : ScopeViolation)
  deriving DecidableEq

namespace CodeFault

/-- The name of a fault. -/
def name : CodeFault → String
  | unresolvedVariable _ => "UnresolvedVariable"
  | missingType _ => "MissingType"
  | unsupportedConversion _ _ => "UnsupportedConversion"
  | arityMismatch _ _ _ => "ArityMismatch"
  | unsupportedOperator _ _ => "UnsupportedOperator"
  | invalidIndexTarget _ => "InvalidIndexTarget"
  | invalidCallee _ => "InvalidCallee"
  | stackImbalance _ _ _ => "StackImbalance"
  | unplacedLabel _ _ => "UnplacedLabel"
  | unfinishedUnit _ => "UnfinishedUnit"
  | invariant _ => "Invariant"

/-- The wording of a fault. -/
def message : CodeFault → String
  | unresolvedVariable name =>
    "variable `" ++ name ++ "` does not resolve to an argument, local, global or function"
  | missingType node => "no type recorded for expression node " ++ toString node
  | unsupportedConversion source target =>
    "conversion from " ++ source.text ++ " to " ++ target.text ++ " is not supported"
  | arityMismatch function expected received =>
    "call to `" ++ function ++ "` passes " ++ toString received ++ " arguments, signature takes "
      ++ toString expected
  | unsupportedOperator operator operand =>
    "no instruction for operator `" ++ operator ++ "` on " ++ operand.text
  | invalidIndexTarget target => "cannot index a value of type " ++ target.text
  | invalidCallee callee => "cannot call a value of type " ++ callee.text
  | stackImbalance unit expected found =>
    "stack imbalance in `" ++ unit ++ "`: expected depth " ++ toString expected ++ ", found "
      ++ toString found
  | unplacedLabel unit label =>
    "label L" ++ toString label ++ " in `" ++ unit ++ "` was never placed"
  | unfinishedUnit unit =>
    "callable unit #" ++ toString unit ++ " was reserved but never generated"
  | invariant violation => violation.message

end CodeFault

end Stackling
