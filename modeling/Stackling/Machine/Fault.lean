import Stackling.Text.Decimal

/-
  File:     Stackling/Machine/Fault.lean
  Subject:  What can stop a running program.

  Some faults are the program's own doing (a division by zero, a missing key); others tell of
  bytecode that no source produces.
-/
namespace Stackling

open Text

/-- Why a run stopped before its end. -/
inductive Fault
  | divisionByZero
  | indexOutOfRange (index : Int64) (length : Nat)
  | keyNotFound (key : String)
  | emptyArray (builtin : String)
  | arityMismatch (expected received : Nat)
  | missingArgument (unit : String) (index : Nat)
  | invalidJump (unit : String) (label : Nat)
  | unresolvedCallable
  | uninitializedGlobal (name : String)
  | missingReturn (function : String)
  | stackOverflow (limit : Nat)
  | stackUnderflow (unit : String)
  | operandMismatch (expected found : String)
  | output (message : String)
  deriving DecidableEq

namespace Fault

/-- The name of a fault. -/
def name : Fault → String
  | divisionByZero => "DivisionByZero"
  | indexOutOfRange _ _ => "IndexOutOfRange"
  | keyNotFound _ => "KeyNotFound"
  | emptyArray _ => "EmptyArray"
  | arityMismatch _ _ => "ArityMismatch"
  | missingArgument _ _ => "MissingArgument"
  | invalidJump _ _ => "InvalidJump"
  | unresolvedCallable => "UnresolvedCallable"
  | uninitializedGlobal _ => "UninitializedGlobal"
  | missingReturn _ => "MissingReturn"
  | stackOverflow _ => "StackOverflow"
  | stackUnderflow _ => "StackUnderflow"
  | operandMismatch _ _ => "OperandMismatch"
  | output _ => "Output"

/-- The wording of a fault. -/
def message : Fault → String
  | divisionByZero => "division by zero"
  | indexOutOfRange index length =>
    "index " ++ decimal index ++ " out of range for array of length " ++ toString length
  | keyNotFound key => "key " ++ key ++ " not found in hash"
  | emptyArray builtin => "`" ++ builtin ++ "` called on an empty array"
  | arityMismatch expected received =>
    "callable expects " ++ toString expected ++ " arguments, received " ++ toString received
  | missingArgument unit index =>
    "`" ++ unit ++ "` read argument " ++ toString index ++ ", which it was not passed"
  | invalidJump unit label => "jump to unknown label L" ++ toString label ++ " in `" ++ unit ++ "`"
  | unresolvedCallable => "invocation of an unresolved callable reference"
  | uninitializedGlobal name => "global `" ++ name ++ "` read before its initializer ran"
  | missingReturn function => "`" ++ function ++ "` reached its end without returning a value"
  | stackOverflow limit => "call depth exceeded " ++ toString limit ++ " frames"
  | stackUnderflow unit => "operand stack underflow in `" ++ unit ++ "`"
  | operandMismatch expected found =>
    "expected a " ++ expected ++ " operand, found " ++ found
  | output message => "failed to write program output: " ++ message

end Fault

end Stackling
