import Stackling.Ty

/-
  File:     Stackling/Builtin.lean
  Subject:  The functions every program has.

  A built-in has two types. As a value it has one signature, over arrays of integers
  (`Builtin.signature`). A direct call is typed by its arguments (`Builtin.checkCall`), so
  that `first` takes an array of anything and `len` takes a string as well.
-/
namespace Stackling

/-- The built-in functions. -/
inductive Builtin
  | len | first | last | rest | push
  deriving DecidableEq

namespace Builtin

/-- All built-ins, in the order in which they are declared. -/
def all : List Builtin := [len, first, last, rest, push]

def name : Builtin → String
  | len => "len"
  | first => "first"
  | last => "last"
  | rest => "rest"
  | push => "push"

/-- The built-in with a given name. -/
def ofName? (s : String) : Option Builtin := all.find? fun b => b.name == s

/-- The number of arguments. -/
def arity : Builtin → Nat
  | push => 2
  | _ => 1

/-- The parameters of the signature. -/
def params : Builtin → List Ty
  | push => [.array .int, .int]
  | _ => [.array .int]

/-- The result of the signature. -/
def returns : Builtin → Ty
  | len | first | last => .int
  | rest | push => .array .int

/-- The type of a built-in as a value. -/
def signature (b : Builtin) : Ty := .fn b.params b.returns

/-- The signature takes as many arguments as the built-in. -/
@[simp] theorem length_params (b : Builtin) : b.params.length = b.arity := by cases b <;> rfl

/-- A name finds its built-in. -/
@[simp] theorem ofName?_name (b : Builtin) : ofName? b.name = some b := by cases b <;> rfl

/-! ## Direct calls -/

/-- What is wrong with the arguments of a direct call. -/
inductive CallProblem
  | arity (expected received : Nat)
  /-- the argument at `place`, counted from one, is not of the wanted sort -/
  | argument (place : Nat) (wanted : String) (found : Ty)
  deriving DecidableEq

/-- The wording of a problem. -/
def CallProblem.message : CallProblem → String
  | .arity expected received =>
    "Function expects " ++ toString expected ++ " arguments, got " ++ toString received
  | .argument place wanted found =>
    "Argument " ++ toString place ++ " type mismatch. Expected " ++ wanted ++ ", got "
      ++ found.text

/-- The type of a direct call with arguments of the given types. -/
def checkCall (b : Builtin) (args : List Ty) : Except CallProblem Ty :=
  match b, args with
  | len, [.array _] => .ok .int
  | len, [.string] => .ok .int
  | len, [other] => .error (.argument 1 "array or string" other)
  | first, [.array element] => .ok element
  | last, [.array element] => .ok element
  | rest, [.array element] => .ok (.array element)
  | push, [.array element, pushed] =>
    if element.compatible pushed then .ok (.array element)
    else .error (.argument 2 element.text pushed)
  | first, [other] | last, [other] | rest, [other] | push, [other, _] =>
    .error (.argument 1 "array" other)
  | b, args => .error (.arity b.arity args.length)

end Builtin

end Stackling
