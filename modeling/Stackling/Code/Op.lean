import Stackling.Builtin

/-
  File:     Stackling/Code/Op.lean
  Subject:  The instructions of the stack machine.

  * `Op`        -- the instructions, with their operands;
  * `Op.pops`, `Op.pushes` -- what an instruction takes from the operand stack and leaves there.
-/
namespace Stackling

/-- How two operands are compared. -/
inductive Comparison
  | equal | notEqual | less | lessEqual | greater | greaterEqual
  deriving DecidableEq

namespace Comparison

/-- Whether the operands need an order. -/
def isOrdering : Comparison → Bool
  | equal | notEqual => false
  | _ => true

def sign : Comparison → String
  | equal => "=="
  | notEqual => "!="
  | less => "<"
  | lessEqual => "<="
  | greater => ">"
  | greaterEqual => ">="

def name : Comparison → String
  | equal => "Equal"
  | notEqual => "NotEqual"
  | less => "Less"
  | lessEqual => "LessEqual"
  | greater => "Greater"
  | greaterEqual => "GreaterEqual"

/-- All comparisons. -/
def all : List Comparison := [equal, notEqual, less, lessEqual, greater, greaterEqual]

/-- The comparison with a given name. -/
def ofName? (s : String) : Option Comparison := all.find? fun c => c.name == s

end Comparison

/-- What sort of operands a comparison reads: integers and truth values, characters, strings,
    or any values, which have no order. -/
inductive OperandKind
  | int | char | str | structural
  deriving DecidableEq

namespace OperandKind

def name : OperandKind → String
  | int => "Int"
  | char => "Char"
  | str => "Str"
  | structural => "Structural"

/-- All sorts. -/
def all : List OperandKind := [int, char, str, structural]

/-- The sort with a given name. -/
def ofName? (s : String) : Option OperandKind := all.find? fun k => k.name == s

end OperandKind

/-- The number of a unit of the program. -/
abbrev UnitId := Nat

/-- The number of a label of a unit. -/
abbrev Label := Nat

/-- An instruction. -/
inductive Op
  | pushInt (value : Int64)
  | pushChar (value : Char)
  | pushText (value : String)
  | pushUnit (unit : UnitId)
  | pushBuiltin (b : Builtin)
  | loadArg (index : Nat)
  | loadLocal (slot : Nat)
  | storeLocal (slot : Nat)
  | loadGlobal (cell : Nat)
  | storeGlobal (cell : Nat)
  | pop
  | addInt | subInt | mulInt | divInt
  | concat
  | compare (comparison : Comparison) (kind : OperandKind)
  | intToBool
  | not
  | jump (label : Label)
  /-- jumps if the popped truth value is true -/
  | jumpIf (label : Label)
  /-- an array of the length, every item `void` -/
  | newArray (length : Nat)
  /-- stores the popped value at the index of the array below it -/
  | setElement (index : Nat)
  | newHash
  /-- adds the popped key and value to the hash below them -/
  | insertEntry
  | indexArray
  | indexHash
  | call (unit : UnitId) (arity : Nat) (returns : Bool)
  /-- calls the callable below the arguments -/
  | callIndirect (arity : Nat) (returns : Bool)
  | callBuiltin (b : Builtin)
  | ret
  | retVoid
  /-- writes the popped value, of the static type, on a line -/
  | print (ty : Ty)
  /-- stands at the end of a unit that has to return a value -/
  | missingReturn
  deriving DecidableEq

namespace Op

/-- How many values an instruction takes from the operand stack. -/
def pops : Op → Nat
  | pushInt _ | pushChar _ | pushText _ | pushUnit _ | pushBuiltin _ | loadArg _ | loadLocal _
  | loadGlobal _ | newArray _ | newHash | jump _ | retVoid | missingReturn => 0
  | storeLocal _ | storeGlobal _ | pop | jumpIf _ | print _ | ret | intToBool | not => 1
  | addInt | subInt | mulInt | divInt | concat | compare _ _ | setElement _ | indexArray
  | indexHash => 2
  | insertEntry => 3
  | call _ arity _ => arity
  | callIndirect arity _ => arity + 1
  | callBuiltin b => b.arity

/-- How many values an instruction leaves on the operand stack. -/
def pushes : Op → Nat
  | pushInt _ | pushChar _ | pushText _ | pushUnit _ | pushBuiltin _ | loadArg _ | loadLocal _
  | loadGlobal _ | newArray _ | newHash | addInt | subInt | mulInt | divInt | concat
  | compare _ _ | setElement _ | indexArray | indexHash | intToBool | not | insertEntry
  | callBuiltin _ => 1
  | storeLocal _ | storeGlobal _ | pop | jumpIf _ | print _ | ret | jump _ | retVoid
  | missingReturn => 0
  | call _ _ returns | callIndirect _ returns => if returns then 1 else 0

end Op

end Stackling
