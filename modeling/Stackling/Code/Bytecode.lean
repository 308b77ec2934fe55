import Stackling.Code.Op

/-
  File:     Stackling/Code/Bytecode.lean
  Subject:  Units of code, and programs made of them.

  A unit is a piece of code that can be called. Jumps name labels, and the unit knows the
  offset of each label. A program is its units, the names of its global cells, and the unit a
  run starts with; nothing here promises that the numbers in it fit together.
-/
namespace Stackling

/-- A piece of code that can be called. -/
structure CodeUnit where
  id : UnitId
  name : String
  /-- how many arguments a call passes -/
  arity : Nat
  /-- how many local slots a call needs -/
  locals : Nat
  /-- whether a call leaves a value -/
  returns : Bool
  ops : Array Op
  /-- the offset of each label -/
  labels : Array Nat

/-- The offset of a label. -/
def CodeUnit.offset? (u : CodeUnit) (l : Label) : Option Nat := u.labels[l]?

/-- A program for the machine. -/
structure Bytecode where
  units : Array CodeUnit
  /-- the name of each global cell -/
  globals : Array String
  /-- the unit a run starts with -/
  entry : UnitId

namespace Bytecode

def unit? (p : Bytecode) (id : UnitId) : Option CodeUnit := p.units[id]?

/-- The first unit with a name. -/
def find? (p : Bytecode) (name : String) : Option CodeUnit :=
  p.units.find? fun u => u.name == name

/-- The name of a unit, or a question mark. -/
def unitName (p : Bytecode) (id : UnitId) : String := ((p.unit? id).map (·.name)).getD "?"

/-- The name of a global cell, or a question mark. -/
def globalName (p : Bytecode) (cell : Nat) : String := p.globals[cell]?.getD "?"

end Bytecode

end Stackling
