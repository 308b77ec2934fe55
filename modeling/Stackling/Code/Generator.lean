import Stackling.Code.UnitBuilder
import Stackling.Syntax.Tree
import Stackling.Typing.Table

/-
  File:     Stackling/Code/Generator.lean
  Subject:  A program while its code is written.

  The generator holds the unit in work, the units that are finished or reserved, and the names
  of functions and global cells. A name is looked for in the unit in work, then among the
  global cells, the functions and the built-ins.
-/
namespace Stackling

/-- A function that has a unit. -/
structure FunctionEntry where
  name : String
  unit : UnitId
  params : List Ty
  returns : Ty

/-- What a name refers to in code. -/
inductive Resolved
  | slot (slot : Slot)
  | global (cell : Nat)
  | function (unit : UnitId)
  | builtin (b : Builtin)
  deriving DecidableEq

/-- A program while its code is written. -/
structure Generator where
  types : TypeTable
  current : UnitBuilder
  /-- the units by their number; none where one is only reserved -/
  units : Array (Option CodeUnit)
  functions : List FunctionEntry
  /-- the global cells by name, the latest first -/
  globals : List (String × Nat)
  globalNames : Array String
  /-- how many function literals have got a unit -/
  literals : Nat

namespace Generator

/-- Nothing written yet. -/
def new (types : TypeTable) : Generator :=
  ⟨types, .new 0 "<detached>" 0 .void, #[], [], [], #[], 0⟩

def function? (g : Generator) (name : String) : Option FunctionEntry :=
  g.functions.find? fun f => f.name == name

/-- The function whose unit has the number. -/
def functionOf? (g : Generator) (unit : UnitId) : Option FunctionEntry :=
  g.functions.find? fun f => f.unit == unit

/-- What a name refers to. -/
def resolve? (g : Generator) (name : String) : Option Resolved :=
  match g.current.resolve? name with
  | some slot => some (.slot slot)
  | none =>
    match g.globals.lookup name with
    | some cell => some (.global cell)
    | none =>
      match g.function? name with
      | some f => some (.function f.unit)
      | none => (Builtin.ofName? name).map .builtin

/-- The number of a new unit, without code yet. -/
def reserve (g : Generator) : UnitId × Generator :=
  (g.units.size, { g with units := g.units.push none })

/-- A new global cell. An older cell of the same name is out of reach from now on. -/
def declareGlobal (g : Generator) (name : String) : Nat × Generator :=
  let cell := g.globalNames.size
  (cell, { g with globalNames := g.globalNames.push name, globals := (name, cell) :: g.globals })

/-- Binds the name of a function to its unit; an earlier function of the name keeps it. -/
def declareFunction (g : Generator) (f : FunctionEntry) : Generator :=
  match g.function? f.name with
  | some _ => g
  | none => { g with functions := g.functions ++ [f] }

end Generator

/-- A step of the generation of code. -/
abbrev Generate := StateT Generator (Except CodeFault)

namespace Generate

/-- Changes the unit in work. -/
def onUnit {α : Type} (f : UnitBuilder → α × UnitBuilder) : Generate α := do
  let g ← get
  let (a, b) := f g.current
  set { g with current := b }
  return a

/-- Adds an instruction to the unit in work. -/
def emit (op : Op) : Generate Unit := do
  let g ← get
  let b ← g.current.emit op
  set { g with current := b }

def depth : Generate Nat := do return (← get).current.depth

/-- Fails unless the operand stack has the expected depth. -/
def requireDepth (expected : Nat) : Generate Unit := do
  let b := (← get).current
  if b.depth ≠ expected then throw (.stackImbalance b.name expected b.depth)

/-- The type that was filed for an expression. -/
def typeOf (node : Node) : Generate Ty := do
  match (← get).types.find? node.id with
  | some ty => return ty
  | none => throw (.missingType node.id)

/-- What is done to the value on top of the stack, which is of the first type, where a value of
    the second type is wanted. -/
abbrev Conversion := Ty → Ty → Generate Unit

/-- Turns the value on top of the stack from one type into another. Nothing needs to be done
    for the same type, and a truth value is an integer already. -/
def convert : Conversion := fun source target =>
  if source.compatible target then pure ()
  else match source, target with
    | .bool, .int => pure ()
    | .int, .bool => emit .intToBool
    | _, _ => throw (.unsupportedConversion source target)

/-- Writes a whole unit with `body`, and goes back to the unit in work. -/
def unit (builder : UnitBuilder) (body : Generate Unit) : Generate Unit := do
  let enclosing := (← get).current
  modify fun g => { g with current := builder }
  body
  let finished ← (← get).current.finish
  modify fun g => { g with current := enclosing }
  if finished.id < (← get).units.size then
    modify fun g => { g with units := g.units.setIfInBounds finished.id (some finished) }
  else throw (.unfinishedUnit finished.id)

end Generate

end Stackling
