import Stackling.Code.Bytecode
import Stackling.Text.Decimal
import Stackling.Text.Quoted

/-
  File:     Stackling/Code/Listing.lean
  Subject:  Programs of the machine as text.

  The listing names the global cells if there are any, then the entry unit, then every unit
  with its instructions, one a line, after their offsets. A jump shows the number of its label
  and, if the label has been placed, the offset.
-/
namespace Stackling

open Text

/-- A label with its offset. -/
def CodeUnit.showLabel (u : CodeUnit) (l : Label) : String :=
  match u.offset? l with
  | some offset => "L" ++ toString l ++ " (@" ++ toString offset ++ ")"
  | none => "L" ++ toString l

/-- An instruction of the unit `u` of the program `p`. -/
def Bytecode.showOp (p : Bytecode) (u : CodeUnit) : Op → String
  | .pushInt value => "push.int " ++ decimal value
  | .pushChar value => "push.char " ++ quoteChar value
  | .pushText value => "push.str " ++ quoteText value
  | .pushUnit id => "push.fn " ++ p.unitName id
  | .pushBuiltin b => "push.builtin " ++ b.name
  | .loadArg index => "load.arg " ++ toString index
  | .loadLocal slot => "load.local " ++ toString slot
  | .storeLocal slot => "store.local " ++ toString slot
  | .loadGlobal cell => "load.global " ++ toString cell ++ " (" ++ p.globalName cell ++ ")"
  | .storeGlobal cell => "store.global " ++ toString cell ++ " (" ++ p.globalName cell ++ ")"
  | .pop => "pop"
  | .addInt => "add.int"
  | .subInt => "sub.int"
  | .mulInt => "mul.int"
  | .divInt => "div.int"
  | .concat => "concat"
  | .compare comparison kind => "cmp " ++ comparison.sign ++ " " ++ kind.name
  | .intToBool => "int.to.bool"
  | .not => "not"
  | .jump label => "jump " ++ u.showLabel label
  | .jumpIf label => "jump.if " ++ u.showLabel label
  | .newArray length => "new.array " ++ toString length
  | .setElement index => "set.element " ++ toString index
  | .newHash => "new.hash"
  | .insertEntry => "insert.entry"
  | .indexArray => "index.array"
  | .indexHash => "index.hash"
  | .call unit arity _ => "call " ++ p.unitName unit ++ "/" ++ toString arity
  | .callIndirect arity _ => "call.indirect /" ++ toString arity
  | .callBuiltin b => "call.builtin " ++ b.name
  | .ret => "return"
  | .retVoid => "return.void"
  | .print ty => "print " ++ ty.text
  | .missingReturn => "missing.return"

/-- The lines of some instructions, the first of them at `offset`. -/
def Bytecode.showOps (p : Bytecode) (u : CodeUnit) (offset : Nat) : List Op → String
  | [] => ""
  | op :: rest =>
    "  " ++ padLeft '0' 4 (toString offset) ++ "  " ++ p.showOp u op ++ "\n"
      ++ p.showOps u (offset + 1) rest

/-- A unit, after an empty line. -/
def Bytecode.showUnit (p : Bytecode) (u : CodeUnit) : String :=
  "\n" ++ u.name ++ " #" ++ toString u.id ++ " (arity " ++ toString u.arity ++ ", locals "
    ++ toString u.locals ++ (if u.returns then ", returns" else "") ++ ")\n"
    ++ p.showOps u 0 u.ops.toList

/-- The listing of a program. -/
def Bytecode.listing (p : Bytecode) : String :=
  (if p.globals.isEmpty then ""
    else "globals: " ++ ", ".intercalate p.globals.toList ++ "\n")
    ++ "entry: " ++ p.unitName p.entry ++ "\n"
    ++ String.join (p.units.toList.map p.showUnit)

end Stackling
