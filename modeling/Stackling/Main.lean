import Stackling.CommandLine

/-
  File:     Stackling/Main.lean
  Subject:  The program.

  Reads the file, lets `Command.perform` decide, and writes what it says.
-/
namespace Stackling

/-- The bytes of a file. A folder is opened like a file and only fails when it is read, and
    then the fault names no path. -/
def readPath (path : String) : IO (Except ReadFault ByteArray) := do
  try
    return .ok (← IO.FS.readBinFile path)
  catch e =>
    match e with
    | .noFileOrDirectory .. => return .error .notFound
    | .inappropriateType (some _) .. => return .error .notAFolder
    | .inappropriateType none .. => return .error .isAFolder
    | .invalidArgument _ _ "name too long" => return .error .nameTooLong
    | e => return .error (.other (toString e))

/-- Writes a result and gives its exit code. -/
def finish (result : CommandResult) : IO UInt32 := do
  IO.print result.output
  IO.eprint result.errors
  return result.code.toUInt32

end Stackling

open Stackling in
/-- Runs the command with the arguments. -/
def main (args : List String) : IO UInt32 := do
  match Command.read? args with
  | none => finish .misuse
  | some c => finish (c.perform (← readPath c.path))
