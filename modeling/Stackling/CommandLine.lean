import Stackling.Files
import Stackling.Pipeline
import Stackling.Syntax.Report

/-
  File:     Stackling/CommandLine.lean
  Subject:  The command line.

  The command takes one file, and before or after it any of the options, each at most once:

  * `--check`            -- only analyse the program;
  * `--dump-bytecode`    -- write the listing before the run;
  * `--max-call-depth N` -- the frames a run may use, also written with `=`.

  After `--` every argument is a file. What does not fit is a misuse with exit code 2; a
  program that cannot be read, compiled or run gives exit code 1.
-/
namespace Stackling

/-! ## 1. Arguments -/

/-- What the arguments ask for. -/
structure Command where
  path : String
  check : Bool
  dump : Bool
  maxCallDepth : Nat

/-- The arguments read so far. -/
structure Arguments where
  path? : Option String
  check : Bool
  dump : Bool
  depth? : Option Nat

namespace Arguments

/-- No argument. -/
def empty : Arguments := ⟨none, false, false, none⟩

/-- The largest number that an option takes. -/
def maxNumber : Nat := UInt64.size - 1

/-- The number that the text of an option stands for; a plus may stand before it. -/
def readNumber? (text : String) : Option Nat := do
  let digits := match text.toList with
    | '+' :: rest => rest
    | digits => digits
  let n ← Text.readNat? digits
  if n ≤ maxNumber then some n else failure

/-- The arguments with a file. Only one is allowed, and its path is not empty. -/
def addPath (a : Arguments) (path : String) : Option Arguments :=
  match a.path? with
  | some _ => none
  | none => if path = "" then none else some { a with path? := some path }

/-- The arguments with a limit of frames, which is allowed once. -/
def addDepth (a : Arguments) (text : String) : Option Arguments :=
  match a.depth? with
  | some _ => none
  | none => (readNumber? text).map fun n => { a with depth? := some n }

/-- Adds files alone. -/
def addPaths (a : Arguments) : List String → Option Arguments
  | [] => some a
  | path :: rest => (a.addPath path).bind fun a => addPaths a rest

/-- The option that sets the limit of frames. -/
def depthOption : String := "--max-call-depth"

/-- Adds the arguments in their order. -/
def add (a : Arguments) : List String → Option Arguments
  | [] => some a
  | "--" :: rest => a.addPaths rest
  | "--check" :: rest => if a.check then none else add { a with check := true } rest
  | "--dump-bytecode" :: rest => if a.dump then none else add { a with dump := true } rest
  | "--max-call-depth" :: text :: rest =>
    if text.startsWith "-" then none else (a.addDepth text).bind fun a => add a rest
  | arg :: rest =>
    if arg.startsWith (depthOption ++ "=") then
      (a.addDepth (String.ofList (arg.toList.drop (depthOption.length + 1)))).bind fun a =>
        add a rest
    else if arg.startsWith "-" ∧ arg ≠ "-" then none
    else (a.addPath arg).bind fun a => add a rest

end Arguments

/-- What the arguments ask for, if they fit. -/
def Command.read? (args : List String) : Option Command := do
  let a ← Arguments.empty.add args
  let path ← a.path?
  return ⟨path, a.check, a.dump, a.depth?.getD defaultCallDepth⟩

/-! ## 2. The command -/

/-- What a command leaves behind. -/
structure CommandResult where
  code : Nat
  output : String
  errors : String

/-- The result of a misuse. -/
def CommandResult.misuse : CommandResult :=
  ⟨2, "", "usage: [--check] [--dump-bytecode] [--max-call-depth N] FILE\n"⟩

/-- A failure as the command reports it. -/
def Failure.report (source : String) : Failure → String
  | .syntaxError file error => error.render file source
  | .semantic messages => String.join (messages.map (· ++ "\n"))
  | failure => failure.message ++ "\n"

/-- The options of the pipeline. -/
def Command.options (c : Command) : Options := ⟨fileName c.path, c.maxCallDepth, c.dump⟩

/-- Runs generated code, with an empty line after the listing. -/
def Command.runCode (c : Command) (code : Bytecode) : Except Failure Unit × String :=
  let execution := execute code c.maxCallDepth .unbounded
  (execution.ending.result, (if c.dump then code.listing ++ "\n" else "") ++ execution.sink.text)

/-- The command on the text of its file: how it ended, and its output. -/
def Command.process (c : Command) (source : String) : Except Failure Unit × String :=
  let analysed : Except Failure (Program × TypeTable) := do
    let program ← parseSource source c.options
    return (program, ← analyze program)
  match analysed with
  | .error failure => (.error failure, "")
  | .ok (program, types) =>
    if c.check then (.ok (), fileName c.path ++ ": no errors\n")
    else
      match generate program types with
      | .error fault => (.error (.generation fault), "")
      | .ok code => c.runCode code

/-- The command on what was found at its path. -/
def Command.perform (c : Command) (found : Except ReadFault ByteArray) : CommandResult :=
  let text : Except ReadFault String := found.bind fun bytes =>
    match String.fromUTF8? bytes with
    | some text => .ok text
    | none => .error .notText
  match text with
  | .error fault => ⟨1, "", "Failed to read " ++ c.path ++ ": " ++ fault.message ++ "\n"⟩
  | .ok source =>
    match c.process source with
    | (.ok _, output) => ⟨0, output, ""⟩
    | (.error failure, output) => ⟨1, output, failure.report source⟩

/-- The command with the given arguments in the folder `here`. -/
def commandIn (here : FileTree) (args : List String) : CommandResult :=
  match Command.read? args with
  | none => .misuse
  | some c => c.perform (here.readAt c.path)

end Stackling
