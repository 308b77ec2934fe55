import Stackling.Code.Listing
import Stackling.Code.Lowering
import Stackling.Machine.Run
import Stackling.Syntax.TopLevel
import Stackling.Typing.Analysis

/-
  File:     Stackling/Pipeline.lean
  Subject:  From a text to its output.

  No stage starts while an earlier one has something to report: code is generated only for a
  program without diagnostics, and only generated code is run.

  * `Failure`  -- what any stage may report;
  * `compile`  -- a text as bytecode;
  * `run`      -- the output of a text.
-/
namespace Stackling

/-! ## 1. Failures -/

/-- What stopped a program on its way. -/
inductive Failure
  /-- an error in the file of the given name -/
  | syntaxError (file : String) (error : SyntaxError)
  | semantic (messages : List String)
  | invariant (violation : ScopeViolation)
  | generation (fault : CodeFault)
  | runtime (fault : Fault)
  /-- a run that did not end, which takes a backward jump -/
  | unfinished

/-- The wording of a failure. -/
def Failure.message : Failure → String
  | .syntaxError file error => "syntax error: " ++ error.message file
  | .semantic messages =>
    toString messages.length ++ " semantic error(s):\n" ++ "\n".intercalate messages
  | .invariant violation => "internal compiler error: " ++ violation.message
  | .generation fault => "internal code generation error: " ++ fault.message
  | .runtime fault => "runtime fault: " ++ fault.message
  | .unfinished => "the run did not end"

/-! ## 2. Stages -/

/-- The frames a run may use if nothing else is said. -/
def defaultCallDepth : Nat := 10000

/-- What can be chosen for a run. -/
structure Options where
  /-- the name under which syntax errors are reported -/
  file : String
  maxCallDepth : Nat
  /-- whether the listing is written before the run -/
  dump : Bool

/-- A text as a program. -/
def parseSource (source : String) (options : Options) : Except Failure Program :=
  (readText source).mapError (.syntaxError options.file)

/-- The types of the expressions of a program that has no problem. -/
def analyze (p : Program) : Except Failure TypeTable :=
  match typeCheck p with
  | .error violation => .error (.invariant violation)
  | .ok analysis =>
    match analysis.diagnostics with
    | [] => .ok analysis.types
    | reports => .error (.semantic (reports.map Diagnostic.message))

/-- A text as bytecode. -/
def compile (source : String) (options : Options) : Except Failure Bytecode := do
  let program ← parseSource source options
  let types ← analyze program
  (generate program types).mapError .generation

/-- The end of a run as a stage. -/
def Ending.result : Ending → Except Failure Unit
  | .done => .ok ()
  | .fault f => .error (.runtime f)
  | .unfinished => .error .unfinished

/-- Runs bytecode, after its listing if that is wanted. -/
def runCode (code : Bytecode) (options : Options) (sink : Sink) : Except Failure Unit × Sink :=
  let (sink, written) := if options.dump then sink.write code.listing else (sink, true)
  if written then
    let execution := execute code options.maxCallDepth sink
    (execution.ending.result, execution.sink)
  else (.error (.runtime (.output Sink.fullMessage)), sink)

/-- Compiles and runs a text. -/
def run (source : String) (options : Options) (sink : Sink) : Except Failure Unit × Sink :=
  match compile source options with
  | .error failure => (.error failure, sink)
  | .ok code => runCode code options sink

end Stackling
