import Stackling.Builtin
import Stackling.Builtin.Apply
import Stackling.Code.Bytecode
import Stackling.Code.Fault
import Stackling.Code.Generator
import Stackling.Code.Listing
import Stackling.Code.Lowering
import Stackling.Code.Op
import Stackling.Code.UnitBuilder
import Stackling.CommandLine
import Stackling.Files
import Stackling.Machine.Fault
import Stackling.Machine.Pile
import Stackling.Machine.Run
import Stackling.Machine.Sink
import Stackling.Machine.State
import Stackling.Machine.Step
import Stackling.Main
import Stackling.Pipeline
import Stackling.Source
import Stackling.Source.Line
import Stackling.Syntax.Error
import Stackling.Syntax.Grammar
import Stackling.Syntax.Phrase
import Stackling.Syntax.Report
import Stackling.Syntax.Stream
import Stackling.Syntax.TopLevel
import Stackling.Syntax.Tree
import Stackling.Syntax.TypeExpr
import Stackling.Text.Blank
import Stackling.Text.Decimal
import Stackling.Text.Printable
import Stackling.Text.Quoted
import Stackling.Token
import Stackling.Token.Cursor
import Stackling.Token.Escape
import Stackling.Token.Reader
import Stackling.Token.Scan
import Stackling.Ty
import Stackling.Typing.Analysis
import Stackling.Typing.Problem
import Stackling.Typing.Returns
import Stackling.Typing.Scope
import Stackling.Typing.Table
import Stackling.Value
import Stackling.Value.Text
import Stackling.Proofs.Steps
import Stackling.Proofs.Courses
import Stackling.Proofs.Typing.Compatibility
import Stackling.Proofs.Typing.Quiet
import Stackling.Proofs.Typing.Rules
import Stackling.Proofs.Typing.ScopeStack
import Stackling.Proofs.Typing.Contexts
import Stackling.Proofs.Typing.Proper
import Stackling.Proofs.Typing.Analysed
import Stackling.Proofs.Typing.Inversion
import Stackling.Proofs.Typing.Sound
import Stackling.Proofs.Typing.Complete
import Stackling.Proofs.Typing.Expectations
import Stackling.Proofs.Typing.Programs
import Stackling.Proofs.Syntax.Numbering
import Stackling.Proofs.Typing.Acceptance
import Stackling.Proofs.Syntax.Numbers
import Stackling.Proofs.Code.Callables
import Stackling.Proofs.Code.Placed
import Stackling.Proofs.Code.Writing
import Stackling.Proofs.Code.Fitting
import Stackling.Proofs.Code.Expressions
import Stackling.Proofs.Code.Statements
import Stackling.Proofs.Code.Lowered
import Stackling.Proofs.Code.Units
import Stackling.Proofs.Code.Generated
import Stackling.Proofs.Code.Literals
import Stackling.Proofs.Run.Evaluator
import Stackling.Proofs.Run.Shapes
import Stackling.Proofs.Run.Operators
import Stackling.Proofs.Code.Verifier
import Stackling.Proofs.Code.Balanced
import Stackling.Proofs.Code.Inversion
import Stackling.Proofs.Code.Verified
import Stackling.Proofs.Code.Compiled
import Stackling.Proofs.Code.Distinct
import Stackling.Proofs.Code.Stretches
import Stackling.Proofs.Code.CellStores
import Stackling.Proofs.Run.Motion
import Stackling.Proofs.Run.Faults
import Stackling.Proofs.Run.Halting
import Stackling.Proofs.Run.Stepping
import Stackling.Proofs.Run.CodeTyping
import Stackling.Proofs.Run.PlacedCode
import Stackling.Proofs.Run.StateTyping
import Stackling.Proofs.Run.TypeSoundness
import Stackling.Proofs.Run.Following
import Stackling.Proofs.Run.NamedValues
import Stackling.Proofs.Run.Simulation
import Stackling.Proofs.Run.Correctness
import Stackling.Proofs.Run.Stages
import Stackling.Proofs.Run.Initialised
import Stackling.Proofs.Code.Alike
import Stackling.Proofs.Code.ControlFlow
import Stackling.Proofs.Code.Pieces
import Stackling.Proofs.Code.Returning
import Stackling.Proofs.Code.Agreement
import Stackling.Proofs.Code.Linked
import Stackling.Proofs.Run.CallFrames
import Stackling.Proofs.Run.Output
import Stackling.Proofs.Run.CallDepth
import Stackling.Proofs.Token.Lossless
import Stackling.Proofs.Token.Written
import Stackling.Proofs.Syntax.RoundTrip
import Stackling.Proofs.Typing.ScopeMaps
import Stackling.Proofs.Typing.FunctionOrder
import Stackling.Proofs.Typing.FiledTypes
import Stackling.Proofs.Typing.Declarations
import Stackling.Proofs.Typing.TopLevel
import Stackling.Proofs.Run.Renamed
import Stackling.Proofs.Run.Renumbered
import Stackling.Proofs.Run.Reordered
import Stackling.Proofs.Text.Quoted
import Stackling.Proofs.Syntax.Spelling
import Stackling.Proofs.Syntax.TypeTexts
import Stackling.Proofs.Syntax.PlainValues
import Stackling.Proofs.Text.Delimited
import Stackling.Proofs.Run.Formats
import Stackling.Proofs.Run.Printed
import Stackling.Proofs.Syntax.Retraced
import Stackling.Proofs.Syntax.Endings
import Stackling.Proofs.Token.LineEnds
import Stackling.Proofs.Syntax.Newlines
import Stackling.Proofs.Syntax.Nesting
import Stackling.Proofs.Syntax.Taking
import Stackling.Proofs.Syntax.Walking
import Stackling.Proofs.Syntax.Unbounded
import Stackling.Proofs.Syntax.Moved
import Stackling.Proofs.Syntax.Lockstep
import Stackling.Proofs.Syntax.Layers
import Stackling.Proofs.Syntax.Together
import Stackling.Proofs.Syntax.Bounds
import Stackling.Proofs.Syntax.Layout
import Stackling.Proofs.Syntax.Places
import Stackling.Proofs.Source.Lines
import Stackling.Proofs.Syntax.Reports
import Stackling.Proofs.Run.Equality
import Stackling.Proofs.Code.Books
import Stackling.Proofs.Run.AnyBytecode
import Stackling.Proofs.Run.Builtins
