import Stackling.Source.Line
import Stackling.Syntax.Error
import Stackling.Text.Blank
import Stackling.Text.Decimal

/-
  File:     Stackling/Syntax/Report.lean
  Subject:  A syntax error shown against its source.

  The report names the error, gives the advice for it, names the file, quotes the line the
  error is on without its indentation, and points a caret at the place. An error past the
  end of the text quotes no line.
-/
namespace Stackling

open Text

/-- The blanks and tabs a line starts with. -/
def indentation (line : List Char) : Nat :=
  (line.takeWhile fun c => c == ' ' || c == '\t').length

/-- The caret under a column, drawn at the end of dashes. -/
def caret (column : Nat) : String := String.ofList (List.replicate column '-') ++ "^"

/-- The quoted line with its number, and the caret under it. -/
def Line.render (l : Line) : String :=
  let number := toString l.number
  let gutter := padLeft ' ' (number.length + 2) "|"
  let indent := indentation l.text
  let shown := String.ofList (dropBlankEnd (l.text.drop indent))
  gutter ++ "\n" ++ number ++ " | " ++ shown ++ "\n"
    ++ gutter ++ " " ++ caret (l.column - indent) ++ "\n"

/-- The report of an error in the text `source` of the file called `file`. -/
def SyntaxError.render (e : SyntaxError) (file source : String) : String :=
  let title := match e.cause.tip? with
    | none => "Error: " ++ e.cause.name ++ "\n"
    | some tip => "Error: " ++ e.cause.name ++ " (" ++ tip ++ ")\n"
  let quoted := match lineAt source.toList e.place.offset with
    | none => ""
    | some line => line.render
  title ++ "-> " ++ file ++ "\n" ++ quoted

end Stackling
