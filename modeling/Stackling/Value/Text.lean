import Stackling.Value
import Stackling.Text.Decimal
import Stackling.Text.Quoted

/-
  File:     Stackling/Value/Text.lean
  Subject:  Values as text.

  * `Value.show`   -- a value without a type at hand: strings and characters stand bare,
                      truth values as integers, keys of a hash in quotes;
  * `Value.format` -- a value of a static type, as `print` writes it: truth values by name,
                      and strings and characters inside other values in quotes.
-/
namespace Stackling

open Text

/-! ## 1. Without a type -/

/-- The name of a callable in angle brackets. -/
def Callable.show : Callable → String
  | .unit _ name => "<fn " ++ name ++ ">"
  | .builtin b => "<fn " ++ b.name ++ ">"

/-- A key: a string is quoted. -/
def HashKey.show : HashKey → String
  | .int n => decimal n
  | .text s => quoteText s

/-- Items in square brackets. -/
def inBrackets (items : List String) : String := "[" ++ ", ".intercalate items ++ "]"

/-- Entries in curly brackets. -/
def inBraces (entries : List String) : String := "\x7b" ++ ", ".intercalate entries ++ "\x7d"

mutual
/-- A value without a type at hand. -/
def Value.show : Value → String
  | .int n => decimal n
  | .char c => String.singleton c
  | .text s => s
  | .array items => inBrackets (showItems items)
  | .hash entries => inBraces (showEntries entries)
  | .callable target => target.show
  | .void => "void"

/-- The items of an array, each shown. -/
def showItems : List Value → List String
  | [] => []
  | v :: rest => v.show :: showItems rest

/-- The entries of a hash, each shown. -/
def showEntries : List (HashKey × Value) → List String
  | [] => []
  | (k, v) :: rest => (k.show ++ ": " ++ v.show) :: showEntries rest
end

/-! ## 2. With a type -/

/-- A truth value by name; every integer but 0 is true. -/
def boolName (n : Int64) : String := if n = 0 then "false" else "true"

/-- A key of a given type. -/
def HashKey.format (k : HashKey) (ty : Ty) : String :=
  match k, ty with
  | .int n, .bool => boolName n
  | k, _ => k.show

mutual
/-- A value of a given type; `nested` tells whether it stands inside another one. -/
def Value.formatIn (nested : Bool) : Value → Ty → String
  | .int n, .bool => boolName n
  | .text s, _ => if nested then quoteText s else s
  | .char c, _ => if nested then quoteChar c else String.singleton c
  | .array items, .array element => inBrackets (formatItems element items)
  | .hash entries, .hash key value => inBraces (formatEntries key value entries)
  | v, _ => v.show

/-- The items of an array, each of a given type. -/
def formatItems (element : Ty) : List Value → List String
  | [] => []
  | v :: rest => v.formatIn true element :: formatItems element rest

/-- The entries of a hash, with keys and values of given types. -/
def formatEntries (key value : Ty) : List (HashKey × Value) → List String
  | [] => []
  | (k, v) :: rest =>
    (k.format key ++ ": " ++ v.formatIn true value) :: formatEntries key value rest
end

/-- A value of a given type, as `print` writes it. -/
def Value.format (v : Value) (ty : Ty) : String := v.formatIn false ty

end Stackling
