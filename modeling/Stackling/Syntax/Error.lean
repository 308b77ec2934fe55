import Stackling.Token
import Stackling.Text.Quoted

/-
  File:     Stackling/Syntax/Error.lean
  Subject:  What can be wrong with a text before it is analysed.

  * `SyntaxCause`         -- the closed list of causes;
  * `SyntaxCause.message` -- the one-line wording;
  * `SyntaxCause.tip?`    -- advice for the reader, where there is some;
  * `SyntaxError`         -- a cause and the place it was found at.
-/
namespace Stackling

open Text

/-! ## 1. Causes -/

/-- Why a text is not a program. -/
inductive SyntaxCause
  /-- no token starts with this character -/
  | unrecognised (token : String)
  /-- a token that cannot stand where it does -/
  | unexpected (token : String)
  /-- a token that cannot stand where it does, and what should -/
  | unexpectedBecause (token detail : String)
  /-- digits that 64 bits cannot hold -/
  | badNumber (token : String)
  /-- a character literal of no or several characters -/
  | badCharacter (literal : String)
  | unknownType (name : String)
  | missingMain
  | duplicateMain
  deriving DecidableEq

namespace SyntaxCause

/-- The name of a cause. -/
def name : SyntaxCause → String
  | unrecognised _ => "UnrecognisedToken"
  | unexpected _ => "UnexpectedToken"
  | unexpectedBecause _ _ => "UnexpectedTokenDetailed"
  | badNumber _ => "NumberParseError"
  | badCharacter _ => "InvalidCharLiteral"
  | unknownType _ => "UnknownType"
  | missingMain => "MissingMain"
  | duplicateMain => "DuplicateMain"

/-- The wording of a cause. -/
def message : SyntaxCause → String
  | unrecognised token => "unrecognised token: " ++ quoteText token
  | unexpected token => "unexpected token: " ++ quoteText token
  | unexpectedBecause token detail =>
    "unexpected token (" ++ detail ++ "): " ++ quoteText token
  | badNumber token => "error parsing number: " ++ quoteText token
  | badCharacter literal => "invalid char literal: " ++ quoteText literal
  | unknownType name => "unknown type " ++ name ++ " found"
  | missingMain => "program has no main function"
  | duplicateMain => "main function declared more than once"

/-- Advice for the reader of a cause. -/
def tip? : SyntaxCause → Option String
  | unrecognised _ => none
  | unexpected token => some ("Unexpected token: `" ++ token ++ "`")
  | unexpectedBecause token detail => some ("Unexpected token: `" ++ token ++ "`, " ++ detail)
  | badNumber token =>
    some ("Invalid number: `" ++ token ++ "`, is it above the integer limit?")
  | badCharacter literal =>
    some ("Invalid char literal: `" ++ literal
      ++ "`, a char literal holds exactly one character")
  | unknownType name => some ("Unknown type `" ++ name ++ "` found")
  | missingMain => some "Every program needs an entry block: `fn main() \x7b ... \x7d`"
  | duplicateMain => some "`main` may only be declared once"

end SyntaxCause

/-! ## 2. Errors -/

/-- A cause and the place it was found at. -/
structure SyntaxError where
  cause : SyntaxCause
  place : Position
  deriving DecidableEq

/-- An error in the file called `file`, on one line. -/
def SyntaxError.message (e : SyntaxError) (file : String) : String :=
  file ++ ":" ++ toString e.place.line ++ ": " ++ e.cause.message

end Stackling
