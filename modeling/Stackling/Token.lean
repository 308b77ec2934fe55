import Stackling.Source

/-
  File:     Stackling/Token.lean
  Subject:  Tokens: the words a source text is made of.

  * `TokenKind`       -- the closed list of kinds, each with the name messages use;
  * `TokenKind.text?` -- the one text of a keyword or a sign;
  * `reserved?`       -- the keyword a word is, if it is one;
  * `Token`           -- a kind, a text and a stretch of the source.
-/
namespace Stackling

/-! ## 1. Kinds -/

/-- What sort of word a token is. `endOfText` stands after the last one. -/
inductive TokenKind
  | endOfText
  | number | text | character | identifier
  | openParen | closeParen | openBracket | closeBracket | openCurly | closeCurly
  | plus | dash | star | slash | assignment
  | equals | notEquals | less | lessEquals | greater | greaterEquals
  | colon | comma | semicolon
  | letWord | constWord | fnWord | returnWord | ifWord | elseWord | trueWord | falseWord
  | printWord
  deriving DecidableEq

namespace TokenKind

/-- The name of a kind in messages. -/
def name : TokenKind → String
  | endOfText => "EOF"
  | number => "Number"
  | text => "String"
  | character => "Char"
  | identifier => "Identifier"
  | openParen => "OpenParen"
  | closeParen => "CloseParen"
  | openBracket => "OpenBracket"
  | closeBracket => "CloseBracket"
  | openCurly => "OpenCurly"
  | closeCurly => "CloseCurly"
  | plus => "Plus"
  | dash => "Dash"
  | star => "Star"
  | slash => "Slash"
  | assignment => "Assignment"
  | equals => "Equals"
  | notEquals => "NotEquals"
  | less => "Less"
  | lessEquals => "LessEquals"
  | greater => "Greater"
  | greaterEquals => "GreaterEquals"
  | colon => "Colon"
  | comma => "Comma"
  | semicolon => "Semicolon"
  | letWord => "Let"
  | constWord => "Const"
  | fnWord => "Fn"
  | returnWord => "Return"
  | ifWord => "If"
  | elseWord => "Else"
  | trueWord => "True"
  | falseWord => "False"
  | printWord => "Print"

/-- The text of a kind that has only one: a keyword or a sign. -/
def text? : TokenKind → Option String
  | openParen => some "("
  | closeParen => some ")"
  | openBracket => some "["
  | closeBracket => some "]"
  | openCurly => some "\x7b"
  | closeCurly => some "\x7d"
  | plus => some "+"
  | dash => some "-"
  | star => some "*"
  | slash => some "/"
  | assignment => some "="
  | equals => some "=="
  | notEquals => some "!="
  | less => some "<"
  | lessEquals => some "<="
  | greater => some ">"
  | greaterEquals => some ">="
  | colon => some ":"
  | comma => some ","
  | semicolon => some ";"
  | letWord => some "let"
  | constWord => some "const"
  | fnWord => some "fn"
  | returnWord => some "return"
  | ifWord => some "if"
  | elseWord => some "else"
  | trueWord => some "true"
  | falseWord => some "false"
  | printWord => some "print"
  | endOfText | number | text | character | identifier => none

/-- All kinds. -/
def all : List TokenKind :=
  [endOfText, number, text, character, identifier, openParen, closeParen, openBracket,
    closeBracket, openCurly, closeCurly, plus, dash, star, slash, assignment, equals,
    notEquals, less, lessEquals, greater, greaterEquals, colon, comma, semicolon, letWord,
    constWord, fnWord, returnWord, ifWord, elseWord, trueWord, falseWord, printWord]

/-- The kind with a given name. -/
def ofName? (s : String) : Option TokenKind := all.find? fun k => k.name == s

/-- The list of all kinds lacks none. -/
theorem mem_all (k : TokenKind) : k ∈ all := by cases k <;> decide

end TokenKind

/-! ## 2. Keywords -/

/-- The keywords. Every other word is an identifier. -/
def keywords : List TokenKind :=
  [.letWord, .constWord, .fnWord, .returnWord, .ifWord, .elseWord, .trueWord, .falseWord,
    .printWord]

/-- The keyword that a word is. -/
def reserved? (word : String) : Option TokenKind :=
  keywords.find? fun k => k.text? == some word

/-- A reserved word is the text of its keyword. -/
theorem text?_of_reserved? {word : String} {k : TokenKind} (h : reserved? word = some k) :
    k.text? = some word := by
  simpa using List.find?_some h

/-! ## 3. Tokens -/

/-- A word of the source. The value of a text or a character has its escapes resolved. -/
structure Token where
  kind : TokenKind
  value : String
  span : Span
  deriving DecidableEq

/-- The token that ends a list of tokens: an empty stretch at `p`. -/
def Token.finish (p : Position) : Token := ⟨.endOfText, "EOF", ⟨p, p⟩⟩

/-- A token of the kind and the text alone, at no place of its own. -/
def Token.blank (kind : TokenKind) (value : String) : Token := ⟨kind, value, .blank⟩

/-- A token as a message names it. -/
def Token.describe (t : Token) : String :=
  t.kind.name ++ " '" ++ t.value ++ "' at line " ++ toString t.span.line

end Stackling
