import Stackling.Syntax.Error
import Stackling.Syntax.Grammar

/-
  File:     Stackling/Syntax/Stream.lean
  Subject:  Reading tokens one by one.

  A `Stream` stands on one token of a list that the end token closes. It moves forward only,
  and it stays on the last token. With it go the grammar in use and the number that the next
  expression gets. `Parse` is the monad of readers over a stream; the stream is kept when a
  reader fails, so one can read on from there.

  * `Stream.ofTokens`             -- the stream at the start of a list of tokens;
  * `advance`, `eat`, `expect`, `expectOr` -- the ways to consume a token;
  * `freshId`                     -- the number for an expression.
-/
namespace Stackling

/-! ## 1. Streams -/

/-- A token of a list, those after it, and the one before it. -/
structure Stream where
  grammar : Grammar
  previous? : Option Token
  current : Token
  following : List Token
  nextId : Nat

namespace Stream

/-- The tokens, with the end token put after them unless it is there already. -/
def closed (tokens : List Token) : List Token :=
  match tokens.getLast? with
  | some t => if t.kind = .endOfText then tokens else tokens ++ [Token.finish t.span.stop]
  | none => [Token.finish .origin]

/-- **A closed list ends with an end token.** -/
theorem kind_getLast?_closed (tokens : List Token) :
    (closed tokens).getLast?.map Token.kind = some .endOfText := by
  unfold closed
  split
  · split
    · rename_i t h hk
      simp [h, hk]
    · simp [Token.finish]
  · rfl

/-- Tokens that end with an end token are closed already. -/
theorem closed_eq_self {tokens : List Token}
    (h : tokens.getLast?.map Token.kind = some .endOfText) : closed tokens = tokens := by
  obtain ⟨t, hlast, hk⟩ := Option.map_eq_some_iff.mp h
  rw [closed, hlast]
  exact if_pos hk

/-- The stream at the start of a list of tokens. -/
def ofTokens (grammar : Grammar) (tokens : List Token) : Stream :=
  match closed tokens with
  | [] => ⟨grammar, none, Token.finish .origin, [], 0⟩
  | t :: ts => ⟨grammar, none, t, ts, 0⟩

/-- The stream one token on; on the last token it stays. -/
def next (s : Stream) : Stream :=
  match s.following with
  | [] => s
  | t :: ts => { s with previous? := some s.current, current := t, following := ts }

/-- The token after the current one, or the last one. -/
def peek (s : Stream) : Token := s.following.headD s.current

def kind (s : Stream) : TokenKind := s.current.kind

/-- Where the current token starts. -/
def place (s : Stream) : Position := s.current.span.start

/-- Where the token before the current one ends. -/
def previousEnd (s : Stream) : Position :=
  match s.previous? with
  | some t => t.span.stop
  | none => s.place

/-- Whether the text has not ended. -/
def hasTokens (s : Stream) : Bool := s.kind != .endOfText

/-- The tokens left, the current one counted. -/
def size (s : Stream) : Nat := s.following.length + 1

/-- **Moving on uses up a token,** except on the last one. -/
theorem size_next (s : Stream) (h : s.following ≠ []) : s.next.size + 1 = s.size := by
  unfold next
  split
  · contradiction
  · rename_i h'
    simp [size, h']

end Stream

/-! ## 2. Readers -/

/-- A reader of tokens. It may fail, and leaves a stream either way. -/
abbrev Parse := EStateM SyntaxError Stream

namespace Parse

/-- Fails at a place. -/
def failAt {α : Type} (cause : SyntaxCause) (place : Position) : Parse α := throw ⟨cause, place⟩

/-- Fails at the current token. -/
def failHere {α : Type} (cause : SyntaxCause) : Parse α := do failAt cause (← get).place

/-- Fails because nothing may start with the current token. -/
def unexpected {α : Type} : Parse α := do failHere (.unexpected (← get).current.value)

/-- Fails because something else should stand here. -/
def unexpectedBecause {α : Type} (detail : String) : Parse α := do
  failHere (.unexpectedBecause (← get).current.value detail)

/-- Consumes the current token. -/
def advance : Parse Token := do
  let s ← get
  set s.next
  return s.current

/-- Consumes the current token if it is of the kind, and says whether it was. -/
def eat (kind : TokenKind) : Parse Bool := do
  if (← get).kind = kind then
    discard advance
    return true
  return false

/-- Consumes a token of the kind, or else does what `otherwise` does. -/
def expectOr (kind : TokenKind) (otherwise : Parse Token) : Parse Token := do
  if (← get).kind = kind then advance else otherwise

/-- Consumes a token of the kind; any other is a failure that names the kind. -/
def expect (kind : TokenKind) : Parse Token :=
  expectOr kind (unexpectedBecause ("expected " ++ kind.name))

/-- The number for an expression. -/
def freshId : Parse Nat := do
  let s ← get
  set { s with nextId := s.nextId + 1 }
  return s.nextId

/-- The stretch from `start` to the end of the last token consumed. -/
def spanFrom (start : Position) : Parse Span := do return ⟨start, (← get).previousEnd⟩

end Parse

end Stackling
