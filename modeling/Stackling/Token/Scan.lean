import Stackling.Token.Escape
import Stackling.Text.Blank
import Stackling.Syntax.Error

/-
  File:     Stackling/Token/Scan.lean
  Subject:  The first word of a text.

  `scan` looks at the start of a text and says what stands there: a token, something to skip
  (white space or a comment), or a fault. A token or a skipped run is given with the
  characters it takes and the text after it.

  * a word is a letter or an underscore with letters, digits and underscores after it;
  * a number is a run of digits;
  * a text or a character literal ends at the next quote of its kind that no backslash
    stands before; a backslash does not reach over a newline;
  * a comment runs from two slashes to the end of the line, or from a slash and a star to the
    nearest star and slash;
  * of two signs that fit, the longer one is taken.

  All letters and digits of words and numbers are ASCII. `covers_scan` says that a scan takes
  a character or more and loses none.
-/
namespace Stackling

open Text

/-! ## 1. Characters -/

/-- The characters a word may start with. -/
def isWordStart (c : Char) : Bool :=
  ('a' ≤ c && c ≤ 'z') || ('A' ≤ c && c ≤ 'Z') || c == '_'

/-- The decimal digits. -/
def isDigit (c : Char) : Bool := '0' ≤ c && c ≤ '9'

/-- The characters a word may go on with. -/
def isWordPart (c : Char) : Bool := isWordStart c || isDigit c

/-! ## 2. Literals and comments -/

/-- What stands before the closing quote, given the text after the opening one, and what
    follows it. `none` if the literal does not end. -/
def quotedBody? (quote : Char) : List Char → Option (List Char × List Char)
  | [] => none
  | '\\' :: c :: rest =>
    if c = '\n' then none
    else (quotedBody? quote rest).map fun (body, after) => ('\\' :: c :: body, after)
  | c :: rest =>
    if c = quote then some ([], rest)
    else if c = '\\' then none
    else (quotedBody? quote rest).map fun (body, after) => (c :: body, after)

/-- **A literal is cut at a quote and loses nothing.** -/
theorem quotedBody?_eq {quote : Char} {cs body rest : List Char}
    (h : quotedBody? quote cs = some (body, rest)) : body ++ quote :: rest = cs := by
  fun_induction quotedBody? quote cs generalizing body with
  | case1 => simp at h
  | case2 => simp at h
  | case3 c cs _ ih =>
    obtain ⟨⟨b, r⟩, hb, e⟩ := Option.map_eq_some_iff.1 h
    simp only [Prod.mk.injEq] at e
    obtain ⟨rfl, rfl⟩ := e
    simp [ih hb]
  | case4 c cs =>
    simp only [Option.some.injEq, Prod.mk.injEq] at h
    obtain ⟨rfl, rfl⟩ := h
    rfl
  | case5 => simp at h
  | case6 c cs _ _ _ ih =>
    obtain ⟨⟨b, r⟩, hb, e⟩ := Option.map_eq_some_iff.1 h
    simp only [Prod.mk.injEq] at e
    obtain ⟨rfl, rfl⟩ := e
    simp [ih hb]

/-- What stands before the nearest star and slash, and what follows them. -/
def commentBody? : List Char → Option (List Char × List Char)
  | [] => none
  | '*' :: '/' :: rest => some ([], rest)
  | c :: rest => (commentBody? rest).map fun (body, after) => (c :: body, after)

/-- **A comment is cut at a star and a slash and loses nothing.** -/
theorem commentBody?_eq {cs body rest : List Char}
    (h : commentBody? cs = some (body, rest)) : body ++ '*' :: '/' :: rest = cs := by
  fun_induction commentBody? cs generalizing body with
  | case1 => simp at h
  | case2 =>
    simp only [Option.some.injEq, Prod.mk.injEq] at h
    obtain ⟨rfl, rfl⟩ := h
    rfl
  | case3 c cs _ ih =>
    obtain ⟨⟨b, r⟩, hb, e⟩ := Option.map_eq_some_iff.1 h
    simp only [Prod.mk.injEq] at e
    obtain ⟨rfl, rfl⟩ := e
    simp [ih hb]

/-! ## 3. Signs -/

/-- The sign a text starts with, the characters of it, and the rest. -/
def sign? : List Char → Option (TokenKind × List Char × List Char)
  | '[' :: rest => some (.openBracket, ['['], rest)
  | ']' :: rest => some (.closeBracket, [']'], rest)
  | '\x7b' :: rest => some (.openCurly, ['\x7b'], rest)
  | '\x7d' :: rest => some (.closeCurly, ['\x7d'], rest)
  | '(' :: rest => some (.openParen, ['('], rest)
  | ')' :: rest => some (.closeParen, [')'], rest)
  | '=' :: '=' :: rest => some (.equals, ['=', '='], rest)
  | '!' :: '=' :: rest => some (.notEquals, ['!', '='], rest)
  | '=' :: rest => some (.assignment, ['='], rest)
  | '<' :: '=' :: rest => some (.lessEquals, ['<', '='], rest)
  | '<' :: rest => some (.less, ['<'], rest)
  | '>' :: '=' :: rest => some (.greaterEquals, ['>', '='], rest)
  | '>' :: rest => some (.greater, ['>'], rest)
  | ';' :: rest => some (.semicolon, [';'], rest)
  | ':' :: rest => some (.colon, [':'], rest)
  | ',' :: rest => some (.comma, [','], rest)
  | '+' :: rest => some (.plus, ['+'], rest)
  | '-' :: rest => some (.dash, ['-'], rest)
  | '/' :: rest => some (.slash, ['/'], rest)
  | '*' :: rest => some (.star, ['*'], rest)
  | _ => none

/-- **A sign and the rest are the text, and the sign is the text of its kind.** -/
theorem sign?_eq {cs lexeme rest : List Char} {k : TokenKind}
    (h : sign? cs = some (k, lexeme, rest)) :
    lexeme ++ rest = cs ∧ k.text? = some (String.ofList lexeme) := by
  unfold sign? at h
  split at h <;> simp at h <;> obtain ⟨rfl, rfl, rfl⟩ := h <;> exact ⟨rfl, rfl⟩

/-! ## 4. The first word -/

/-- What stands at the start of a text. -/
inductive Scan
  | token (kind : TokenKind) (value : String) (lexeme rest : List Char)
  | skip (lexeme rest : List Char)
  | fault (cause : SyntaxCause)

/-- The word that a text starts with. -/
def scanWord (cs : List Char) : Scan :=
  let lexeme := cs.takeWhile isWordPart
  let word := String.ofList lexeme
  .token ((reserved? word).getD .identifier) word lexeme (cs.dropWhile isWordPart)

/-- The number that a text starts with. -/
def scanNumber (cs : List Char) : Scan :=
  let lexeme := cs.takeWhile isDigit
  .token .number (String.ofList lexeme) lexeme (cs.dropWhile isDigit)

/-- The white space that a text starts with. -/
def scanBlank (cs : List Char) : Scan :=
  .skip (cs.takeWhile isBlank) (cs.dropWhile isBlank)

/-- The sign that a text starts with, or a fault at its first character. -/
def scanSign (c : Char) (cs : List Char) : Scan :=
  match sign? (c :: cs) with
  | some (kind, lexeme, rest) => .token kind (String.ofList lexeme) lexeme rest
  | none => .fault (.unrecognised (String.singleton c))

/-- The text literal that starts with a double quote before `cs`. -/
def scanText (cs : List Char) : Scan :=
  match quotedBody? '\x22' cs with
  | some (body, rest) =>
    .token .text (String.ofList (unescape body)) ('\x22' :: body ++ ['\x22']) rest
  | none => .fault (.unrecognised "\x22")

/-- The character literal that starts with a single quote before `cs`. -/
def scanCharacter (cs : List Char) : Scan :=
  match quotedBody? '\x27' cs with
  | some (body, rest) =>
    let lexeme := '\x27' :: body ++ ['\x27']
    match unescape body with
    | [c] => .token .character (String.singleton c) lexeme rest
    | _ => .fault (.badCharacter (String.ofList lexeme))
  | none => .fault (.unrecognised "\x27")

/-- The comment or the slash that starts with a slash before `cs`. -/
def scanSlash (cs : List Char) : Scan :=
  match cs with
  | '/' :: after =>
    .skip ('/' :: '/' :: after.takeWhile (· != '\n')) (after.dropWhile (· != '\n'))
  | '*' :: after =>
    match commentBody? after with
    | some (body, rest) => .skip ('/' :: '*' :: body ++ ['*', '/']) rest
    | none => .token .slash "/" ['/'] cs
  | _ => .token .slash "/" ['/'] cs

/-- What stands at the start of the text `c :: cs`. -/
def scan (c : Char) (cs : List Char) : Scan :=
  if isWordStart c then scanWord (c :: cs)
  else if isDigit c then scanNumber (c :: cs)
  else if isBlank c then scanBlank (c :: cs)
  else if c = '\x22' then scanText cs
  else if c = '\x27' then scanCharacter cs
  else if c = '/' then scanSlash cs
  else scanSign c cs

/-! ## 5. Words cover the text -/

/-- What a scan took, with what it left, is the text, and it took something. -/
def Scan.Covers (cs : List Char) : Scan → Prop
  | .token _ _ lexeme rest | .skip lexeme rest => lexeme ++ rest = cs ∧ lexeme ≠ []
  | .fault _ => True

/-- **No word is empty, and no character is lost.** -/
theorem covers_scan (c : Char) (cs : List Char) : (scan c cs).Covers (c :: cs) := by
  unfold scan
  split
  · rename_i hc
    simp [scanWord, Scan.Covers, isWordPart, hc]
  split
  · rename_i hc
    simp [scanNumber, Scan.Covers, hc]
  split
  · rename_i hc
    simp [scanBlank, Scan.Covers, hc]
  split
  · rename_i hc
    subst hc
    unfold scanText
    split
    · rename_i body rest h
      simp [Scan.Covers, ← quotedBody?_eq h]
    · trivial
  split
  · rename_i hc
    subst hc
    unfold scanCharacter
    split
    · rename_i body rest h
      dsimp only
      split
      · simp [Scan.Covers, ← quotedBody?_eq h]
      · trivial
    · trivial
  split
  · rename_i hc
    subst hc
    unfold scanSlash
    split
    · simp [Scan.Covers]
    · split
      · rename_i h
        simp [Scan.Covers, ← commentBody?_eq h]
      · simp [Scan.Covers]
    · simp [Scan.Covers]
  · unfold scanSign
    split
    · rename_i kind lexeme rest h
      obtain ⟨e, k⟩ := sign?_eq h
      refine ⟨e, ?_⟩
      rintro rfl
      cases kind <;> simp [TokenKind.text?] at k
    · trivial

end Stackling
