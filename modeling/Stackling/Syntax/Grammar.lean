import Stackling.Syntax.Tree

/-
  File:     Stackling/Syntax/Grammar.lean
  Subject:  Which construct a token starts or continues.

  * `Power`    -- how tightly an operator binds, weakest first;
  * `Grammar`  -- for each kind of token, the rule it has at the start of a statement, at the
                  start of an expression, after an expression, and at the start of a type;
  * `standard` -- the grammar of the language;
  * `empty`    -- the grammar without any rule.

  All operators associate to the left.
-/
namespace Stackling

/-! ## 1. Binding powers -/

/-- How tightly an operator binds, weakest first. -/
inductive Power
  | default | relational | additive | multiplicative | call | primary
  deriving DecidableEq

namespace Power

/-- The place of a power in the order. -/
def rank : Power → Nat
  | default => 0
  | relational => 1
  | additive => 2
  | multiplicative => 3
  | call => 4
  | primary => 5

def name : Power → String
  | default => "Default"
  | relational => "Relational"
  | additive => "Additive"
  | multiplicative => "Multiplicative"
  | call => "Call"
  | primary => "Primary"

/-- All powers. -/
def all : List Power := [default, relational, additive, multiplicative, call, primary]

/-- The power with a given name. -/
def ofName? (s : String) : Option Power := all.find? fun p => p.name == s

/-- Different powers have different ranks. -/
theorem rank_inj {p q : Power} : p.rank = q.rank ↔ p = q := by
  cases p <;> cases q <;> simp [rank]

end Power

/-- The power of an operator. -/
def BinaryOp.power : BinaryOp → Power
  | .equal | .notEqual | .less | .lessEqual | .greater | .greaterEqual => .relational
  | .add | .sub => .additive
  | .mul | .div => .multiplicative

/-! ## 2. Rules -/

/-- The constructs that start with a token of their own at statement level. -/
inductive StmtRule
  | block | declaration | branch | returns | print
  deriving DecidableEq

/-- The constructs an expression starts with. -/
inductive HeadRule
  | primary | group | array | hash | function
  deriving DecidableEq

/-- The constructs that continue an expression. -/
inductive TailRule
  | binary (op : BinaryOp) | call | index
  deriving DecidableEq

/-- The constructs a type starts with. -/
inductive TypeRule
  | named | function
  deriving DecidableEq

/-- The power with which a construct continues an expression. -/
def TailRule.power : TailRule → Power
  | binary op => op.power
  | call | index => .call

/-- For each kind of token, the rules it has. -/
structure Grammar where
  stmt? : TokenKind → Option StmtRule
  head? : TokenKind → Option HeadRule
  tail? : TokenKind → Option TailRule
  type? : TokenKind → Option TypeRule

namespace Grammar

/-- The power of a token after an expression; the weakest one if it has no rule there. -/
def power (g : Grammar) (k : TokenKind) : Power :=
  match g.tail? k with
  | some rule => rule.power
  | none => .default

/-- The rule of a token at the start of a statement. -/
def standardStmt? : TokenKind → Option StmtRule
  | .openCurly => some .block
  | .letWord | .constWord => some .declaration
  | .ifWord => some .branch
  | .returnWord => some .returns
  | .printWord => some .print
  | _ => none

/-- The rule of a token at the start of an expression. -/
def standardHead? : TokenKind → Option HeadRule
  | .number | .text | .character | .trueWord | .falseWord | .identifier => some .primary
  | .openParen => some .group
  | .openBracket => some .array
  | .openCurly => some .hash
  | .fnWord => some .function
  | _ => none

/-- The rule of a token after an expression. -/
def standardTail? : TokenKind → Option TailRule
  | .equals => some (.binary .equal)
  | .notEquals => some (.binary .notEqual)
  | .less => some (.binary .less)
  | .lessEquals => some (.binary .lessEqual)
  | .greater => some (.binary .greater)
  | .greaterEquals => some (.binary .greaterEqual)
  | .plus => some (.binary .add)
  | .dash => some (.binary .sub)
  | .star => some (.binary .mul)
  | .slash => some (.binary .div)
  | .openParen => some .call
  | .openBracket => some .index
  | _ => none

/-- The rule of a token at the start of a type. -/
def standardType? : TokenKind → Option TypeRule
  | .identifier => some .named
  | .fnWord => some .function
  | _ => none

/-- The grammar of the language. A curly bracket starts a block where a statement may start,
    and a hash everywhere else. -/
def standard : Grammar := ⟨standardStmt?, standardHead?, standardTail?, standardType?⟩

/-- The grammar without any rule. -/
def empty : Grammar := ⟨fun _ => none, fun _ => none, fun _ => none, fun _ => none⟩

/-- An operator is written as the token whose rule it is. -/
theorem standard_tail?_kind (op : BinaryOp) : standard.tail? op.kind = some (.binary op) := by
  cases op <;> rfl

/-- A token continues an expression exactly if its power is above the weakest one. -/
theorem power_standard (k : TokenKind) :
    standard.power k = .default ↔ standard.tail? k = none := by
  cases k <;> simp [power, standard, standardTail?, TailRule.power, BinaryOp.power]

end Grammar

end Stackling
