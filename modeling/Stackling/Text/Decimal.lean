/-
  File:     Stackling/Text/Decimal.lean
  Subject:  Numbers as decimal digits.

  * `decimal`      -- the digits of a 64-bit integer, with a minus if it is negative;
  * `readDecimal?` -- the reverse; it also takes a plus and leading zeros, and refuses a
                      number that needs more than 64 bits;
  * `padLeft`      -- a text put at the right end of a field.
-/
namespace Stackling.Text

/-- A 64-bit integer in decimal. -/
def decimal (n : Int64) : String := toString n.toInt

/-- The value of an ASCII digit. -/
def digit? (c : Char) : Option Nat :=
  if '0' ≤ c ∧ c ≤ '9' then some (c.toNat - '0'.toNat) else none

/-- The number that `digits` continues, if all of them are digits. -/
def readDigits? (value : Nat) : List Char → Option Nat
  | [] => some value
  | c :: rest => (digit? c).bind fun d => readDigits? (10 * value + d) rest

/-- A number of one digit or more. -/
def readNat? : List Char → Option Nat
  | [] => none
  | c :: rest => readDigits? 0 (c :: rest)

/-- An integer, with or without a sign, that 64 bits can hold. -/
def readDecimal? (cs : List Char) : Option Int64 :=
  let number : Option Int := match cs with
    | '-' :: rest => (readNat? rest).map fun n => -(n : Int)
    | '+' :: rest => (readNat? rest).map fun n => (n : Int)
    | _ => (readNat? cs).map fun n => (n : Int)
  number.bind fun n =>
    if Int64.minValue.toInt ≤ n ∧ n ≤ Int64.maxValue.toInt then some (Int64.ofInt n) else none

/-- The text at the right end of a field of `width` characters; a longer text is not cut. -/
def padLeft (fill : Char) (width : Nat) (text : String) : String :=
  String.ofList (List.replicate (width - text.length) fill) ++ text

end Stackling.Text
