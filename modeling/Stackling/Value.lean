import Stackling.Builtin

/-
  File:     Stackling/Value.lean
  Subject:  Values at run time.

  Truth values are the integers 0 and 1; only the static type of a printed value tells them
  apart. The entries of a hash stand in the order in which their keys were first inserted.

  * `Value`, `HashKey`, `Callable`;
  * `insertEntry`, `valueAt?` -- the entries of a hash;
  * `Value.equal`               -- equality that does not see the order of entries.
-/
namespace Stackling

/-! ## 1. Values -/

/-- The key of an entry. -/
inductive HashKey
  | int (value : Int64)
  | text (value : String)
  deriving DecidableEq

/-- Something that can be called: a unit of the program, or a built-in. -/
inductive Callable
  | unit (id : Nat) (name : String)
  | builtin (b : Builtin)
  deriving DecidableEq

/-- A value. `void` stands where none has been stored yet. -/
inductive Value
  | int (value : Int64)
  | char (value : Char)
  | text (value : String)
  | array (items : List Value)
  | hash (entries : List (HashKey × Value))
  | callable (target : Callable)
  | void
  deriving Inhabited

namespace Value

/-- A truth value. -/
def ofBool (b : Bool) : Value := .int (if b then 1 else 0)

/-- The sort of a value, for messages. -/
def kind : Value → String
  | int _ => "int"
  | char _ => "char"
  | text _ => "string"
  | array _ => "array"
  | hash _ => "hash"
  | callable _ => "function"
  | void => "void"

/-- The key that a value is, if it may be one. -/
def key? : Value → Option HashKey
  | int n => some (.int n)
  | text s => some (.text s)
  | _ => none

end Value

/-- A key as a value. -/
def HashKey.value : HashKey → Value
  | .int n => .int n
  | .text s => .text s

/-- A key is the key of its value. -/
@[simp] theorem HashKey.key?_value (k : HashKey) : k.value.key? = some k := by cases k <;> rfl

/-! ## 2. Entries -/

/-- The value under a key. -/
def valueAt? (key : HashKey) : List (HashKey × Value) → Option Value
  | [] => none
  | (k, v) :: rest => if k = key then some v else valueAt? key rest

/-- The entries with `value` under `key`: in the place of the key if it is there, else last. -/
def insertEntry (key : HashKey) (value : Value) :
    List (HashKey × Value) → List (HashKey × Value)
  | [] => [(key, value)]
  | (k, v) :: rest =>
    if k = key then (k, value) :: rest else (k, v) :: insertEntry key value rest

/-- **An inserted value is found.** -/
@[simp] theorem valueAt?_insertEntry (key : HashKey) (value : Value)
    (entries : List (HashKey × Value)) :
    valueAt? key (insertEntry key value entries) = some value := by
  induction entries with
  | nil => simp [insertEntry, valueAt?]
  | cons e rest ih =>
    unfold insertEntry
    split <;> simp_all [valueAt?]

/-- **No other key is touched.** -/
theorem valueAt?_insertEntry_of_ne {key other : HashKey} (h : key ≠ other) (value : Value)
    (entries : List (HashKey × Value)) :
    valueAt? other (insertEntry key value entries) = valueAt? other entries := by
  induction entries with
  | nil => simp [insertEntry, valueAt?, h]
  | cons e rest ih =>
    unfold insertEntry
    split
    · rename_i he
      have : e.1 ≠ other := by rw [he]; exact h
      simp [valueAt?, he, h]
    · simp [valueAt?, ih]

/-! ## 3. Equality -/

mutual
/-- Whether two values are equal. Two hashes are if they have equally many entries and every
    key of the one has an equal value in the other. -/
def Value.equal : Value → Value → Bool
  | .int a, .int b => a == b
  | .char a, .char b => a == b
  | .text a, .text b => a == b
  | .array xs, .array ys => equalAll xs ys
  | .hash es, .hash fs => es.length == fs.length && matched es fs
  | .callable a, .callable b => a == b
  | .void, .void => true
  | _, _ => false

/-- Whether two lists are equally long and equal place by place. -/
def equalAll : List Value → List Value → Bool
  | [], [] => true
  | x :: xs, y :: ys => x.equal y && equalAll xs ys
  | _, _ => false

/-- Whether every entry has its key and an equal value in `others`. -/
def matched : List (HashKey × Value) → List (HashKey × Value) → Bool
  | [], _ => true
  | (k, v) :: rest, others =>
    (match valueAt? k others with
      | some w => v.equal w
      | none => false) && matched rest others
end

end Stackling
