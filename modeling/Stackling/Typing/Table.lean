import Stackling.Ty

/-
  File:     Stackling/Typing/Table.lean
  Subject:  The types of expressions, filed under their numbers.

  The analyser files the type of every expression it looks at, and code is generated from
  what was filed. A later entry stands before an earlier one with the same number.
-/
namespace Stackling

/-- Types under the numbers of expressions, the latest entry first. -/
structure TypeTable where
  entries : List (Nat × Ty)

namespace TypeTable

def empty : TypeTable := ⟨[]⟩

def isEmpty (t : TypeTable) : Bool := t.entries.isEmpty

/-- The table with a type filed under a number. -/
def file (t : TypeTable) (id : Nat) (ty : Ty) : TypeTable := ⟨(id, ty) :: t.entries⟩

/-- The type under a number. -/
def find? (t : TypeTable) (id : Nat) : Option Ty := t.entries.lookup id

@[simp] theorem find?_empty (id : Nat) : empty.find? id = none := rfl

/-- **The latest entry is found, and no other number is touched.** -/
theorem find?_file (t : TypeTable) (id other : Nat) (ty : Ty) :
    (t.file id ty).find? other = if other = id then some ty else t.find? other := by
  unfold find? file
  rw [List.lookup_cons]
  by_cases h : other = id
  · simp [h]
  · have : (other == id) = false := by simpa using h
    simp [this, h]

/-- One row for each number, in the order of the numbers. -/
def rows (t : TypeTable) : List (Nat × Ty) :=
  let ids := ((t.entries.map (·.1)).eraseDups).mergeSort (· ≤ ·)
  ids.filterMap fun id => (t.find? id).map fun ty => (id, ty)

end TypeTable

end Stackling
