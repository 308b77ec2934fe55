/-
  File:     Stackling/Machine/Pile.lean
  Subject:  Lists that know their length.

  A pile is a list, the top first, together with its length, so that the height of a stack is
  at hand at every call. Two piles of the same items are the same pile.

  * `push`, `pop?`, `popMany?` -- one item on top, and items off the top;
  * `cutTo`                   -- the lowest items alone.
-/
namespace Stackling

/-- A list, the top first, with its length. -/
structure Pile (α : Type) where
  items : List α
  size : Nat
  size_eq : size = items.length

namespace Pile

variable {α : Type}

/-- No items. -/
def empty : Pile α := ⟨[], 0, rfl⟩

/-- **The items make the pile.** -/
theorem eq_of_items {s t : Pile α} (h : s.items = t.items) : s = t := by
  obtain ⟨xs, n, hn⟩ := s
  obtain ⟨ys, m, hm⟩ := t
  simp only at h
  subst h hn hm
  rfl

/-- The pile of the given items, the top first. -/
def ofList (items : List α) : Pile α := ⟨items, items.length, rfl⟩

def top? (s : Pile α) : Option α := s.items.head?

def push (s : Pile α) (a : α) : Pile α := ⟨a :: s.items, s.size + 1, by simp [s.size_eq]⟩

/-- The item on top and the others. -/
def pop? (s : Pile α) : Option (α × Pile α) :=
  match s with
  | ⟨[], _, _⟩ => none
  | ⟨a :: rest, n, h⟩ => some (a, ⟨rest, n - 1, by simp at h; omega⟩)

/-- The `n` items on top, the lowest of them first, and the others. -/
def popMany? (s : Pile α) (n : Nat) : Option (List α × Pile α) :=
  if s.size < n then none
  else some ((s.items.take n).reverse,
    ⟨s.items.drop n, s.size - n, by simp [s.size_eq]⟩)

/-- The lowest `n` items; all of them if there are not so many. -/
def cutTo (s : Pile α) (n : Nat) : Pile α :=
  ⟨s.items.drop (s.size - n), s.size - (s.size - n), by simp [s.size_eq]⟩

/-- The item on top changed. -/
def mapTop (s : Pile α) (f : α → α) : Pile α :=
  match s with
  | ⟨[], n, h⟩ => ⟨[], n, h⟩
  | ⟨a :: rest, n, h⟩ => ⟨f a :: rest, n, by simpa using h⟩

@[simp] theorem items_empty : (empty : Pile α).items = [] := rfl

@[simp] theorem items_ofList (xs : List α) : (ofList xs).items = xs := rfl

@[simp] theorem items_push (s : Pile α) (a : α) : (s.push a).items = a :: s.items := rfl

@[simp] theorem pop?_push (s : Pile α) (a : α) : (s.push a).pop? = some (a, s) := rfl

/-- A pile that has no item on top is empty. -/
theorem pop?_eq_none_iff (s : Pile α) : s.pop? = none ↔ s.items = [] := by
  obtain ⟨xs, n, h⟩ := s
  cases xs <;> simp [pop?]

end Pile

end Stackling
