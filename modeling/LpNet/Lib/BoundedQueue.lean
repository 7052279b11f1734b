import Mathlib.Data.List.Basic

/-!
Bounded queues, as an abstract data type.

`BoundedQueue α capacity` is a list that carries the proof that it is no longer
than the capacity. `enqueue` takes as much of a list as there is room for,
`dequeue` drops from the front. The laws say how many items move and where they
are afterwards.
-/

namespace LpNet

universe u

/-- A queue of at most `capacity` items, the oldest first. -/
@[ext] structure BoundedQueue (α : Type u) (capacity : ℕ) where
  items : List α
  bounded : items.length ≤ capacity

namespace BoundedQueue

variable {α : Type u} {capacity : ℕ}

def empty (α : Type u) (capacity : ℕ) : BoundedQueue α capacity where
  items := []
  bounded := Nat.zero_le _

def room (q : BoundedQueue α capacity) : ℕ := capacity - q.items.length

/-- Append the first items of the list, as many as fit. -/
def enqueue (q : BoundedQueue α capacity) (xs : List α) : BoundedQueue α capacity where
  items := q.items ++ xs.take q.room
  bounded := by
    have := q.bounded
    simp only [List.length_append, List.length_take, room]
    omega

def dequeue (q : BoundedQueue α capacity) (n : ℕ) : BoundedQueue α capacity where
  items := q.items.drop n
  bounded := by
    have := q.bounded
    simp only [List.length_drop]
    omega

@[simp] theorem empty_items : (empty α capacity).items = [] := rfl

@[simp] theorem enqueue_items (q : BoundedQueue α capacity) (xs : List α) :
    (q.enqueue xs).items = q.items ++ xs.take q.room := rfl

@[simp] theorem dequeue_items (q : BoundedQueue α capacity) (n : ℕ) :
    (q.dequeue n).items = q.items.drop n := rfl

end BoundedQueue

end LpNet
