/-!
# Queues

A queue is a front in order and a back in reverse order, so that adding at one
end and removing at the other take constant time on average. What a queue holds
is its list from the oldest item to the newest, and each operation is stated on
that list.
-/

namespace Chip8.Debug

/-- Items in the order of their arrival. -/
structure Queue (α : Type) where
  /-- The oldest items, oldest first. -/
  front : List α
  /-- The newest items, newest first. -/
  back : List α
  /-- The number of items. -/
  size : Nat
  /-- The number of items is kept and not counted. -/
  size_eq : size = front.length + back.length
  deriving DecidableEq, Repr

namespace Queue

variable {α : Type}

/-- The queue that holds nothing. -/
def empty : Queue α := ⟨[], [], 0, rfl⟩

/-- The items, oldest first. -/
def toList (q : Queue α) : List α := q.front ++ q.back.reverse

/-- A queue of items, oldest first. -/
def ofList (items : List α) : Queue α := ⟨items, [], items.length, rfl⟩

/-- Add the newest item. -/
def push (q : Queue α) (item : α) : Queue α :=
  ⟨q.front, item :: q.back, q.size + 1, by
    have hs := q.size_eq
    simp only [List.length_cons]
    omega⟩

/-- Remove the oldest item, if there is one. -/
def pop : Queue α → Queue α
  | ⟨_ :: front, back, size, hs⟩ => ⟨front, back, size - 1, by
      rw [List.length_cons] at hs
      omega⟩
  | ⟨[], back, _, _⟩ => ofList back.reverse.tail

/-- The size is the number of items. -/
@[simp]
theorem length_toList (q : Queue α) : q.toList.length = q.size := by
  rw [toList, List.length_append, List.length_reverse, q.size_eq]

/-- A queue of items holds them. -/
@[simp]
theorem toList_ofList (items : List α) : (ofList items).toList = items := by
  rw [toList, ofList, List.reverse_nil, List.append_nil]

/-- The newest item is the last one. -/
@[simp]
theorem toList_push (q : Queue α) (item : α) : (q.push item).toList = q.toList ++ [item] := by
  rw [toList, toList, push, List.reverse_cons, List.append_assoc]

/-- The oldest item is the first one. -/
@[simp]
theorem toList_pop (q : Queue α) : q.pop.toList = q.toList.tail := by
  rcases q with ⟨front, back, size, hs⟩
  cases front with
  | nil => rw [pop, toList_ofList, toList, List.nil_append]
  | cons head front => rw [pop, toList, toList, List.cons_append, List.tail_cons]

end Queue

end Chip8.Debug
