/-
A bounded first-in first-out queue.

The queue holds at most `capacity` items, and its capacity is not zero; both are
fields, so a queue that holds too much cannot be built.  `trySend` puts an item at the
end if there is room and `tryRecv` takes the first one if there is one; the two tests
`hasRoom` and `hasItem` say beforehand which of them succeed.
-/
import Mathlib.Data.List.Basic

structure BoundedQueue (α : Type*) where
  items : List α
  capacity : Nat
  pos : 0 < capacity
  fits : items.length ≤ capacity

namespace BoundedQueue

variable {α : Type*}

def empty (capacity : Nat) (pos : 0 < capacity) : BoundedQueue α :=
  ⟨[], capacity, pos, Nat.zero_le _⟩

def hasRoom (q : BoundedQueue α) : Bool := decide (q.items.length < q.capacity)

def hasItem (q : BoundedQueue α) : Bool := !q.items.isEmpty

theorem push_fits {q : BoundedQueue α} {x : α} (h : q.items.length < q.capacity) :
    (q.items ++ [x]).length ≤ q.capacity := by
  rw [List.length_append]
  exact h

theorem tail_fits {q : BoundedQueue α} {x : α} {rest : List α} (h : q.items = x :: rest) :
    rest.length ≤ q.capacity := by
  have hfits := q.fits
  rw [h, List.length_cons] at hfits
  exact Nat.le_of_succ_le hfits

/-- Put an item at the end; `none` when the queue is full. -/
def trySend (q : BoundedQueue α) (x : α) : Option (BoundedQueue α) :=
  if h : q.items.length < q.capacity then
    some { q with items := q.items ++ [x], fits := push_fits h }
  else none

/-- Take the first item; `none` when the queue is empty. -/
def tryRecv (q : BoundedQueue α) : Option (α × BoundedQueue α) :=
  match h : q.items with
  | [] => none
  | x :: rest =>
      some (x, { q with items := rest, fits := tail_fits h })

variable {q q' : BoundedQueue α} {x : α}

theorem trySend_eq_some (h : q.trySend x = some q') :
    q.hasRoom = true ∧ q'.items = q.items ++ [x] ∧ q'.capacity = q.capacity := by
  unfold trySend at h
  split at h
  · rename_i hroom
    obtain rfl := Option.some.inj h
    exact ⟨decide_eq_true hroom, rfl, rfl⟩
  · cases h

theorem trySend_eq_none_iff : q.trySend x = none ↔ q.hasRoom = false := by
  unfold trySend hasRoom
  by_cases hroom : q.items.length < q.capacity
  · simp [hroom]
  · simp [hroom]

theorem tryRecv_eq_some (h : q.tryRecv = some (x, q')) :
    q.items = x :: q'.items ∧ q'.capacity = q.capacity := by
  unfold tryRecv at h
  split at h
  · cases h
  · rename_i y rest hitems
    obtain ⟨rfl, rfl⟩ := Prod.mk.inj (Option.some.inj h)
    exact ⟨hitems, rfl⟩

theorem tryRecv_eq_none_iff : q.tryRecv = none ↔ q.hasItem = false := by
  unfold tryRecv hasItem
  split
  · rename_i hitems
    simp [hitems]
  · rename_i y rest hitems
    simp [hitems]

theorem hasItem_of_tryRecv (h : q.tryRecv = some (x, q')) : q.hasItem = true := by
  unfold hasItem
  rw [(tryRecv_eq_some h).1]
  rfl

end BoundedQueue
