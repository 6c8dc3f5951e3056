/-
A list with a cursor, and insertion in order through it.

The cursor stands at an element or at the ghost position, which is behind the last
element and in front of the first one.  Inserting an element in order moves the cursor
on from the front until it stands at a larger one or at the ghost.  That is
`List.orderedInsert`, and inserting the elements of a list one after another sorts it:
with pairwise different keys the outcome does not depend on the order they come in.
-/
import Mathlib.Data.List.Sort

/-- The elements in front of the cursor, the nearest first, and those from the cursor on. -/
structure Cursor (α : Type*) where
  before : List α
  after : List α

namespace Cursor

variable {α κ : Type*} [LinearOrder κ]

/-- The cursor at the front of a list. -/
def front (l : List α) : Cursor α := ⟨[], l⟩

def toList (c : Cursor α) : List α := c.before.reverse ++ c.after

/-- The next element; the first one comes after the ghost. -/
def moveNext (c : Cursor α) : Cursor α :=
  match c.after with
  | [] => front c.toList
  | x :: rest => ⟨x :: c.before, rest⟩

def insertBefore (c : Cursor α) (e : α) : Cursor α := ⟨e :: c.before, c.after⟩

/-- Insert before the first element from the cursor on that is larger, or at the end. -/
def insertOrdered (key : α → κ) (e : α) (c : Cursor α) : List α :=
  match _h : c.after with
  | [] => c.toList ++ [e]
  | x :: _ =>
      if key e < key x then (c.insertBefore e).toList else insertOrdered key e c.moveNext
termination_by c.after.length
decreasing_by
  unfold moveNext
  rw [_h]
  exact Nat.lt_succ_self _

/-- Insert the elements of a list one after another. -/
def insertAll (key : α → κ) (arrived l : List α) : List α :=
  arrived.foldl (fun l e => insertOrdered key e (front l)) l

variable (key : α → κ)

/-! ### One element -/

theorem insertOrdered_mk (e : α) (before after : List α) :
    insertOrdered key e ⟨before, after⟩ =
      before.reverse ++ after.orderedInsert (fun a b => key a < key b) e := by
  induction after generalizing before with
  | nil =>
      rw [insertOrdered]
      show (before.reverse ++ []) ++ [e] = before.reverse ++ [e]
      rw [List.append_nil]
  | cons x rest ih =>
      rw [insertOrdered, List.orderedInsert_cons]
      by_cases hlt : key e < key x
      · simp only [if_pos hlt]
        show (e :: before).reverse ++ (x :: rest) = before.reverse ++ (e :: x :: rest)
        rw [List.reverse_cons, List.append_assoc]
        rfl
      · simp only [if_neg hlt]
        show insertOrdered key e ⟨x :: before, rest⟩ = _
        rw [ih, List.reverse_cons, List.append_assoc]
        rfl

/-- From the front, it is the insertion in order. -/
theorem insertOrdered_front (e : α) (l : List α) :
    insertOrdered key e (front l) = l.orderedInsert (fun a b => key a < key b) e :=
  insertOrdered_mk key e [] l

variable {key}

/-- Keys that increase do so after the insertion of an element with a key of its own. -/
theorem orderedInsert_increasing {e : α} {l : List α}
    (hl : l.Pairwise fun a b => key a < key b) (hnew : ∀ x ∈ l, key x ≠ key e) :
    (l.orderedInsert (fun a b => key a < key b) e).Pairwise fun a b => key a < key b := by
  induction l with
  | nil => exact List.pairwise_singleton _ _
  | cons x rest ih =>
      obtain ⟨hx, hrest⟩ := List.pairwise_cons.mp hl
      rw [List.orderedInsert_cons]
      by_cases hlt : key e < key x
      · rw [if_pos hlt]
        refine List.pairwise_cons.mpr ⟨?_, hl⟩
        intro y hy
        rcases List.mem_cons.mp hy with rfl | hy
        · exact hlt
        · exact hlt.trans (hx y hy)
      · rw [if_neg hlt]
        refine List.pairwise_cons.mpr ⟨?_, ih hrest fun y hy => hnew y (List.mem_cons_of_mem x hy)⟩
        intro y hy
        rcases (List.mem_orderedInsert _).mp hy with rfl | hy
        · exact lt_of_le_of_ne (not_lt.mp hlt) (hnew x List.mem_cons_self)
        · exact hx y hy

/-! ### The elements of a list -/

theorem insertAll_perm (arrived l : List α) : (insertAll key arrived l).Perm (l ++ arrived) := by
  induction arrived generalizing l with
  | nil =>
      rw [List.append_nil]
      exact List.Perm.refl _
  | cons e rest ih =>
      show (insertAll key rest (insertOrdered key e (front l))).Perm _
      refine (ih _).trans ?_
      rw [insertOrdered_front]
      exact ((List.perm_orderedInsert _ e l).append_right rest).trans List.perm_middle.symm

/-- Elements with pairwise different keys end up in the order of their keys. -/
theorem insertAll_increasing {arrived l : List α} (hl : l.Pairwise fun a b => key a < key b)
    (hnew : (l ++ arrived).Pairwise fun a b => key a ≠ key b) :
    (insertAll key arrived l).Pairwise fun a b => key a < key b := by
  induction arrived generalizing l with
  | nil => exact hl
  | cons e rest ih =>
      show (insertAll key rest (insertOrdered key e (front l))).Pairwise _
      rw [insertOrdered_front]
      refine ih (orderedInsert_increasing hl ?_) ?_
      · intro x hx
        exact (List.pairwise_append.mp hnew).2.2 x hx e List.mem_cons_self
      · refine hnew.perm ?_ fun h => h.symm
        exact List.perm_middle.trans ((List.perm_orderedInsert _ e l).append_right rest).symm

/-- Two lists of increasing keys with the same elements are the same. -/
theorem eq_of_increasing {l l' : List α} (hperm : l.Perm l')
    (hl : l.Pairwise fun a b => key a < key b) (hl' : l'.Pairwise fun a b => key a < key b) :
    l = l' :=
  hperm.eq_of_pairwise (fun _ _ _ _ hab hba => absurd hab hba.asymm) hl hl'

end Cursor
