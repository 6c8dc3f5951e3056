/-
Windows of a list: reading one, overwriting one, and how the two meet.

A memory is the list of its bytes.  `read` gives the bytes of a window and `write`
puts new ones over it; both make sense when the window lies inside the list.  What
is needed of them is small: a write keeps the length, a window of a window is a
window, a write inside a window can be done on the window alone, and a write
outside a window leaves it as it was.

All of it is read off the bytes one by one, by `getElem?_read` and
`getElem?_write`.
-/
import Mathlib.Data.List.Basic
import Mathlib.Tactic.Common

namespace Window

variable {α : Type*}

/-- The `n` elements from position `a` on. -/
def read (l : List α) (a n : Nat) : List α := (l.drop a).take n

/-- The list with the elements from position `a` on replaced by `xs`. -/
def write (l : List α) (a : Nat) (xs : List α) : List α :=
  l.take a ++ xs ++ l.drop (a + xs.length)

theorem getElem?_read (l : List α) (a n i : Nat) :
    (read l a n)[i]? = if i < n then l[a + i]? else none := by
  unfold read
  rw [List.getElem?_take, List.getElem?_drop]

theorem getElem?_write (l : List α) {a : Nat} {xs : List α} (h : a + xs.length ≤ l.length)
    (i : Nat) :
    (write l a xs)[i]? = if a ≤ i ∧ i < a + xs.length then xs[i - a]? else l[i]? := by
  have hlen : (l.take a).length = a := by
    rw [List.length_take]
    omega
  unfold write
  by_cases h1 : i < a
  · rw [if_neg (by omega), List.append_assoc, List.getElem?_append_left (by omega),
      List.getElem?_take, if_pos h1]
  · by_cases h2 : i < a + xs.length
    · rw [if_pos (by omega), List.getElem?_append_left (by rw [List.length_append]; omega),
        List.getElem?_append_right (by omega), hlen]
    · rw [if_neg (by omega), List.getElem?_append_right (by rw [List.length_append]; omega),
        List.getElem?_drop, List.length_append, hlen]
      congr 1
      omega

/-- Two lists have the same window when they agree inside it. -/
theorem read_eq_iff {l₁ l₂ : List α} {a n : Nat} :
    read l₁ a n = read l₂ a n ↔ ∀ b, a ≤ b ∧ b < a + n → l₁[b]? = l₂[b]? := by
  constructor
  · rintro heq b ⟨hab, hb⟩
    have hbyte := congrArg (·[b - a]?) heq
    simp only [getElem?_read, if_pos (show b - a < n by omega)] at hbyte
    rwa [Nat.add_sub_cancel' hab] at hbyte
  · intro h
    apply List.ext_getElem?
    intro i
    rw [getElem?_read, getElem?_read]
    by_cases hi : i < n
    · rw [if_pos hi, if_pos hi, h (a + i) (by omega)]
    · rw [if_neg hi, if_neg hi]

theorem length_read {l : List α} {a n : Nat} (h : a + n ≤ l.length) :
    (read l a n).length = n := by
  unfold read
  rw [List.length_take, List.length_drop]
  omega

theorem length_write {l : List α} {a : Nat} {xs : List α} (h : a + xs.length ≤ l.length) :
    (write l a xs).length = l.length := by
  unfold write
  rw [List.length_append, List.length_append, List.length_take, List.length_drop]
  omega

/-- A window of a window is a window of the list. -/
theorem read_read (l : List α) {b s a n : Nat} (h : a + n ≤ s) :
    read (read l b s) a n = read l (b + a) n := by
  apply List.ext_getElem?
  intro i
  rw [getElem?_read, getElem?_read, getElem?_read]
  by_cases hi : i < n
  · rw [if_pos hi, if_pos hi, if_pos (by omega), Nat.add_assoc]
  · rw [if_neg hi, if_neg hi]

/-- What was written is read back. -/
theorem read_write (l : List α) {a : Nat} {xs : List α} (h : a + xs.length ≤ l.length) :
    read (write l a xs) a xs.length = xs := by
  apply List.ext_getElem?
  intro i
  rw [getElem?_read, getElem?_write l h]
  by_cases hi : i < xs.length
  · rw [if_pos hi, if_pos (by omega), Nat.add_sub_cancel_left]
  · rw [if_neg hi, List.getElem?_eq_none (by omega)]

/-- A write inside a window is a write to the window. -/
theorem read_write_inside (l : List α) {b s a : Nat} {xs : List α} (h : a + xs.length ≤ s)
    (hs : b + s ≤ l.length) : read (write l (b + a) xs) b s = write (read l b s) a xs := by
  have hlen := length_read hs
  apply List.ext_getElem?
  intro i
  rw [getElem?_read, getElem?_write l (by omega), getElem?_write _ (by omega), getElem?_read]
  by_cases hw : a ≤ i ∧ i < a + xs.length
  · rw [if_pos (by omega), if_pos (by omega), if_pos hw]
    congr 1
    omega
  · rw [if_neg hw]
    by_cases hi : i < s
    · rw [if_pos hi, if_pos hi, if_neg (by omega)]
    · rw [if_neg hi, if_neg hi]

/-- A write that does not meet a window leaves it alone. -/
theorem read_write_outside (l : List α) {b s a : Nat} {xs : List α} (ha : a + xs.length ≤ l.length)
    (h : a + xs.length ≤ b ∨ b + s ≤ a) : read (write l a xs) b s = read l b s := by
  apply List.ext_getElem?
  intro i
  rw [getElem?_read, getElem?_write l ha, getElem?_read]
  by_cases hi : i < s
  · rw [if_pos hi, if_pos hi, if_neg (by omega)]
  · rw [if_neg hi, if_neg hi]

theorem read_replicate (x : α) {m b s : Nat} (h : b + s ≤ m) :
    read (List.replicate m x) b s = List.replicate s x := by
  unfold read
  rw [List.drop_replicate, List.take_replicate]
  congr 1
  omega

end Window
