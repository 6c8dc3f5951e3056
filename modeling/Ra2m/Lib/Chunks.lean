/-
Reading a list up to a delimiter, again and again.

Each read takes what comes up to the next delimiter, with the delimiter; the last read
takes what is left.  `split` lists what the reads obtain.  A reader that only ever sees
whole chunks is told from a list by where its delimiters stand: `split_append` cuts the
list behind one of them, and `exists_lastDelim` cuts it behind the last one, in front of
which there are as many chunks as delimiters.
-/
import Mathlib.Data.List.Induction
import Mathlib.Tactic.Common

namespace Chunks

variable {α : Type*} [DecidableEq α]

/-- What the reads up to the delimiter `d` obtain one after the other. -/
def split (d : α) : List α → List (List α)
  | [] => []
  | x :: l =>
      if x = d then [x] :: split d l
      else
        match split d l with
        | [] => [[x]]
        | chunk :: chunks => (x :: chunk) :: chunks

/-- A list that a read can stop behind. -/
def Closed (d : α) (l : List α) : Prop := l = [] ∨ ∃ front, l = front ++ [d]

@[simp] theorem split_nil (d : α) : split d [] = [] := rfl

@[simp] theorem split_cons_delim (d : α) (l : List α) : split d (d :: l) = [d] :: split d l := by
  simp [split]

theorem split_cons_of_ne {d x : α} (hx : x ≠ d) (l : List α) :
    split d (x :: l) =
      match split d l with
      | [] => [[x]]
      | chunk :: chunks => (x :: chunk) :: chunks := by
  simp [split, hx]

/-- No byte is lost. -/
theorem flatten_split (d : α) (l : List α) : (split d l).flatten = l := by
  induction l with
  | nil => rfl
  | cons x l ih =>
      by_cases hx : x = d
      · subst hx
        simp [ih]
      · rw [split_cons_of_ne hx]
        cases hl : split d l with
        | nil =>
            rw [hl] at ih
            simp [← ih]
        | cons chunk chunks =>
            rw [hl] at ih
            simpa using ih

theorem split_ne_nil {d : α} {l : List α} (hl : l ≠ []) : split d l ≠ [] := by
  intro h
  exact hl (by rw [← flatten_split d l, h]; rfl)

/-- Behind a delimiter the reads start over. -/
theorem split_append_delim (d : α) (front rest : List α) :
    split d (front ++ d :: rest) = split d (front ++ [d]) ++ split d rest := by
  induction front with
  | nil => simp
  | cons x front ih =>
      by_cases hx : x = d
      · subst hx
        simp [ih]
      · rw [List.cons_append, List.cons_append, split_cons_of_ne hx, split_cons_of_ne hx, ih]
        cases hl : split d (front ++ [d]) with
        | nil => exact absurd hl (split_ne_nil (by simp))
        | cons chunk chunks => rfl

theorem Closed.split_append {d : α} {front : List α} (h : Closed d front) (rest : List α) :
    split d (front ++ rest) = split d front ++ split d rest := by
  rcases h with rfl | ⟨l, rfl⟩
  · rfl
  · rw [List.append_assoc, List.singleton_append, split_append_delim]

/-- There are as many reads as delimiters. -/
theorem length_split_append_delim (d : α) (l : List α) :
    (split d (l ++ [d])).length = l.count d + 1 := by
  induction l with
  | nil => simp
  | cons x l ih =>
      by_cases hx : x = d
      · subst hx
        simp [ih]
      · rw [List.cons_append, split_cons_of_ne hx, List.count_cons_of_ne hx]
        cases hl : split d (l ++ [d]) with
        | nil => exact absurd hl (split_ne_nil (by simp))
        | cons chunk chunks => simpa [hl] using ih

/-- A list with no delimiter in front of its last element is read at once. -/
theorem split_of_not_mem_dropLast {d : α} {l : List α} (hl : l ≠ []) (hd : d ∉ l.dropLast) :
    split d l = [l] := by
  induction l with
  | nil => exact absurd rfl hl
  | cons x l ih =>
      cases l with
      | nil =>
          by_cases hx : x = d
          · simp [hx]
          · simp [split_cons_of_ne hx]
      | cons y l =>
          rw [List.dropLast_cons_cons, List.mem_cons, not_or] at hd
          rw [split_cons_of_ne (Ne.symm hd.1), ih (by simp) hd.2]

/-- The read that ends at the first delimiter. -/
theorem split_line {d : α} {line : List α} (hd : d ∉ line) (rest : List α) :
    split d (line ++ d :: rest) = (line ++ [d]) :: split d rest := by
  rw [split_append_delim, split_of_not_mem_dropLast (by simp) (by simpa using hd)]
  rfl

/-- Any list is cut behind its last delimiter. -/
theorem exists_lastDelim (d : α) (l : List α) :
    ∃ front back, l = front ++ back ∧ d ∉ back ∧ Closed d front ∧
      (split d front).length = l.count d := by
  induction l using List.reverseRecOn with
  | nil => exact ⟨[], [], rfl, by simp, .inl rfl, rfl⟩
  | append_singleton l x ih =>
      by_cases hx : x = d
      · subst hx
        refine ⟨l ++ [x], [], by simp, by simp, .inr ⟨l, rfl⟩, ?_⟩
        rw [length_split_append_delim, List.count_append, List.count_singleton_self]
      · obtain ⟨front, back, rfl, hback, hclosed, hlen⟩ := ih
        refine ⟨front, back ++ [x], by simp, ?_, hclosed, ?_⟩
        · simp [hback, Ne.symm hx]
        · rw [hlen]
          simp [hx]

/-- One read ends at each delimiter in front of the last element, and one at the end. -/
theorem length_split {d : α} {l : List α} (hl : l ≠ []) :
    (split d l).length = l.dropLast.count d + 1 := by
  obtain ⟨front, back, heq, hback, hclosed, hlen⟩ := exists_lastDelim d l.dropLast
  have hlast : split d (back ++ [l.getLast hl]) = [back ++ [l.getLast hl]] :=
    split_of_not_mem_dropLast (by simp) (by simpa using hback)
  rw [← hlen]
  conv_lhs => rw [← List.dropLast_concat_getLast hl, heq, List.append_assoc]
  rw [hclosed.split_append, hlast, List.length_append, List.length_singleton]

end Chunks
