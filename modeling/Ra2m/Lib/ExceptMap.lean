/-
Computations that may fail, and mapping one over a list.

A computation in steps succeeds when each step does (`bind_eq_ok_iff`).

`List.mapM` in `Except` stops at the first failure.  It succeeds with the list of the
results when the function succeeds on every element, and what it fails with is what the
function fails with on one of them.
-/
import Mathlib.Data.List.Basic
import Mathlib.Tactic.Common

namespace ExceptMap

variable {α β ε : Type*} {f : α → Except ε β}

/-- What succeeds did so in its first step and in the rest. -/
theorem bind_eq_ok_iff.{u} {α β : Type u} {x : Except ε α} {f : α → Except ε β} {b : β} :
    x >>= f = .ok b ↔ ∃ a, x = .ok a ∧ f a = .ok b := by
  cases x with
  | error e =>
      refine iff_of_false (fun h => by cases h) ?_
      rintro ⟨a, ha, -⟩
      cases ha
  | ok a =>
      constructor
      · exact fun h => ⟨a, rfl, h⟩
      · rintro ⟨a', ha, h⟩
        obtain rfl := Except.ok.inj ha
        exact h

theorem mapM_cons_eq (f : α → Except ε β) (a : α) (l : List α) :
    (a :: l).mapM f = match f a with
      | .error e => .error e
      | .ok b => match l.mapM f with
          | .error e => .error e
          | .ok bs => .ok (b :: bs) := by
  rw [List.mapM_cons]
  cases f a with
  | error e => rfl
  | ok b => cases l.mapM f <;> rfl

/-- Success on a list is success on its first element and on the rest. -/
theorem mapM_cons_ok {a : α} {l : List α} {bs : List β} (h : (a :: l).mapM f = .ok bs) :
    ∃ b rest, f a = .ok b ∧ l.mapM f = .ok rest ∧ bs = b :: rest := by
  rw [List.mapM_cons] at h
  obtain ⟨b, hb, h⟩ := bind_eq_ok_iff.mp h
  obtain ⟨rest, hrest, h⟩ := bind_eq_ok_iff.mp h
  exact ⟨b, rest, hb, hrest, (Except.ok.inj h).symm⟩

/-- Every element has its result in the list. -/
theorem mapM_mem_left {l : List α} {bs : List β} (h : l.mapM f = .ok bs) {a : α} (ha : a ∈ l) :
    ∃ b ∈ bs, f a = .ok b := by
  induction l generalizing bs with
  | nil => cases ha
  | cons x l ih =>
      obtain ⟨b, rest, hb, hrest, rfl⟩ := mapM_cons_ok h
      rcases List.mem_cons.mp ha with rfl | ha
      · exact ⟨b, List.mem_cons_self, hb⟩
      · obtain ⟨b', hb', hfa⟩ := ih hrest ha
        exact ⟨b', List.mem_cons_of_mem b hb', hfa⟩

/-- Every result is that of an element. -/
theorem mapM_mem_right {l : List α} {bs : List β} (h : l.mapM f = .ok bs) {b : β} (hb : b ∈ bs) :
    ∃ a ∈ l, f a = .ok b := by
  induction l generalizing bs with
  | nil =>
      obtain rfl := Except.ok.inj h
      cases hb
  | cons x l ih =>
      obtain ⟨b', rest, hb', hrest, rfl⟩ := mapM_cons_ok h
      rcases List.mem_cons.mp hb with rfl | hb
      · exact ⟨x, List.mem_cons_self, hb'⟩
      · obtain ⟨a, ha, hfa⟩ := ih hrest hb
        exact ⟨a, List.mem_cons_of_mem x ha, hfa⟩

/-- It succeeds when the function does on every element. -/
theorem exists_mapM_eq_ok {l : List α} (h : ∀ a ∈ l, ∃ b, f a = .ok b) :
    ∃ bs, l.mapM f = .ok bs := by
  induction l with
  | nil => exact ⟨[], rfl⟩
  | cons a l ih =>
      obtain ⟨b, hb⟩ := h a List.mem_cons_self
      obtain ⟨bs, hbs⟩ := ih fun x hx => h x (List.mem_cons_of_mem a hx)
      exact ⟨b :: bs, by rw [mapM_cons_eq, hb, hbs]⟩

/-- It fails with what the function fails with on some element. -/
theorem mapM_error {l : List α} {e : ε} (h : l.mapM f = .error e) : ∃ a ∈ l, f a = .error e := by
  induction l with
  | nil => cases h
  | cons a l ih =>
      rw [mapM_cons_eq] at h
      cases hfa : f a with
      | error e' =>
          rw [hfa] at h
          obtain rfl := Except.error.inj h
          exact ⟨a, List.mem_cons_self, hfa⟩
      | ok b =>
          rw [hfa] at h
          cases hrest : l.mapM f with
          | error e' =>
              rw [hrest] at h
              obtain rfl := Except.error.inj h
              obtain ⟨x, hx, hfx⟩ := ih hrest
              exact ⟨x, List.mem_cons_of_mem a hx, hfx⟩
          | ok bs =>
              rw [hrest] at h
              cases h

end ExceptMap
