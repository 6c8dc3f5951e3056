/-
How many members of a finite family are in a given kind of state.

A protocol with finitely many parties keeps counters of the parties that are in some
phase.  `tally P f` is what such a counter should read, and `tally_update` how it
moves when one party changes phase; an invariant about a counter is then a line of
arithmetic for each step.
-/
import Mathlib.Data.Fintype.Card
import Mathlib.Logic.Function.Basic
import Mathlib.Tactic.Common

namespace Tally

variable {ι S : Type*} [Fintype ι]

/-- The number of members in a state that meets `P`. -/
def tally (P : S → Bool) (f : ι → S) : Nat := (Finset.univ.filter fun i => P (f i) = true).card

variable {P : S → Bool} {f : ι → S}

theorem tally_eq_zero_iff : tally P f = 0 ↔ ∀ i, P (f i) = false := by
  unfold tally
  rw [Finset.card_eq_zero, Finset.filter_eq_empty_iff]
  simp

theorem tally_pos {i : ι} (h : P (f i) = true) : 0 < tally P f :=
  Finset.card_pos.2 ⟨i, Finset.mem_filter.2 ⟨Finset.mem_univ i, h⟩⟩

/-- When every member is in the same state, all or none are counted. -/
theorem tally_const (x : S) : tally P (fun _ : ι => x) = if P x then Fintype.card ι else 0 := by
  unfold tally
  by_cases hx : P x = true
  · simp [hx, Finset.card_univ]
  · simp [hx]

/-- A member that changes its state is counted as what it was before and as what it is now. -/
theorem tally_update [DecidableEq ι] (i : ι) (x : S) :
    tally P (Function.update f i x) + (P (f i)).toNat = tally P f + (P x).toNat := by
  have hsum : ∀ g : ι → S, tally P g = (P (g i)).toNat +
      ((Finset.univ.erase i).filter fun j => P (g j) = true).card := by
    intro g
    unfold tally
    rw [← Finset.insert_erase (Finset.mem_univ i), Finset.filter_insert]
    by_cases hi : P (g i) = true
    · rw [if_pos hi, Finset.card_insert_of_notMem (by simp), hi]
      simp [Nat.add_comm]
    · rw [if_neg hi]
      simp [hi]
  have hrest : ((Finset.univ.erase i).filter fun j => P (Function.update f i x j) = true) =
      (Finset.univ.erase i).filter fun j => P (f j) = true := by
    refine Finset.filter_congr ?_
    intro j hj
    rw [Function.update_of_ne (Finset.ne_of_mem_erase hj)]
  rw [hsum (Function.update f i x), hsum f, hrest, Function.update_self]
  omega

end Tally
