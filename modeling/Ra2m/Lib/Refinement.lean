/-
Two implementations of one set of operations.

An implementation is a function `step : S → O → R × S`: what an operation returns, and
the state it leaves.  Where an abstraction function takes every step of one to a step of
the other with the same result, every sequence of operations returns the same results
on both, and the abstraction of the state reached on the one is that reached on the
other.
-/
import Mathlib.Tactic.Common

namespace Refinement

variable {S S' O R : Type*}

/-- The results of a sequence of operations, and the state it leaves. -/
def results (step : S → O → R × S) (s : S) : List O → List R × S
  | [] => ([], s)
  | op :: rest =>
      let (result, s) := step s op
      let (rest, s) := results step s rest
      (result :: rest, s)

/-- The abstraction takes the steps of the one to those of the other. -/
def Refines (step : S → O → R × S) (step' : S' → O → R × S') (abs : S → S') : Prop :=
  ∀ s op, (step s op).1 = (step' (abs s) op).1 ∧ abs (step s op).2 = (step' (abs s) op).2

variable {step : S → O → R × S} {step' : S' → O → R × S'} {abs : S → S'}

theorem Refines.results (h : Refines step step' abs) (s : S) (ops : List O) :
    (results step s ops).1 = (results step' (abs s) ops).1 ∧
      abs (results step s ops).2 = (results step' (abs s) ops).2 := by
  induction ops generalizing s with
  | nil => exact ⟨rfl, rfl⟩
  | cons op rest ih =>
      obtain ⟨hresult, hstate⟩ := h s op
      obtain ⟨hrest, hlast⟩ := ih (step s op).2
      rw [hstate] at hrest hlast
      exact ⟨congr (congrArg List.cons hresult) hrest, hlast⟩

end Refinement
