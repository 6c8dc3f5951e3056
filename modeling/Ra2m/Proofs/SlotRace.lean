/-
The free slot `wait_slot` saw, and the slot it takes.

The look and the take are two sections, and the other layer may take a slot between
them.  It is harmless as long as it leaves one: no layer takes the last free slot
while the other is between its two sections.  A run that keeps to that never meets an
empty pool in `wait_slot`.  A step that does not keep to it leaves the other layer in
front of an empty pool, and its next section panics.
-/
import Ra2m.Cpn.NDmaSlots

namespace Ra2m

open Runs

namespace NDmaSlots

variable {T : Type} {s s' : NDmaSlots T}

/-- The last free slot is not taken while the other layer is between its look and its take. -/
def LeavesSeen (s : NDmaSlots T) : SlotAct T → Prop
  | .take l => s.stage l.other = .seen → s.inner.availId.length ≠ 1
  | _ => True

/-- A layer past its look still has a slot to take, and `wait_slot` did not panic. -/
structure Sound (s : NDmaSlots T) : Prop where
  free : ∀ l, s.stage l = .seen → s.inner.availId ≠ []
  noPanic : s.panic ≠ some slotError

theorem Sound.init (n : Nat) : Sound (init n : NDmaSlots T) :=
  ⟨fun _ h => (by cases h), fun h => (by cases h)⟩

/-! ### The sections of one layer -/

/-- Another panic is not that of `wait_slot`. -/
theorem Sound.fail (h : Sound s) {p : Panic} (hp : p ≠ slotError) :
    Sound { s with panic := some p } :=
  ⟨h.free, fun heq => hp (Option.some.inj heq)⟩

/-- Leaving a stage for one that is not past the look keeps the other layer's slot. -/
theorem Sound.setStage (h : Sound s) {l : SlotLayer} {st : SlotStage} (hst : st ≠ .seen)
    {inner : NDmaInner T} (havail : inner.availId = s.inner.availId) :
    Sound { s.setStage l st with inner } := by
  refine ⟨?_, h.noPanic⟩
  intro l' hl'
  show inner.availId ≠ []
  rw [havail]
  by_cases hl : l' = l
  · subst hl
    exact absurd ((setStage_stage_self s l' st).symm.trans hl') hst
  · exact h.free l' ((setStage_stage_of_ne s st hl).symm.trans hl')

theorem Sound.store (h : Sound s) {l : SlotLayer} {slot : NDmaSlot T}
    (hs : s.store l slot = some s') : Sound s' := by
  unfold NDmaSlots.store NDmaInner.setSlot at hs
  split at hs
  · rename_i token _
    by_cases hlt : token < s.inner.pktStore.length
    · rw [if_pos hlt] at hs
      obtain rfl := Option.some.inj hs
      exact h.setStage (by simp) rfl
    · rw [if_neg hlt] at hs
      obtain rfl := Option.some.inj hs
      exact h.fail (by decide)
  · cases hs

theorem Sound.release (h : Sound s) {pos : Nat} (hs : s.act (.release pos) = some s') :
    Sound s' := by
  simp only [act, NDmaInner.removeSlotAt] at hs
  cases hpos : (s.inner.pktStore ++ [.none])[pos]? with
  | none =>
      rw [hpos] at hs
      obtain rfl := Option.some.inj hs
      exact h.fail (by decide)
  | some slot =>
      rw [hpos] at hs
      obtain rfl := Option.some.inj hs
      refine ⟨?_, h.noPanic⟩
      intro l _
      simp

/-- What a take does while a slot is free. -/
theorem act_take (l : SlotLayer) (hseen : s.stage l = .seen) (hfree : s.inner.availId ≠ []) :
    ∃ token inner, s.act (.take l) = some { s.setStage l (.held token) with inner } ∧
      s.inner.availId = inner.availId ++ [token] := by
  obtain ⟨token, hlast⟩ := Option.ne_none_iff_exists'.mp
    (fun hnone => hfree (List.getLast?_eq_none_iff.mp hnone))
  have hwait : s.inner.waitSlot =
      some (token, { s.inner with availId := s.inner.availId.dropLast }) := by
    unfold NDmaInner.waitSlot
    rw [hlast]
  refine ⟨token, { s.inner with availId := s.inner.availId.dropLast }, ?_,
    (NDma.waitSlot_eq_some hwait).1⟩
  simp only [act, if_pos hseen, hwait]

/-- Only a layer past its look takes a slot. -/
theorem seen_of_take {l : SlotLayer} (hs : s.act (.take l) = some s') : s.stage l = .seen := by
  by_contra hne
  rw [act, if_neg hne] at hs
  cases hs

theorem Sound.take (h : Sound s) {l : SlotLayer} (hP : s.LeavesSeen (.take l))
    (hs : s.act (.take l) = some s') : Sound s' := by
  have hseen := seen_of_take hs
  obtain ⟨token, inner, hact, havail⟩ := act_take l hseen (h.free l hseen)
  obtain rfl := Option.some.inj (hact.symm.trans hs)
  refine ⟨?_, h.noPanic⟩
  intro l' hl' hnil
  rcases l.eq_or_other l' with rfl | rfl
  · exact absurd ((setStage_stage_self s l' _).symm.trans hl') (by simp)
  · have hother := (setStage_stage_of_ne s _ l.other_ne).symm.trans hl'
    refine hP hother ?_
    rw [havail, show inner.availId = [] from hnil]
    rfl

/-! ### Runs -/

theorem Sound.step (h : Sound s) {a : SlotAct T} (hP : s.LeavesSeen a)
    (hs : step s a = some s') : Sound s' := by
  unfold NDmaSlots.step at hs
  split at hs
  · cases hs
  cases a with
  | take l => exact h.take hP hs
  | release pos => exact h.release hs
  | storeDma pkt => exact h.store hs
  | storeNet fromNode toNode => exact h.store hs
  | wake l =>
      simp only [act] at hs
      split at hs
      · obtain rfl := Option.some.inj hs
        exact h.setStage (by simp) rfl
      · cases hs
  | look l =>
      simp only [act] at hs
      split at hs
      · obtain rfl := Option.some.inj hs
        by_cases hnone : s.inner.availId.length = 0
        · rw [if_pos hnone]
          exact h.setStage (by simp) rfl
        · refine ⟨fun l' _ hnil => hnone ?_, h.noPanic⟩
          rw [show s.inner.availId = [] from hnil]
          rfl
      · cases hs

/-- A take that leaves the other layer no slot lets its next section panic. -/
theorem panics_of_not_leavesSeen (h : Sound s) {a : SlotAct T} (hP : ¬ s.LeavesSeen a)
    (hs : NDmaSlots.step s a = some s') :
    ∃ b s'', NDmaSlots.step s' b = some s'' ∧ s''.panic = some slotError := by
  unfold NDmaSlots.step at hs
  split at hs
  · cases hs
  rename_i hpanic
  cases a with
  | take l =>
      simp only [LeavesSeen, ne_eq, Classical.not_imp, not_not] at hP
      obtain ⟨hother, hone⟩ := hP
      have hseen := seen_of_take hs
      obtain ⟨token, inner, hact, havail⟩ := act_take l hseen (h.free l hseen)
      obtain rfl := Option.some.inj (hact.symm.trans hs)
      have hnil : inner.availId = [] := by
        rw [havail, List.length_append, List.length_singleton] at hone
        exact List.length_eq_zero_iff.mp (by omega)
      refine ⟨.take l.other, { s.setStage l (.held token) with inner, panic := some slotError },
        ?_, rfl⟩
      have hthere : (s.setStage l (.held token)).stage l.other = .seen :=
        (setStage_stage_of_ne s _ l.other_ne).trans hother
      unfold NDmaSlots.step
      simp only [setStage_panic, if_neg hpanic, act, hthere, if_true, NDmaInner.waitSlot, hnil,
        List.getLast?_nil]
  | _ => exact absurd trivial hP

/-- **The slot seen as free is still there.**  In a run in which no layer takes the last free slot
between the two sections of the other, `wait_slot` never panics; and a step that takes it there
leads to a state in which one more section panics. -/
theorem wait_slot_sound (n : Nat) :
    (∀ acts (s : NDmaSlots T), run NDmaSlots.step (init n) acts = some s →
        Along NDmaSlots.step LeavesSeen (init n) acts → s.panic ≠ some slotError) ∧
      ∀ acts (s s' : NDmaSlots T) a, run NDmaSlots.step (init n) acts = some s →
        Along NDmaSlots.step LeavesSeen (init n) acts → NDmaSlots.step s a = some s' →
        ¬ s.LeavesSeen a →
        ∃ b s'', NDmaSlots.step s' b = some s'' ∧ s''.panic = some slotError := by
  have hsound : ∀ acts (s : NDmaSlots T), run NDmaSlots.step (NDmaSlots.init n) acts = some s →
      Along NDmaSlots.step LeavesSeen (NDmaSlots.init n) acts → Sound s := fun acts s hrun hP =>
    run_inv_along (fun _ _ _ hI hP hs => hI.step hP hs) (Sound.init n) hP hrun
  exact ⟨fun acts s hrun hP => (hsound acts s hrun hP).noPanic,
    fun acts s s' a hrun hP hs hne => panics_of_not_leavesSeen (hsound acts s hrun hP) hne hs⟩

/-- One slot, which both layers look at before either takes it. -/
theorem both_look_first : ∃ s : NDmaSlots Unit,
    run NDmaSlots.step (init 1) [.look .request, .look .ingress, .take .request, .take .ingress] =
      some s ∧ s.panic = some slotError :=
  ⟨_, rfl, rfl⟩

end NDmaSlots

end Ra2m
