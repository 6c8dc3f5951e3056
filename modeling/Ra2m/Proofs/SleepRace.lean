/-
When the end of a delta-cycle wakes the scheduler.

The last process to halt takes the waker out of its cell.  If it does so after the
scheduler has seen it alive and before the scheduler has stored the waker, the cell is
empty, and the scheduler goes to sleep with nobody left to wake it.

That is the only way.  A scheduler that sleeps has its waker in the cell, or it is being
called, and the process that brings the count to 0 goes for it.
-/
import Ra2m.Sim.WaitHwThread

namespace Ra2m

namespace WaitHw

open Tally

variable {n : Nat} {s s' : WaitHw n} {a : Act n}

/-- The place is counted in `alive_prc`. -/
def isAlive : PrcPlace → Bool
  | .alive => true
  | _ => false

/-- The number of alive processes. -/
def alives (s : WaitHw n) : Nat := tally isAlive s.place

/-- The count the wake loop has not added up yet. -/
def wokenPrc (s : WaitHw n) : Nat :=
  match s.stage with
  | .wake wokenPrc => wokenPrc
  | _ => 0

/-- Some process will call the waker, or get alive again by itself. -/
def Helped (s : WaitHw n) : Prop := ∃ p, s.waking p ≠ .no ∨ s.place p = .granted

instance (s : WaitHw n) : Decidable s.Helped :=
  inferInstanceAs (Decidable (∃ p, s.waking p ≠ .no ∨ s.place p = .granted))

/-- The scheduler sleeps, the delta-cycle is over and nobody will wake the scheduler. -/
structure Stuck (s : WaitHw n) : Prop where
  asleep : s.stage = .asleep
  ended : s.alivePrc = 0
  silent : s.notified = false
  unhelped : ¬ s.Helped

/-- What a step must meet: the waker is stored while the delta-cycle is not over for everyone, or
the scheduler has been notified already. -/
def RegistersInTime (s : WaitHw n) (a : Act n) : Prop :=
  a = .registerWaker → s.alivePrc ≠ 0 ∨ s.notified = true ∨ s.Helped

instance (s : WaitHw n) (a : Act n) : Decidable (s.RegistersInTime a) :=
  inferInstanceAs (Decidable (a = .registerWaker → _))

structure Inv (s : WaitHw n) : Prop where
  alive : s.alivePrc + s.wokenPrc = s.alives
  /-- The waker of a sleeping scheduler is in the cell, or about to be called. -/
  armed : s.stage = .asleep → s.notified = false → s.waker = true ∨ ∃ p, s.waking p = .call

theorem init_inv : Inv (init n) := by
  refine ⟨?_, fun h => by cases h⟩
  have htally : tally isAlive (init n).place = 0 := tally_eq_zero_iff.2 fun _ => rfl
  show (0 : Int) + 0 = (tally isAlive (init n).place : Nat)
  rw [htally]
  rfl

/-! ### The count -/

theorem alives_move {p : Fin n} {x y : PrcPlace} (hp : s.place p = y) :
    (s.move p x).alives + (isAlive y).toNat = s.alives + (isAlive x).toNat := by
  have hmove := tally_update (P := isAlive) (f := s.place) p x
  rw [hp] at hmove
  exact hmove

/-- With the scheduler asleep nobody is counted on the side. -/
theorem Inv.alive_of_asleep (h : Inv s) (hasleep : s.stage = .asleep) :
    s.alivePrc = s.alives := by
  have halive := h.alive
  have hwoken : s.wokenPrc = 0 := by
    unfold wokenPrc
    rw [hasleep]
  omega

/-! ### Steps of a process -/

/-- A step that moves a process and counts it keeps the invariant. -/
theorem Inv.of_move (h : Inv s) {p : Fin n} {x y : PrcPlace} {d : Int} (hp : s.place p = y)
    (hfree : s.waking p = .no) (hplace : s'.place = (s.move p x).place)
    (hcount : s'.alivePrc = s.alivePrc + d) (hd : d + (isAlive y).toNat = (isAlive x).toNat)
    (hwaking : ∀ q ≠ p, s'.waking q = s.waking q) (hwaker : s'.waker = s.waker)
    (hnotified : s'.notified = s.notified) (hstage : s'.stage = s.stage) : Inv s' := by
  constructor
  · have hmove : s'.alives + (isAlive y).toNat = s.alives + (isAlive x).toNat := by
      unfold alives
      rw [hplace]
      exact alives_move hp
    have hwoken : s'.wokenPrc = s.wokenPrc := by
      unfold wokenPrc
      rw [hstage]
    have halive := h.alive
    omega
  · intro hasleep hsilent
    rw [hwaker]
    rcases h.armed (hstage ▸ hasleep) (hnotified ▸ hsilent) with hcell | ⟨q, hq⟩
    · exact Or.inl hcell
    · have hne : q ≠ p := by
        rintro rfl
        cases hfree.symm.trans hq
      exact Or.inr ⟨q, (hwaking q hne).trans hq⟩

/-- The process that brings the count to 0 goes for the waker. -/
theorem not_stuck_fetchAdd {p : Fin n} {d : Int} : ¬ Stuck (s.fetchAdd p d (-d)) := by
  intro h
  have hlast : s.alivePrc = -d := by
    have hended : s.alivePrc + d = 0 := h.ended
    omega
  refine h.unhelped ⟨p, Or.inl ?_⟩
  show Function.update s.waking p (if s.alivePrc = -d then .take else .no) p ≠ .no
  rw [if_pos hlast, Function.update_self]
  exact Waking.noConfusion

/-- A step of the scheduler that does not end in a sleep keeps the invariant. -/
theorem Inv.of_awake (h : Inv s) (hplace : s'.place = s.place) (halive : s'.alivePrc = s.alivePrc)
    (hwoken : s'.wokenPrc = s.wokenPrc) (hstage : s'.stage ≠ .asleep) : Inv s' := by
  refine ⟨?_, fun hasleep => absurd hasleep hstage⟩
  have halives : s'.alives = s.alives := by
    unfold alives
    rw [hplace]
  rw [halive, hwoken, halives]
  exact h.alive

/-- Every step keeps the invariant. -/
theorem Inv.step (h : Inv s) (hstep : s.step a = some s') : Inv s' := by
  cases a with
  | registerNewPrc p | unregisterPrc p | pushOrder p | unlockPrc p =>
      simp only [WaitHw.step, Option.ite_none_right_eq_some, Option.some.injEq] at hstep
      obtain ⟨⟨hp, hfree⟩, rfl⟩ := hstep
      refine h.of_move hp hfree rfl rfl rfl ?_ rfl rfl rfl
      intro q hq
      first | rfl | exact Function.update_of_ne hq _ _
  | lockPrc p free =>
      simp only [WaitHw.step, Option.ite_none_right_eq_some, Option.some.injEq] at hstep
      obtain ⟨⟨hp, hfree⟩, rfl⟩ := hstep
      refine h.of_move hp hfree rfl rfl (by cases free <;> rfl) ?_ rfl rfl rfl
      intro q hq
      exact Function.update_of_ne hq _ _
  | release p q =>
      simp only [WaitHw.step, Option.ite_none_right_eq_some, Option.some.injEq] at hstep
      obtain ⟨⟨-, hq⟩, rfl⟩ := hstep
      refine ⟨?_, h.armed⟩
      have hmove : (s.move q .granted).alives + 0 = s.alives + 0 := alives_move hq
      have halive := h.alive
      show s.alivePrc + s.wokenPrc = (s.move q .granted).alives
      omega
  | takeWaker p =>
      simp only [WaitHw.step, Option.ite_none_right_eq_some] at hstep
      obtain ⟨hp, hstep⟩ := hstep
      by_cases hcell : s.waker = true
      · rw [if_pos hcell] at hstep
        obtain rfl := Option.some.inj hstep
        refine ⟨h.alive, fun _ _ => Or.inr ⟨p, ?_⟩⟩
        exact Function.update_self _ _ _
      · rw [if_neg hcell] at hstep
        obtain rfl := Option.some.inj hstep
        refine ⟨h.alive, fun hasleep hsilent => Or.inr ?_⟩
        obtain ⟨q, hq⟩ := (h.armed hasleep hsilent).resolve_left hcell
        have hne : q ≠ p := by
          rintro rfl
          cases hp.symm.trans hq
        exact ⟨q, (Function.update_of_ne hne _ _).trans hq⟩
  | wakeByRef p =>
      simp only [WaitHw.step, Option.ite_none_right_eq_some, Option.some.injEq] at hstep
      obtain ⟨-, rfl⟩ := hstep
      exact ⟨h.alive, fun _ hsilent => by cases hsilent⟩
  | startWait | advance =>
      simp only [WaitHw.step, Option.ite_none_right_eq_some, Option.some.injEq] at hstep
      obtain ⟨hs, rfl⟩ := hstep
      exact h.of_awake rfl rfl (by simp [wokenPrc, hs]) WaitHwStage.noConfusion
  | load =>
      simp only [WaitHw.step, Option.ite_none_right_eq_some] at hstep
      obtain ⟨hs, hstep⟩ := hstep
      split at hstep
      · obtain rfl := Option.some.inj hstep
        exact h.of_awake rfl rfl (by simp [wokenPrc, hs]) WaitHwStage.noConfusion
      · obtain rfl := Option.some.inj hstep
        exact h.of_awake rfl rfl (by simp [wokenPrc, hs]) WaitHwStage.noConfusion
  | registerWaker =>
      simp only [WaitHw.step, Option.ite_none_right_eq_some, Option.some.injEq] at hstep
      obtain ⟨hs, rfl⟩ := hstep
      refine ⟨?_, fun _ _ => Or.inl rfl⟩
      have halive := h.alive
      simp only [wokenPrc, hs] at halive
      exact halive
  | rouse =>
      simp only [WaitHw.step, Option.ite_none_right_eq_some, Option.some.injEq] at hstep
      obtain ⟨⟨hs, -⟩, rfl⟩ := hstep
      exact h.of_awake rfl rfl (by simp [wokenPrc, hs]) WaitHwStage.noConfusion
  | timeout =>
      simp only [WaitHw.step, Option.ite_none_right_eq_some, Option.some.injEq] at hstep
      obtain ⟨hs, rfl⟩ := hstep
      exact h.of_awake rfl rfl (by simp [wokenPrc, hs]) WaitHwStage.noConfusion
  | wakePrc p =>
      simp only [WaitHw.step] at hstep
      split at hstep
      · rename_i w hs
        simp only [Option.ite_none_right_eq_some, Option.some.injEq] at hstep
        obtain ⟨hp, rfl⟩ := hstep
        refine ⟨?_, fun hasleep => WaitHwStage.noConfusion hasleep⟩
        have hmove : (s.move p .alive).alives + 0 = s.alives + 1 := alives_move hp
        have halive := h.alive
        simp only [wokenPrc, hs] at halive
        show s.alivePrc + ((w + 1 : Nat) : Int) = ((s.move p .alive).alives : Nat)
        omega
      · cases hstep
  | endWake =>
      simp only [WaitHw.step] at hstep
      split at hstep
      · rename_i w hs
        obtain rfl := Option.some.inj hstep
        refine ⟨?_, fun hasleep => WaitHwStage.noConfusion hasleep⟩
        have halive := h.alive
        simp only [wokenPrc, hs] at halive
        show s.alivePrc + w + 0 = (s.alives : Int)
        omega
      · cases hstep

/-! ### Asleep for good -/

/-- The store of the waker leaves the scheduler stuck unless it is in time. -/
theorem not_stuck_registerWaker (hstep : s.step .registerWaker = some s') :
    ¬ Stuck s' ↔ s.alivePrc ≠ 0 ∨ s.notified = true ∨ s.Helped := by
  simp only [WaitHw.step, Option.ite_none_right_eq_some, Option.some.injEq] at hstep
  obtain ⟨-, rfl⟩ := hstep
  constructor
  · intro hfree
    by_contra hlate
    obtain ⟨hended, hlate⟩ := not_or.mp hlate
    obtain ⟨hsilent, hun⟩ := not_or.mp hlate
    exact hfree ⟨rfl, not_not.mp hended, Bool.eq_false_iff.mpr hsilent, hun⟩
  · rintro hin ⟨-, hended, hsilent, hun⟩
    rcases hin with hcount | hnotified | hhelped
    · exact hcount hended
    · cases hsilent.symm.trans hnotified
    · exact hun hhelped

/-- No other step does. -/
theorem not_stuck_step (h : Inv s) (hstep : s.step a = some s') (ha : a ≠ .registerWaker) :
    ¬ Stuck s' := by
  intro hstuck
  cases a with
  | registerWaker => exact ha rfl
  | registerNewPrc p =>
      simp only [WaitHw.step, Option.ite_none_right_eq_some, Option.some.injEq] at hstep
      obtain ⟨-, rfl⟩ := hstep
      have halive := h.alive_of_asleep hstuck.asleep
      have hended : s.alivePrc + 1 = 0 := hstuck.ended
      omega
  | unregisterPrc p | pushOrder p | lockPrc p free =>
      simp only [WaitHw.step, Option.ite_none_right_eq_some, Option.some.injEq] at hstep
      obtain ⟨-, rfl⟩ := hstep
      exact not_stuck_fetchAdd (d := -1) hstuck
  | unlockPrc p =>
      simp only [WaitHw.step, Option.ite_none_right_eq_some, Option.some.injEq] at hstep
      obtain ⟨-, rfl⟩ := hstep
      exact not_stuck_fetchAdd (d := 1) hstuck
  | release p q =>
      simp only [WaitHw.step, Option.ite_none_right_eq_some, Option.some.injEq] at hstep
      obtain ⟨-, rfl⟩ := hstep
      exact hstuck.unhelped ⟨q, Or.inr (Function.update_self _ _ _)⟩
  | takeWaker p =>
      -- The cell was full: the process comes away with the waker, or another one has it.
      have hinv := h.step hstep
      simp only [WaitHw.step, Option.ite_none_right_eq_some] at hstep
      obtain ⟨hp, hstep⟩ := hstep
      by_cases hcell : s.waker = true
      · rw [if_pos hcell] at hstep
        obtain rfl := Option.some.inj hstep
        refine hstuck.unhelped ⟨p, Or.inl ?_⟩
        show Function.update s.waking p .call p ≠ .no
        rw [Function.update_self]
        exact Waking.noConfusion
      · rw [if_neg hcell] at hstep
        obtain rfl := Option.some.inj hstep
        obtain ⟨q, hq⟩ := (hinv.armed hstuck.asleep hstuck.silent).resolve_left hcell
        refine hstuck.unhelped ⟨q, Or.inl ?_⟩
        rw [hq]
        exact Waking.noConfusion
  | wakeByRef p =>
      simp only [WaitHw.step, Option.ite_none_right_eq_some, Option.some.injEq] at hstep
      obtain ⟨-, rfl⟩ := hstep
      exact Bool.noConfusion hstuck.silent
  | startWait | advance | rouse | timeout =>
      simp only [WaitHw.step, Option.ite_none_right_eq_some, Option.some.injEq] at hstep
      obtain ⟨-, rfl⟩ := hstep
      exact WaitHwStage.noConfusion hstuck.asleep
  | load =>
      simp only [WaitHw.step, Option.ite_none_right_eq_some] at hstep
      obtain ⟨-, hstep⟩ := hstep
      split at hstep
      · obtain rfl := Option.some.inj hstep
        exact WaitHwStage.noConfusion hstuck.asleep
      · obtain rfl := Option.some.inj hstep
        exact WaitHwStage.noConfusion hstuck.asleep
  | wakePrc p =>
      simp only [WaitHw.step] at hstep
      split at hstep
      · simp only [Option.ite_none_right_eq_some, Option.some.injEq] at hstep
        obtain ⟨-, rfl⟩ := hstep
        exact WaitHwStage.noConfusion hstuck.asleep
      · cases hstep
  | endWake =>
      simp only [WaitHw.step] at hstep
      split at hstep
      · obtain rfl := Option.some.inj hstep
        exact WaitHwStage.noConfusion hstuck.asleep
      · cases hstep

/-- Once stuck, the scheduler stays so until the timeout, or until somebody from outside registers a
process. -/
theorem Stuck.only_timeout (h : Inv s) (hstuck : Stuck s) (hstep : s.step a = some s') :
    a = .timeout ∨ ∃ p, a = .registerNewPrc p := by
  have halives : s.alives = 0 := by
    have halive := h.alive_of_asleep hstuck.asleep
    have hended := hstuck.ended
    omega
  have hidle : ∀ p, s.waking p = .no ∧ s.place p ≠ .granted ∧ s.place p ≠ .alive := by
    intro p
    have hp := not_exists.mp hstuck.unhelped p
    obtain ⟨hwaking, hgranted⟩ := not_or.mp hp
    refine ⟨not_not.mp hwaking, hgranted, ?_⟩
    have hcount := tally_eq_zero_iff.mp halives p
    intro hp
    rw [hp] at hcount
    cases hcount
  cases a with
  | timeout => exact Or.inl rfl
  | registerNewPrc p => exact Or.inr ⟨p, rfl⟩
  | rouse =>
      have hsilent := hstuck.silent
      simp [WaitHw.step, hsilent] at hstep
  | unregisterPrc p | pushOrder p | lockPrc p _ | release p _ | unlockPrc p | takeWaker p
    | wakeByRef p =>
      obtain ⟨hwaking, hgranted, halive⟩ := hidle p
      simp [WaitHw.step, Free, hwaking, hgranted, halive] at hstep
  | startWait | load | registerWaker | advance | wakePrc _ | endWake =>
      have hasleep := hstuck.asleep
      simp [WaitHw.step, hasleep] at hstep

/-- **The end of a delta-cycle wakes the scheduler.**  In no state of a run is the scheduler left
asleep with nobody to wake it, exactly when every store of its waker is in time. -/
theorem never_asleep_for_good_iff {acts : List (Act n)}
    (hrun : Runs.run step (init n) acts = some s) :
    (∀ pre post s', acts = pre ++ post → Runs.run step (init n) pre = some s' → ¬ Stuck s') ↔
      Runs.Along step RegistersInTime (init n) acts := by
  refine Runs.holds_iff_along (fun s a s' h hstep => h.step hstep) ?_ init_inv ?_ hrun
  · intro s a s' h _ hstep
    by_cases ha : a = .registerWaker
    · subst ha
      rw [not_stuck_registerWaker hstep]
      exact ⟨fun h _ => h, fun h => h rfl⟩
    · exact ⟨fun _ hstore => absurd hstore ha, fun _ => not_stuck_step h hstep ha⟩
  · exact fun h => WaitHwStage.noConfusion h.asleep

/-- The only process halts after the store, and the scheduler sees the end. -/
theorem halted_after : ∃ acts s, acts = [.registerNewPrc 0, .startWait, .load, .registerWaker,
      .pushOrder 0, .takeWaker 0, .wakeByRef 0, .rouse, .load] ∧
    Runs.run step (init 1) acts = some s ∧ Runs.Along step RegistersInTime (init 1) acts ∧
    ∀ pre post s', acts = pre ++ post → Runs.run step (init 1) pre = some s' → ¬ Stuck s' :=
  ⟨_, _, rfl, rfl, by decide, (never_asleep_for_good_iff rfl).mpr (by decide)⟩

/-- The only process halts between the load and the store. -/
theorem halted_between : ∃ s : WaitHw 1,
    Runs.run step (init 1)
      [.registerNewPrc 0, .startWait, .load, .pushOrder 0, .takeWaker 0, .registerWaker] = some s ∧
      Stuck s := by
  refine ⟨_, rfl, rfl, rfl, rfl, ?_⟩
  rintro ⟨p, hp⟩
  obtain rfl := Subsingleton.elim p 0
  revert hp
  decide

end WaitHw

end Ra2m
