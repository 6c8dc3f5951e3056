/-
When a Dma that ran out of slots goes on.

`request_layer` waits for `slot_freed` when no slot is free, and `forward_layer` gives
slots back without triggering it.  So a slot given back while `request_layer` is
blocked leaves it blocked for good, with a free slot in the pool; the same happens
when the slot comes back between the look at the pool and the wait.  A run has no
such state exactly when neither happens.
-/
import Ra2m.Proofs.DmaSlots

namespace Ra2m

open Runs

namespace DmaRun

/-- `request_layer` is blocked with a free slot in the pool and nothing to wake it. -/
def Stuck (s : DmaRun) : Prop :=
  s.request = .waiting ∧ s.inner.availId ≠ [] ∧ s.notified = false

/-- The wait starts while no slot is free, and no slot is given back while `request_layer` is
blocked and not notified. -/
def Roused (s : DmaRun) : DmaAct → Prop
  | .startWait => s.inner.availId = []
  | .forward _ => ∀ f, s.forward = .received f → EndsTransfer f.pkt.payload →
      s.request = .waiting → s.notified = true
  | _ => True

/-- Only a blocked `request_layer` is notified. -/
def Attentive (s : DmaRun) : Prop := s.notified = true → s.request = .waiting

variable {n uid : Nat} {s s' : DmaRun}

theorem Stuck.congr (hreq : s'.request = s.request) (hinner : s'.inner = s.inner)
    (hnot : s'.notified = s.notified) : s'.Stuck ↔ s.Stuck := by
  unfold Stuck
  rw [hreq, hinner, hnot]

theorem not_stuck_of_request (h : s.request ≠ .waiting) : ¬ s.Stuck := fun hstuck => h hstuck.1

theorem attentive_step (h : s.Attentive) {a : DmaAct} (hs : step uid s a = some s') :
    s'.Attentive := by
  unfold step at hs
  split at hs
  · cases hs
  cases a with
  | notify =>
      simp only [act] at hs
      split at hs
      · rename_i hreq
        obtain rfl := Option.some.inj hs
        exact fun _ => hreq
      · cases hs
  | wake =>
      simp only [act] at hs
      split at hs
      · split at hs
        · obtain rfl := Option.some.inj hs
          exact fun hnot => by cases hnot
        · cases hs
      · cases hs
  | _ =>
      -- No other action notifies, or takes a blocked `request_layer` on.
      simp only [act] at hs
      repeat' split at hs
      all_goals cases hs
      all_goals simp_all [Attentive]

/-- A step that keeps the run out of `Stuck` is one that rouses. -/
theorem not_stuck_iff_roused (h : Inv n s ∧ s.Attentive) (hstuck : ¬ s.Stuck) {a : DmaAct}
    (hs : step uid s a = some s') : ¬ s'.Stuck ↔ s.Roused a := by
  obtain ⟨hinv, hatt⟩ := h
  have hact := hs
  rw [step_eq hinv.panic] at hact
  cases a with
  | startWait =>
      simp only [act] at hact
      split at hact
      · rename_i hreq
        obtain rfl := Option.some.inj hact
        have hnot : s.notified = false := by
          by_contra hne
          have hwait := hatt (by simpa using hne)
          rw [hreq] at hwait
          cases hwait
        constructor
        · intro hs'
          by_contra hne
          exact hs' ⟨rfl, hne, hnot⟩
        · rintro hnil ⟨-, hne, -⟩
          exact hne hnil
      · cases hact
  | forward t =>
      obtain ⟨f, hfwd, ⟨hcont, pkt, -, rfl⟩ | ⟨hend, pkt, -, rfl⟩⟩ := hinv.forward_cases hact
      · refine ⟨fun _ g hg hendg => ?_, fun _ => hstuck⟩
        obtain rfl := ForwardStage.received.inj (hfwd.symm.trans hg)
        exact absurd hendg hcont
      · constructor
        · intro hs' g _ _ hwait
          by_contra hne
          exact hs' ⟨hwait, by simp, by simpa using hne⟩
        · rintro hroused ⟨hwait, -, hnot⟩
          have htrue := hroused f hfwd hend hwait
          rw [show s.notified = false from hnot] at htrue
          cases htrue
  | notify =>
      simp only [act] at hact
      split at hact
      · obtain rfl := Option.some.inj hact
        refine ⟨fun _ => trivial, ?_⟩
        rintro - ⟨-, -, hnot⟩
        cases hnot
      · cases hact
  | _ =>
      -- What is left changes nothing `Stuck` looks at, or leaves `request_layer` elsewhere.
      refine ⟨fun _ => trivial, fun _ => ?_⟩
      simp only [act] at hact
      repeat' split at hact
      all_goals cases hact
      all_goals first
        | exact hstuck
        | exact not_stuck_of_request (by simp_all)

/-- In a run `request_layer` is never stuck if and only if it starts each wait while no slot is free
and no slot is given back while it is blocked without a notification. -/
theorem never_stuck_iff {acts : List DmaAct} {s₁ : DmaRun}
    (hrun : run (step uid) (init n) acts = some s₁) :
    (∀ pre post s, acts = pre ++ post → run (step uid) (init n) pre = some s → ¬ s.Stuck) ↔
      Along (step uid) Roused (init n) acts := by
  refine holds_iff_along (fun s a s' hI hs => ⟨inv_step hI.1 hs, attentive_step hI.2 hs⟩)
    (fun s a s' hI hstuck hs => not_stuck_iff_roused hI hstuck hs) ⟨Inv.init n, ?_⟩ ?_ hrun
  · exact fun hnot => by cases hnot
  · exact not_stuck_of_request (fun heq => by cases heq)

theorem never_stuck_iff_oneTransfer : ∃ s, run (step 0) (init 1) oneTransfer = some s ∧
    ((∀ pre post s, oneTransfer = pre ++ post →
        run (step 0) (init 1) pre = some s → ¬ s.Stuck) ↔
      Along (step 0) Roused (init 1) oneTransfer) := by
  obtain ⟨s, hrun, -⟩ := oneTransfer_runs
  exact ⟨s, hrun, never_stuck_iff hrun⟩

/-- The transfer of `oneTransfer` on the only slot, with `request_layer` looking for another slot
while it is in flight. -/
def fullPool : List DmaAct :=
  oneTransfer.take 5 ++ [.look, .startWait] ++ oneTransfer.drop 5

/-- The transfer ends, its slot is free, and `request_layer` stays blocked. -/
theorem fullPool_stuck : ∃ s, run (step 0) (init 1) fullPool = some s ∧ s.Stuck :=
  ⟨_, rfl, rfl, List.cons_ne_nil _ _, rfl⟩

end DmaRun

end Ra2m
