/-
When the packets forwarded through one port overlap.

The tick a packet is ready at is fixed when its delay is appended, before the process has
the port, so the time it waits for the port is taken off the time it holds it.  A packet
that has the port leaves at the later of the tick it got the port and the tick it is
ready: the previous packet is a whole delay away exactly when the delay only started to
count after that packet had left, or the port was obtained that much later.  A packet
that is blocked by a full channel leaves when there is room.
-/
import Ra2m.Sim.PortTx
import Ra2m.Lib.Runs

namespace Ra2m

namespace PortTx

variable {T : Type}

/-- Each packet has left its delay after the one before it, or later. -/
def Serialised (s : PortTx T) : Prop :=
  s.log.IsChain fun next prev => prev.left + next.delay ≤ next.left

/-- The packet that leaves next is a whole delay away from the last one: its delay counts from no
earlier tick than that one left at, or it obtained the port a delay later; a packet that had to wait
for room is held back for as long. -/
def Spaced (s : PortTx T) : PortTxAct T → Prop
  | .send => ∀ h ∈ s.holder, s.channel.hasRoom = true → ∀ prev ∈ s.log.head?,
      prev.left ≤ h.call.base ∨ prev.left + h.call.delay ≤ h.obtained
  | .unblock => ∀ h ∈ s.holder, ∀ prev ∈ s.log.head?, prev.left + h.call.delay ≤ s.now
  | _ => True

instance (s : PortTx T) : (a : PortTxAct T) → Decidable (s.Spaced a)
  | .send => inferInstanceAs (Decidable (∀ h ∈ s.holder, _))
  | .unblock => inferInstanceAs (Decidable (∀ h ∈ s.holder, _))
  | .forward _ _ => isTrue trivial
  | .obtain _ => isTrue trivial
  | .accountDelay => isTrue trivial
  | .wake => isTrue trivial
  | .unlock => isTrue trivial
  | .recv => isTrue trivial
  | .advance _ => isTrue trivial

/-- The packet of a call is timed, and its delay is appended. -/
def FwdCall.Appended (call : FwdCall T) : Prop :=
  call.pkt.timed = true ∧ call.pkt.readyAt = call.base + call.delay

/-- The tick at which a call with the port stands. -/
def TxHolder.OnTime (now : Tick) (log : List Departure) (h : TxHolder T) : Prop :=
  h.stage = .sent ∨
    (∀ prev ∈ log.head?, prev.left ≤ h.obtained) ∧
      match h.stage with
      | .locked => now = h.obtained
      | .asleep wake => wake = max h.obtained h.call.pkt.readyAt ∧ now ≤ wake
      | .sending => now = max h.obtained h.call.pkt.readyAt
      | _ => True

structure Holds (s : PortTx T) : Prop where
  waiting : ∀ call ∈ s.waiting, FwdCall.Appended call
  appended : ∀ h ∈ s.holder, FwdCall.Appended h.call
  onTime : ∀ h ∈ s.holder, TxHolder.OnTime s.now s.log h
  past : ∀ prev ∈ s.log.head?, prev.left ≤ s.now

namespace Holds

variable {s s' : PortTx T}

theorem init (now : Tick) (pktInflight : Nat) (pos : 0 < pktInflight) :
    (init now pktInflight pos : PortTx T).Holds where
  waiting := by simp [PortTx.init]
  appended := by simp [PortTx.init]
  onTime := by simp [PortTx.init]
  past := by simp [PortTx.init]

theorem move (h : s.Holds) {holder : TxHolder T} (hholder : s.holder = some holder)
    {stage : TxStage} (htime : TxHolder.OnTime s.now s.log { holder with stage }) :
    (s.move holder stage).Holds where
  waiting := h.waiting
  appended := by
    intro h' hh'
    obtain rfl := Option.some.inj hh'
    exact h.appended holder hholder
  onTime := by
    intro h' hh'
    obtain rfl := Option.some.inj hh'
    exact htime
  past := h.past

theorem depart (h : s.Holds) {holder : TxHolder T} (hholder : s.holder = some holder)
    (channel : BoundedQueue (Packet T)) : (s.depart holder channel).Holds where
  waiting := h.waiting
  appended := by
    intro h' hh'
    obtain rfl := Option.some.inj hh'
    exact h.appended holder hholder
  onTime := by
    intro h' hh'
    obtain rfl := Option.some.inj hh'
    exact .inl rfl
  past := by
    intro prev hprev
    obtain rfl := Option.some.inj hprev
    exact Nat.le_refl _

/-- What `account_delay` makes of the call that has just obtained the port. -/
theorem accountDelay (h : s.Holds) {holder : TxHolder T} (hholder : s.holder = some holder)
    (hstage : holder.stage = .locked) (hs : s.step .accountDelay = some s') : s'.Holds := by
  have happ := h.appended holder hholder
  rcases h.onTime holder hholder with hsent | ⟨hprev, hnow⟩
  · rw [hstage] at hsent
    cases hsent
  · rw [hstage] at hnow
    change s.now = holder.obtained at hnow
    simp only [step, hholder, hstage, if_true, Packet.accountDelay, Packet.handleDelay, happ.1,
      Bool.true_and, decide_eq_true_eq] at hs
    by_cases hready : holder.call.pkt.readyAt > s.now
    · rw [if_pos hready] at hs
      obtain rfl := Option.some.inj hs
      refine h.move hholder (.inr ⟨hprev, ?_⟩)
      have hwake : wakeTick s.now holder.call.pkt.readyAt = holder.call.pkt.readyAt :=
        Nat.max_eq_right hready
      change wakeTick s.now holder.call.pkt.readyAt = max holder.obtained _ ∧ s.now ≤ _
      rw [hwake, ← hnow]
      exact ⟨(Nat.max_eq_right (Nat.le_of_lt hready)).symm, Nat.le_of_lt hready⟩
    · rw [if_neg hready] at hs
      obtain rfl := Option.some.inj hs
      refine h.move hholder (.inr ⟨hprev, ?_⟩)
      change s.now = max holder.obtained holder.call.pkt.readyAt
      rw [← hnow]
      exact (Nat.max_eq_left (Nat.le_of_not_gt hready)).symm

/-- The clock moves on while no process can. -/
theorem advance (h : s.Holds) {t : Tick} (hlt : s.now < t) (hcan : s.canAdvance t = true) :
    { s with now := t }.Holds where
  waiting := h.waiting
  appended := h.appended
  onTime := by
    intro holder hholder
    rcases h.onTime holder hholder with hsent | ⟨hprev, hnow⟩
    · exact .inl hsent
    · refine .inr ⟨hprev, ?_⟩
      obtain ⟨call, obtained, stage⟩ := holder
      change s.holder = _ at hholder
      simp only [canAdvance, hholder] at hcan
      cases stage with
      | locked => cases hcan
      | asleep wake => exact ⟨hnow.1, of_decide_eq_true hcan⟩
      | sending => cases hcan
      | blocked => trivial
      | sent => trivial
  past := fun prev hprev => (h.past prev hprev).trans hlt.le

/-- A waiting call obtains the port. -/
theorem obtain (h : s.Holds) {i : Nat} {call : FwdCall T} (hcall : s.waiting[i]? = some call) :
    { s with waiting := s.waiting.eraseIdx i, holder := some ⟨call, s.now, .locked⟩ }.Holds where
  waiting := fun c hc => h.waiting c (List.mem_of_mem_eraseIdx hc)
  appended := by
    intro h' hh'
    obtain rfl := Option.some.inj hh'
    exact h.waiting call (List.mem_of_getElem? hcall)
  onTime := by
    intro h' hh'
    obtain rfl := Option.some.inj hh'
    exact .inr ⟨h.past, rfl⟩
  past := h.past

theorem step (h : s.Holds) {a : PortTxAct T} (hs : s.step a = some s') : s'.Holds := by
  cases a with
  | forward pkt delay =>
      simp only [PortTx.step] at hs
      split at hs
      · rename_i htimed
        obtain rfl := Option.some.inj hs
        refine ⟨?_, h.appended, h.onTime, h.past⟩
        intro call hcall
        rcases List.mem_append.mp hcall with hcall | hcall
        · exact h.waiting call hcall
        · obtain rfl := List.mem_singleton.mp hcall
          exact ⟨htimed, rfl⟩
      · cases hs
  | obtain i =>
      simp only [PortTx.step] at hs
      split at hs
      · rename_i call _ hcall
        obtain rfl := Option.some.inj hs
        exact h.obtain hcall
      · cases hs
  | accountDelay =>
      cases hholder : s.holder with
      | none => simp [PortTx.step, hholder] at hs
      | some holder =>
          by_cases hstage : holder.stage = .locked
          · exact h.accountDelay hholder hstage hs
          · simp [PortTx.step, hholder, hstage] at hs
  | wake =>
      simp only [PortTx.step] at hs
      split at hs
      · rename_i holder hholder
        split at hs
        · rename_i wake hstage
          split at hs
          · rename_i hdue
            obtain rfl := Option.some.inj hs
            rcases h.onTime holder hholder with hsent | ⟨hprev, hnow⟩
            · rw [hstage] at hsent
              cases hsent
            · rw [hstage] at hnow
              obtain ⟨hwake, hle⟩ := hnow
              refine h.move hholder (.inr ⟨hprev, ?_⟩)
              exact (Nat.le_antisymm hle hdue).trans hwake
          · cases hs
        · cases hs
      · cases hs
  | send =>
      simp only [PortTx.step] at hs
      split at hs
      · rename_i holder hholder
        split at hs
        · rename_i hstage
          split at hs
          · rename_i channel _
            obtain rfl := Option.some.inj hs
            exact h.depart hholder channel
          · obtain rfl := Option.some.inj hs
            rcases h.onTime holder hholder with hsent | ⟨hprev, -⟩
            · rw [hstage] at hsent
              cases hsent
            · exact h.move hholder (.inr ⟨hprev, trivial⟩)
        · cases hs
      · cases hs
  | unblock =>
      simp only [PortTx.step] at hs
      split at hs
      · rename_i holder hholder
        split at hs
        · obtain ⟨channel, -, rfl⟩ := Option.map_eq_some_iff.mp hs
          exact h.depart hholder channel
        · cases hs
      · cases hs
  | unlock =>
      simp only [PortTx.step] at hs
      split at hs
      · split at hs
        · obtain rfl := Option.some.inj hs
          exact ⟨h.waiting, by simp, by simp, h.past⟩
        · cases hs
      · cases hs
  | recv =>
      obtain ⟨_, -, rfl⟩ := Option.map_eq_some_iff.mp hs
      exact ⟨h.waiting, h.appended, h.onTime, h.past⟩
  | advance t =>
      simp only [PortTx.step] at hs
      split at hs
      · rename_i ht
        obtain rfl := Option.some.inj hs
        exact h.advance ht.1 ht.2
      · cases hs

/-- A packet that finds room leaves at the later of the tick it obtained the port and the tick it is
ready. -/
theorem now_of_sending (h : s.Holds) {holder : TxHolder T} (hholder : s.holder = some holder)
    (hstage : holder.stage = .sending) :
    s.now = max holder.obtained (holder.call.base + holder.call.delay) ∧
      ∀ prev ∈ s.log.head?, prev.left ≤ holder.obtained := by
  rcases h.onTime holder hholder with hsent | ⟨hprev, hnow⟩
  · rw [hstage] at hsent
    cases hsent
  · rw [hstage] at hnow
    rw [← (h.appended holder hholder).2]
    exact ⟨hnow, hprev⟩

end Holds

/-! ### What a departure does to the log -/

section

variable {s s' : PortTx T}

theorem serialised_depart (hlog : s.Serialised) (holder : TxHolder T)
    (channel : BoundedQueue (Packet T)) :
    (s.depart holder channel).Serialised ↔
      ∀ prev ∈ s.log.head?, prev.left + holder.call.delay ≤ s.now := by
  unfold Serialised depart
  rw [List.isChain_cons]
  exact and_iff_left hlog

theorem serialised_frame (hlog : s.Serialised) (h : s'.log = s.log) : s'.Serialised := by
  unfold Serialised
  rw [h]
  exact hlog

/-- Only a packet that is put on the channel enters the log. -/
theorem step_log {a : PortTxAct T} (hs : s.step a = some s') (hsend : a ≠ .send)
    (hunblock : a ≠ .unblock) : s'.log = s.log := by
  cases a with
  | send => exact absurd rfl hsend
  | unblock => exact absurd rfl hunblock
  | forward pkt delay =>
      simp only [step] at hs
      split at hs
      · obtain rfl := Option.some.inj hs
        rfl
      · cases hs
  | obtain i =>
      simp only [step] at hs
      split at hs
      · obtain rfl := Option.some.inj hs
        rfl
      · cases hs
  | accountDelay =>
      simp only [step] at hs
      split at hs
      · split at hs
        · split at hs
          · obtain rfl := Option.some.inj hs
            rfl
          · obtain rfl := Option.some.inj hs
            rfl
        · cases hs
      · cases hs
  | wake =>
      simp only [step] at hs
      split at hs
      · split at hs
        · split at hs
          · obtain rfl := Option.some.inj hs
            rfl
          · cases hs
        · cases hs
      · cases hs
  | unlock =>
      simp only [step] at hs
      split at hs
      · split at hs
        · obtain rfl := Option.some.inj hs
          rfl
        · cases hs
      · cases hs
  | recv =>
      obtain ⟨_, -, rfl⟩ := Option.map_eq_some_iff.mp hs
      rfl
  | advance t =>
      simp only [step] at hs
      split at hs
      · obtain rfl := Option.some.inj hs
        rfl
      · cases hs

theorem add_le_max_add_iff (left delay obtained base : Nat) :
    left + delay ≤ max obtained (base + delay) ↔ left ≤ base ∨ left + delay ≤ obtained := by
  omega

theorem serialised_send (h : s.Holds) (hlog : s.Serialised) (hs : s.step .send = some s') :
    s'.Serialised ↔ s.Spaced .send := by
  simp only [step] at hs
  split at hs
  · rename_i holder hholder
    split at hs
    · rename_i hstage
      split at hs
      · rename_i channel hsend
        obtain rfl := Option.some.inj hs
        obtain ⟨hnow, hprev⟩ := h.now_of_sending hholder hstage
        obtain ⟨hroom, -, -⟩ := BoundedQueue.trySend_eq_some hsend
        rw [serialised_depart hlog, hnow]
        simp only [add_le_max_add_iff]
        constructor
        · intro hleft h' hh' _ prev hp
          obtain rfl := Option.some.inj (hholder.symm.trans hh')
          exact hleft prev hp
        · intro hspaced prev hp
          exact hspaced holder hholder hroom prev hp
      · -- the channel is full: nothing leaves
        rename_i hfull
        obtain rfl := Option.some.inj hs
        refine ⟨fun _ => ?_, fun _ => serialised_frame hlog rfl⟩
        intro h' _ hroom
        rw [BoundedQueue.trySend_eq_none_iff.mp hfull] at hroom
        cases hroom
    · cases hs
  · cases hs

theorem serialised_unblock (hlog : s.Serialised) (hs : s.step .unblock = some s') :
    s'.Serialised ↔ s.Spaced .unblock := by
  simp only [step] at hs
  split at hs
  · rename_i holder hholder
    split at hs
    · obtain ⟨channel, -, rfl⟩ := Option.map_eq_some_iff.mp hs
      rw [serialised_depart hlog]
      constructor
      · intro hleft h' hh' prev hp
        obtain rfl := Option.some.inj (hholder.symm.trans hh')
        exact hleft prev hp
      · intro hspaced prev hp
        exact hspaced holder hholder prev hp
    · cases hs
  · cases hs

/-- A step keeps the packets apart exactly when the packet that leaves with it is spaced. -/
theorem serialised_step (h : s.Holds) (hlog : s.Serialised) {a : PortTxAct T}
    (hs : s.step a = some s') : s'.Serialised ↔ s.Spaced a := by
  cases a with
  | send => exact serialised_send h hlog hs
  | unblock => exact serialised_unblock hlog hs
  | forward _ _ | obtain _ | accountDelay | wake | unlock | recv | advance _ =>
      exact ⟨fun _ => trivial, fun _ => serialised_frame hlog (step_log hs (by simp) (by simp))⟩

end

/-- In a run, every packet leaves its delay after the one before it exactly when each of them is
spaced as it leaves. -/
theorem serialised_iff {now : Tick} {pktInflight : Nat} (pos : 0 < pktInflight)
    {acts : List (PortTxAct T)} {s₁ : PortTx T}
    (hrun : Runs.run step (init now pktInflight pos) acts = some s₁) :
    (∀ pre post s, acts = pre ++ post → Runs.run step (init now pktInflight pos) pre = some s →
      s.Serialised) ↔ Runs.Along step Spaced (init now pktInflight pos) acts :=
  Runs.holds_iff_along (fun _ _ _ h hs => h.step hs)
    (fun _ _ _ h hlog hs => serialised_step h hlog hs) (Holds.init now pktInflight pos)
    List.IsChain.nil hrun

/-- A packet is forwarded with a delay of 10, and the next one after it has left. -/
def oneByOne : List (PortTxAct Unit) :=
  [.forward { uid := 0, payload := () } 10, .obtain 0, .accountDelay, .advance 10, .wake, .send,
    .unlock, .forward { uid := 1, payload := (), readyAt := 10 } 10, .obtain 0, .accountDelay,
    .advance 20, .wake, .send, .unlock]

theorem serialised_oneByOne : ∃ s, Runs.run step (init 0 2 Nat.two_pos) oneByOne = some s ∧
    s.log.length = 2 ∧ s.Serialised := by
  have hrun : Runs.run step (init 0 2 Nat.two_pos) oneByOne = some _ := rfl
  refine ⟨_, hrun, rfl, ?_⟩
  exact (serialised_iff Nat.two_pos hrun).mpr (by decide) oneByOne [] _ rfl hrun

/-- Two packets are forwarded at tick 0 with a delay of 10 each. -/
def atOnce : List (PortTxAct Unit) :=
  [.forward { uid := 0, payload := () } 10, .forward { uid := 1, payload := () } 10, .obtain 0,
    .accountDelay, .advance 10, .wake, .send, .unlock, .obtain 0, .accountDelay, .send]

/-- The second one has waited its delay for the port, and leaves with the first. -/
theorem atOnce_not_serialised : ∃ s, Runs.run step (init 0 2 Nat.two_pos) atOnce = some s ∧
    s.log = [⟨10, 10⟩, ⟨10, 10⟩] ∧ ¬ s.Serialised := by
  refine ⟨_, rfl, rfl, ?_⟩
  unfold Serialised
  decide

end PortTx

end Ra2m
