/-
Which transfers are completed in the tick in which they become possible.

The side of a channel that makes a transfer possible yields once and goes on; it is the
other side that counts the unlock event, and only when it is polled again.  So by the
time the loop reads the counters the event and the process it stands for have both been
counted, and the counters hold nothing back (`Inv.evt`): what holds the loop back is
that the side that yielded is still alive.

A transfer is therefore left for a later tick exactly when the last alive process stops
before a blocked process that can go on has been polled.  `LastStop` excludes it, step
by step.  The invariant behind it is that no blocked process can go on while the loop
could pass its wait.
-/
import Ra2m.Sim.Channel
import Ra2m.Proofs.KernelInv

namespace Ra2m

open Runs

/-! ### What a call leaves of the locks -/

namespace System

variable {s s' : System} {c : Call}

theorem pushOrder_unlockedPrc (self : SchedulerAPI) (order : Order Pid) :
    (self.pushOrder order).unlockedPrc = self.unlockedPrc := by
  unfold SchedulerAPI.pushOrder
  split
  · rfl
  · rfl

/-- A call that is not about a lock leaves the locked processes and the unlock counter alone. -/
theorem step_locks (h : s.step c = some s') (hc : ∀ p, c ≠ .lock p ∧ c ≠ .unlock p) :
    s'.locked = s.locked ∧ s'.api.unlockedPrc = s.api.unlockedPrc := by
  cases c with
  | register p | unregister p | clearEvents =>
      simp only [step, Option.ite_none_right_eq_some, Option.some.injEq] at h
      obtain ⟨-, rfl⟩ := h
      exact ⟨rfl, rfl⟩
  | waitUntil p t | waitOn p evt =>
      simp only [step, Option.ite_none_right_eq_some, Option.some.injEq] at h
      obtain ⟨-, rfl⟩ := h
      exact ⟨rfl, pushOrder_unlockedPrc _ _⟩
  | notifyAt t evt =>
      obtain rfl := Option.some.inj h
      exact ⟨rfl, pushOrder_unlockedPrc _ _⟩
  | lock p => exact absurd rfl (hc p).1
  | unlock p => exact absurd rfl (hc p).2
  | drain =>
      simp only [step] at h
      split at h
      · cases h
      · obtain rfl := Option.some.inj h
        exact ⟨rfl, rfl⟩
  | updateTick =>
      simp only [step] at h
      split at h
      · obtain rfl := Option.some.inj h
        exact ⟨rfl, rfl⟩
      · cases h
  | serve x | endWake =>
      simp only [step] at h
      split at h
      · simp only [Option.ite_none_right_eq_some, Option.some.injEq] at h
        obtain ⟨-, rfl⟩ := h
        exact ⟨rfl, rfl⟩
      · cases h

end System

theorem Act.isMove_of_isPlain {a : Act} (ha : a.isPlain = true) : a.isMove = true := by
  cases a with
  | spawn p | finish p | wait p evt | delay p wakeAt | notify t evt | poll p => rfl
  | _ => cases ha

theorem Act.isMove_ne_of_isLoop {a : Act} (ha : a.isLoop = true) : a.isMove ≠ true := by
  cases a with
  | drain | drained | again | updateTick | clearEvents | serve x | endWake =>
      exact Bool.false_ne_true
  | _ => cases ha

namespace Kernel

variable {k k' : Kernel} {a : Act} {p : Pid}

/-- The action makes its process stop: it is over, or suspended on a future. -/
def stops (k : Kernel) : Act → Bool
  | .finish _ => true
  | .wait p evt => !(k.ready p (.event evt)).1
  | .delay p wakeAt => !(k.ready p (.delay wakeAt)).1
  | _ => false

theorem start_locks {f : Future} (h : k.start p f = some k') :
    k'.sys.locked = k.sys.locked ∧ k'.sys.api.unlockedPrc = k.sys.api.unlockedPrc := by
  obtain ⟨-, ⟨-, rfl⟩ | ⟨-, hs⟩⟩ := start_cases h
  · exact ⟨rfl, rfl⟩
  · obtain ⟨-, rfl⟩ := suspend_eq hs
    exact ⟨rfl, System.pushOrder_unlockedPrc _ _⟩

/-- A move outside of port calls leaves the locks alone, and so does a step of the loop. -/
theorem step_locks (h : k.step a = some k') (ha : a.isPlain = true ∨ a.isLoop = true) :
    k'.sys.locked = k.sys.locked ∧ k'.sys.api.unlockedPrc = k.sys.api.unlockedPrc := by
  have hcall : ∀ {c : Call} {k₁ : Kernel}, k.call c = some k₁ →
      (∀ p, c ≠ .lock p ∧ c ≠ .unlock p) →
      k₁.sys.locked = k.sys.locked ∧ k₁.sys.api.unlockedPrc = k.sys.api.unlockedPrc := by
    intro c k₁ hk hc
    obtain ⟨s, hs, rfl⟩ := Option.map_eq_some_iff.1 hk
    exact System.step_locks hs hc
  cases a with
  | wait p evt | delay p wakeAt => exact start_locks h
  | poll p =>
      obtain ⟨-, f, -, ⟨-, rfl⟩ | ⟨-, rfl⟩⟩ := poll_cases h
      · exact ⟨rfl, rfl⟩
      · exact ⟨rfl, rfl⟩
  | spawn p =>
      obtain ⟨k₁, hk, rfl⟩ := Option.map_eq_some_iff.1 h
      have hlocks := hcall hk (by simp)
      exact hlocks
  | finish p | drain | serve x => exact hcall (Option.ite_none_right_eq_some.1 h).2 (by simp)
  | notify t evt => exact hcall h (by simp)
  | updateTick | clearEvents | endWake =>
      obtain ⟨k₁, hk, rfl⟩ := Option.map_eq_some_iff.1 (Option.ite_none_right_eq_some.1 h).2
      have hlocks := hcall hk (by simp)
      exact hlocks
  | drained =>
      obtain ⟨-, -, s, -, rfl⟩ := step_stage h (Or.inr (Or.inl rfl))
      exact ⟨rfl, rfl⟩
  | again =>
      obtain ⟨-, -, s, -, rfl⟩ := step_stage h (Or.inr (Or.inr rfl))
      exact ⟨rfl, rfl⟩
  | cycleEnded | lock p | unlock p => simp [Act.isPlain, Act.isLoop] at ha

/-- A step of the loop is one after the end of the delta-cycle. -/
theorem loop_stage (h : k.step a = some k') (ha : a.isLoop = true) : k.stage ≠ .wait := by
  have hne : ∀ {x : Stage}, k.stage = x → x ≠ .wait → k.stage ≠ .wait := by
    rintro x rfl hx
    exact hx
  cases a with
  | drain | again | updateTick | clearEvents | serve x | endWake =>
      exact hne (Option.ite_none_right_eq_some.1 h).1 Stage.noConfusion
  | drained => exact hne (Option.ite_none_right_eq_some.1 h).1.1 Stage.noConfusion
  | _ => cases ha

/-- The first poll of a future stops its process or leaves it running. -/
theorem start_running {f : Future} (h : k.start p f = some k') :
    ((k.ready p f).1 = false ∧ p ∈ k.sys.running ∧ k'.sys.running = k.sys.running.erase p) ∨
      (k.ready p f).1 = true ∧ k'.sys.running = k.sys.running := by
  obtain ⟨-, ⟨hready, rfl⟩ | ⟨hready, hs⟩⟩ := start_cases h
  · exact Or.inr ⟨hready, rfl⟩
  · obtain ⟨hp, rfl⟩ := suspend_eq hs
    exact Or.inl ⟨hready, hp, rfl⟩

/-- A move outside of port calls stops its process, leaves it running, or makes it run. -/
theorem plain_running (h : k.step a = some k') (ha : a.isPlain = true) :
    (k.stops a = true ∧ ∃ p ∈ k.sys.running, k'.sys.running = k.sys.running.erase p) ∨
      k.stops a = false ∧
        (k'.sys.running = k.sys.running ∨ ∃ p, k'.sys.running = p :: k.sys.running) := by
  cases a with
  | spawn p =>
      obtain ⟨k₁, hk, rfl⟩ := Option.map_eq_some_iff.1 h
      obtain ⟨s, hs, rfl⟩ := Option.map_eq_some_iff.1 hk
      simp only [System.step, Option.ite_none_right_eq_some, Option.some.injEq] at hs
      obtain ⟨-, rfl⟩ := hs
      exact Or.inr ⟨rfl, Or.inr ⟨p, rfl⟩⟩
  | finish p =>
      obtain ⟨s, hs, rfl⟩ := Option.map_eq_some_iff.1 (Option.ite_none_right_eq_some.1 h).2
      simp only [System.step, Option.ite_none_right_eq_some, Option.some.injEq] at hs
      obtain ⟨hp, rfl⟩ := hs
      exact Or.inl ⟨rfl, p, hp, rfl⟩
  | wait p evt | delay p wakeAt =>
      rcases start_running h with ⟨hready, hp, hrun⟩ | ⟨hready, hrun⟩
      · exact Or.inl ⟨by simp [stops, hready], p, hp, hrun⟩
      · exact Or.inr ⟨by simp [stops, hready], Or.inl hrun⟩
  | notify t evt =>
      have hk : k.call (.notifyAt t evt) = some k' := h
      obtain ⟨s, hs, rfl⟩ := Option.map_eq_some_iff.1 hk
      obtain rfl := Option.some.inj hs
      exact Or.inr ⟨rfl, Or.inl rfl⟩
  | poll p =>
      obtain ⟨-, f, -, ⟨-, rfl⟩ | ⟨-, rfl⟩⟩ := poll_cases h
      · exact Or.inr ⟨rfl, Or.inl rfl⟩
      · exact Or.inr ⟨rfl, Or.inl rfl⟩
  | _ => cases ha

theorem lock_eq (h : k.step (.lock p) = some k') : p ∈ k.sys.running ∧
    k' = { k with sys := { k.sys with
      api := k.sys.api.lockPrc
      running := k.sys.running.erase p, locked := p :: k.sys.locked } } := by
  obtain ⟨s, hs, rfl⟩ := Option.map_eq_some_iff.1 (Option.ite_none_right_eq_some.1 h).2
  simp only [System.step, Option.ite_none_right_eq_some, Option.some.injEq] at hs
  obtain ⟨hp, rfl⟩ := hs
  exact ⟨hp, rfl⟩

theorem unlock_eq (h : k.step (.unlock p) = some k') : p ∈ k.sys.locked ∧
    k' = { k with sys := { k.sys with
      api := k.sys.api.unlockPrc
      locked := k.sys.locked.erase p, running := p :: k.sys.running } } := by
  obtain ⟨s, hs, rfl⟩ := Option.map_eq_some_iff.1 h
  simp only [System.step, Option.ite_none_right_eq_some, Option.some.injEq] at hs
  obtain ⟨hp, rfl⟩ := hs
  exact ⟨hp, rfl⟩

end Kernel

/-- The process has left the alive count and waits for the channel. -/
def PortCall.blocks {M : Type} : Option (PortCall M) → Bool
  | some (.sending _ _) => true
  | some (.receiving _) => true
  | _ => false

namespace Channels

variable {M : Type} {s s' : Channels M} {a : ChanAct M} {p : Pid}

/-- The action makes its process stop: it is over, suspended on a future, or blocked on a channel
that is full or empty. -/
def stops (s : Channels M) : ChanAct M → Bool
  | .prc a => s.kernel.stops a
  | .send _ c _ => !(s.queue c).hasRoom
  | .recv _ c => !(s.queue c).hasItem
  | _ => false

/-- What a step must meet: the last alive process stops only when no locked process can go on. -/
def LastStop (s : Channels M) (a : ChanAct M) : Prop :=
  s.api.alivePrc = 1 → s.stops a = true → ∀ p ∈ s.kernel.sys.locked, s.canGoOn p = false

instance (s : Channels M) (a : ChanAct M) : Decidable (s.LastStop a) :=
  inferInstanceAs (Decidable (_ → _ → _))

/-- The loop is past its wait for the end of the delta-cycle, or would be if it were polled. -/
def PastWait (s : Channels M) : Prop :=
  s.kernel.stage ≠ .wait ∨ ∃ s', s.step .pollLoop = some s' ∧ s'.kernel.stage ≠ .wait

/-- No process is blocked on a channel that has what it waits for. -/
def Quiet (s : Channels M) : Prop := ∀ p, s.canGoOn p = false

structure Inv (s : Channels M) : Prop where
  loop : Kernel.LoopInv s.kernel
  /-- Every unlock event is counted together with the process it stands for. -/
  evt : s.unlockEvt = s.api.unlockedPrc
  /-- So the loop never waits for it. -/
  point : s.waitPoint = .deltaCycle
  locked : ∀ p, PortCall.blocks (s.call p) = true → p ∈ s.kernel.sys.locked

theorem inv_init (now : Tick) (queue : Nat → BoundedQueue M) : Inv (init now queue) where
  loop := (Kernel.inv_init now).loop
  evt := rfl
  point := rfl
  locked p hp := by cases hp

theorem blocks_of_canGoOn (h : s.canGoOn p = true) : PortCall.blocks (s.call p) = true := by
  unfold canGoOn at h
  split at h
  · rename_i c pkt hcall
    rw [hcall]
    rfl
  · rename_i c hcall
    rw [hcall]
    rfl
  · cases h

theorem canGoOn_of_not_blocks (h : PortCall.blocks (s.call p) = false) : s.canGoOn p = false := by
  by_contra hcan
  rw [blocks_of_canGoOn (Bool.eq_true_of_not_eq_false hcan)] at h
  cases h

/-- Only locked processes are blocked on a channel. -/
theorem Inv.quiet_iff (h : Inv s) :
    s.Quiet ↔ ∀ p ∈ s.kernel.sys.locked, s.canGoOn p = false := by
  constructor
  · intro hquiet p _
    exact hquiet p
  · intro hlocked p
    by_contra hp
    have hcan := Bool.eq_true_of_not_eq_false hp
    exact hp (hlocked p (h.locked p (blocks_of_canGoOn hcan)))

/-- Between two polls the alive count is the number of running processes. -/
theorem Inv.alivePrc (h : Inv s) (hstage : s.kernel.stage = .wait) :
    s.api.alivePrc = s.kernel.sys.running.length := by
  have hcount := h.loop.counted.alivePrc
  have hidle : s.kernel.sys.wokenPrc = none :=
    h.loop.woken.2 (by rw [hstage]; exact Stage.noConfusion)
  rw [hidle] at hcount
  exact (Int.add_zero _).symm.trans hcount

theorem deltaCycleEnded_iff : s.api.deltaCycleEnded = true ↔ s.api.alivePrc = 0 := by
  unfold SchedulerAPI.deltaCycleEnded
  rw [beq_iff_eq]
  exact eq_comm

/-! ### The poll of the loop -/

/-- The poll leaves everything as it is or ends the delta-cycle. -/
theorem Inv.pollLoop_eq (h : Inv s) (hstage : s.kernel.stage = .wait) :
    s.pollLoop = some (if s.api.deltaCycleEnded = true then
      { s with
        kernel := { s.kernel with
          sys := { s.kernel.sys with api := { s.api with unlockedPrc := 0 } }
          stage := .drain }
        unlockEvt := 0 }
      else s) := by
  unfold pollLoop
  rw [h.point]
  simp only [waitDeltaCycle]
  by_cases hended : s.api.deltaCycleEnded = true
  · have hkernel : s.kernel.step .cycleEnded = some { s.kernel with stage := .drain } :=
      if_pos ⟨hstage, hended⟩
    have hcycle : s.endCycle = some { s with
        kernel := { s.kernel with
          sys := { s.kernel.sys with api := { s.api with unlockedPrc := 0 } }
          stage := .drain }
        unlockEvt := 0
        waitPoint := .deltaCycle } := by
      unfold endCycle
      rw [hkernel]
      rfl
    -- Both reads of the counters agree, so neither wait suspends the loop.
    have hresolved : s.waitUnlocked s.unlockEvt = s.endCycle := by
      unfold waitUnlocked waitResolved
      rw [if_neg (by rw [h.evt]; exact lt_irrefl _), if_pos hended]
    rw [if_pos hended, if_pos hended, hresolved, ite_self, hcycle]
  · rw [if_neg hended, if_neg hended, ← h.point]

theorem Inv.pastWait_iff (h : Inv s) :
    s.PastWait ↔ s.kernel.stage ≠ .wait ∨ s.api.alivePrc = 0 := by
  unfold PastWait
  by_cases hstage : s.kernel.stage = .wait
  · refine or_congr_right ?_
    have hpoll : s.step .pollLoop = s.pollLoop := if_pos hstage
    rw [hpoll, h.pollLoop_eq hstage, ← deltaCycleEnded_iff]
    by_cases hended : s.api.deltaCycleEnded = true
    · rw [if_pos hended]
      exact iff_of_true ⟨_, rfl, Stage.noConfusion⟩ hended
    · rw [if_neg hended]
      refine iff_of_false ?_ hended
      rintro ⟨s', hs', hne⟩
      exact hne (Option.some.inj hs' ▸ hstage)
  · exact iff_of_true (Or.inl hstage) (Or.inl hstage)

/-! ### What a step does -/

/-- A process in the middle of a call moves on, and the others stay locked. -/
theorem Inv.locked_update (h : Inv s) {x : Option (PortCall M)}
    (hcall : s'.call = Function.update s.call p x)
    (hx : PortCall.blocks x = true → p ∈ s'.kernel.sys.locked)
    (hmem : ∀ q, q ≠ p → q ∈ s.kernel.sys.locked → q ∈ s'.kernel.sys.locked) :
    ∀ q, PortCall.blocks (s'.call q) = true → q ∈ s'.kernel.sys.locked := by
  intro q hq
  rw [hcall] at hq
  by_cases hqp : q = p
  · rw [hqp, Function.update_self] at hq
    exact hqp ▸ hx hq
  · rw [Function.update_of_ne hqp] at hq
    exact hmem q hqp (h.locked q hq)

/-- What a step means for the delta-cycle. -/
inductive Move (s s' : Channels M) (stops : Bool) : Prop
  /-- A running process stops and leaves the channels alone. -/
  | stop (hstops : stops = true) (hstage : s.kernel.stage = .wait)
      (hstage' : s'.kernel.stage = .wait)
      (hrun : s.kernel.sys.running.length = s'.kernel.sys.running.length + 1)
      (hcan : ∀ p, s'.canGoOn p = s.canGoOn p)
  /-- A process runs afterwards. -/
  | run (hstops : stops = false) (hstage' : s'.kernel.stage = .wait)
      (hrun : s'.kernel.sys.running ≠ [])
  /-- The channels are left alone, and the loop gets no further than it could. -/
  | rest (hstops : stops = false) (hpast : s'.PastWait → s.PastWait)
      (hcan : ∀ p, s'.canGoOn p = s.canGoOn p)

theorem length_erase {l : List Pid} (hp : p ∈ l) : l.length = (l.erase p).length + 1 :=
  (List.perm_cons_erase hp).length_eq

theorem canGoOn_update {q : Pid} {x : Option (PortCall M)} (hq : q ≠ p)
    (hcall : s'.call = Function.update s.call p x) (hqueue : s'.queue = s.queue) :
    s'.canGoOn q = s.canGoOn q := by
  unfold canGoOn
  rw [hcall, hqueue, Function.update_of_ne hq]

/-- Nothing changes about who can go on when neither side of the call blocks. -/
theorem canGoOn_settle {x : Option (PortCall M)} (hcall : s'.call = Function.update s.call p x)
    (hqueue : s'.queue = s.queue) (hbefore : PortCall.blocks (s.call p) = false)
    (hafter : s'.canGoOn p = false) (q : Pid) : s'.canGoOn q = s.canGoOn q := by
  by_cases hq : q = p
  · rw [hq, hafter, canGoOn_of_not_blocks hbefore]
  · exact canGoOn_update hq hcall hqueue

/-- The loop gets no further when it is where it was and as many processes are alive. -/
theorem Inv.pastWait_of_same (h : Inv s) (h' : Inv s')
    (hstage : s'.kernel.stage = s.kernel.stage) (halive : s'.api.alivePrc = s.api.alivePrc)
    (hpast : s'.PastWait) : s.PastWait := by
  rw [h'.pastWait_iff, hstage, halive] at hpast
  exact h.pastWait_iff.mpr hpast

theorem blocks_of_free (h : s.Free p) : PortCall.blocks (s.call p) = false := by
  have hnone : s.call p = none := Option.isNone_iff_eq_none.1 h.1
  rw [hnone]
  rfl

/-- A process that goes on with its call, or leaves it, changes nothing else. -/
theorem Inv.of_call (h : Inv s) {x : Option (PortCall M)} (hx : PortCall.blocks x = false)
    (hkernel : s'.kernel = s.kernel) (hevt : s'.unlockEvt = s.unlockEvt)
    (hpoint : s'.waitPoint = s.waitPoint) (hcall : s'.call = Function.update s.call p x) :
    Inv s' := by
  refine ⟨hkernel ▸ h.loop, ?_, hpoint.trans h.point, h.locked_update hcall ?_ ?_⟩
  · show s'.unlockEvt = s'.kernel.sys.api.unlockedPrc
    rw [hevt, hkernel]
    exact h.evt
  · intro hblocks
    cases hx.symm.trans hblocks
  · intro q _ hq
    rw [hkernel]
    exact hq

/-- A call that locks its process leaves it blocked. -/
theorem lock_move (h : Inv s) {kernel : Kernel} {x : Option (PortCall M)}
    (hstage : s.kernel.stage = .wait) (hfree : s.Free p)
    (hlock : s.kernel.step (.lock p) = some kernel) (hkernel : s'.kernel = kernel)
    (hevt : s'.unlockEvt = s.unlockEvt) (hpoint : s'.waitPoint = s.waitPoint)
    (hcall : s'.call = Function.update s.call p x) (hqueue : s'.queue = s.queue)
    (hafter : s'.canGoOn p = false) : Inv s' ∧ Move s s' true := by
  have hloop := Kernel.loopInv_step h.loop hlock
  obtain ⟨hp, rfl⟩ := Kernel.lock_eq hlock
  refine ⟨⟨hkernel ▸ hloop, ?_, hpoint.trans h.point, h.locked_update hcall ?_ ?_⟩, ?_⟩
  · show s'.unlockEvt = s'.kernel.sys.api.unlockedPrc
    rw [hevt, hkernel]
    exact h.evt
  · intro _
    rw [hkernel]
    exact List.mem_cons_self
  · intro q _ hq
    rw [hkernel]
    exact List.mem_cons_of_mem p hq
  · refine Move.stop rfl hstage (hkernel ▸ hstage) ?_ ?_
    · rw [hkernel]
      exact length_erase hp
    · exact canGoOn_settle hcall hqueue (blocks_of_free hfree) hafter

/-- A blocked process that comes back runs, and its unlock event is counted. -/
theorem unlock_move (h : Inv s) {kernel : Kernel} (hstage : s.kernel.stage = .wait)
    (hunlock : s.kernel.step (.unlock p) = some kernel) (hkernel : s'.kernel = kernel)
    (hevt : s'.unlockEvt = s.unlockEvt + 1) (hpoint : s'.waitPoint = s.waitPoint)
    (hcall : s'.call = Function.update s.call p none) : Inv s' ∧ Move s s' false := by
  have hloop := Kernel.loopInv_step h.loop hunlock
  obtain ⟨-, rfl⟩ := Kernel.unlock_eq hunlock
  refine ⟨⟨hkernel ▸ hloop, ?_, hpoint.trans h.point, h.locked_update hcall ?_ ?_⟩, ?_⟩
  · show s'.unlockEvt = s'.kernel.sys.api.unlockedPrc
    rw [hevt, hkernel]
    exact congrArg (· + 1) h.evt
  · intro hblocks
    cases hblocks
  · intro q hq hmem
    rw [hkernel]
    exact (List.mem_erase_of_ne hq).2 hmem
  · refine Move.run rfl (hkernel ▸ hstage) ?_
    rw [hkernel]
    exact List.cons_ne_nil _ _

/-- A call of `send` leaves its process running, or blocks it on a channel without room. -/
theorem send_move (h : Inv s) {c : Nat} {pkt : M} (hstage : s.kernel.stage = .wait)
    (hfree : s.Free p) (hsend : s.send p c pkt = some s') :
    Inv s' ∧ Move s s' (s.stops (.send p c pkt)) := by
  unfold send at hsend
  split at hsend
  · rename_i q htry
    obtain rfl := Option.some.inj hsend
    have hroom := (BoundedQueue.trySend_eq_some htry).1
    refine ⟨h.of_call rfl rfl rfl rfl rfl, ?_⟩
    refine Move.run ?_ hstage (List.ne_nil_of_mem hfree.2.1)
    simp [stops, hroom]
  · rename_i htry
    obtain ⟨kernel, hlock, rfl⟩ := Option.map_eq_some_iff.1 hsend
    have hroom := BoundedQueue.trySend_eq_none_iff.1 htry
    have hstops : s.stops (.send p c pkt) = true := by simp [stops, hroom]
    rw [hstops]
    refine lock_move h hstage hfree hlock rfl rfl rfl rfl rfl ?_
    simp [canGoOn, hroom]

/-- A call of `recv` leaves its process running, or blocks it on an empty channel. -/
theorem recv_move (h : Inv s) {c : Nat} (hstage : s.kernel.stage = .wait) (hfree : s.Free p)
    (hrecv : s.recv p c = some s') : Inv s' ∧ Move s s' (s.stops (.recv p c)) := by
  unfold recv at hrecv
  split at hrecv
  · rename_i pkt q htry
    obtain rfl := Option.some.inj hrecv
    have hitem := BoundedQueue.hasItem_of_tryRecv htry
    refine ⟨h.of_call rfl rfl rfl rfl rfl, ?_⟩
    refine Move.run ?_ hstage (List.ne_nil_of_mem hfree.2.1)
    simp [stops, hitem]
  · rename_i htry
    obtain ⟨kernel, hlock, rfl⟩ := Option.map_eq_some_iff.1 hrecv
    have hitem := BoundedQueue.tryRecv_eq_none_iff.1 htry
    have hstops : s.stops (.recv p c) = true := by simp [stops, hitem]
    rw [hstops]
    refine lock_move h hstage hfree hlock rfl rfl rfl rfl rfl ?_
    simp [canGoOn, hitem]

/-- A process that comes back from its yield runs as before; a blocked one comes back counted. -/
theorem resume_move (h : Inv s) (hstage : s.kernel.stage = .wait) (hres : s.resume p = some s') :
    Inv s' ∧ Move s s' (s.stops (.resume p)) := by
  have hyielded : ∀ {s₁ : Channels M}, PortCall.blocks (s.call p) = false →
      s₁.kernel = s.kernel → s₁.call = Function.update s.call p none → s₁.queue = s.queue →
      Inv s₁ → Inv s₁ ∧ Move s s₁ false := by
    intro s₁ hblocks hkernel hcall hqueue hinv
    refine ⟨hinv, Move.rest rfl (h.pastWait_of_same hinv (congrArg _ hkernel) ?_) ?_⟩
    · show s₁.kernel.sys.api.alivePrc = s.kernel.sys.api.alivePrc
      rw [hkernel]
    · refine canGoOn_settle hcall hqueue hblocks ?_
      simp [canGoOn, hcall]
  unfold resume at hres
  split at hres
  · cases hres
  · rename_i c hcall
    obtain rfl := Option.some.inj hres
    exact hyielded (hcall ▸ rfl) rfl rfl rfl (h.of_call rfl rfl rfl rfl rfl)
  · rename_i c pkt hcall
    obtain rfl := Option.some.inj hres
    exact hyielded (hcall ▸ rfl) rfl rfl rfl (h.of_call rfl rfl rfl rfl rfl)
  · split at hres
    · obtain ⟨kernel, hunlock, rfl⟩ := Option.map_eq_some_iff.1 hres
      exact unlock_move h hstage hunlock rfl rfl rfl rfl
    · cases hres
  · split at hres
    · obtain ⟨kernel, hunlock, rfl⟩ := Option.map_eq_some_iff.1 hres
      exact unlock_move h hstage hunlock rfl rfl rfl rfl
    · cases hres

/-- A move outside of port calls. -/
theorem prc_move (h : Inv s) {a : Act} {kernel : Kernel} (hstage : s.kernel.stage = .wait)
    (ha : a.isPlain = true) (hk : s.kernel.step a = some kernel) :
    Inv { s with kernel } ∧ Move s { s with kernel } (s.stops (.prc a)) := by
  obtain ⟨hlocks, hunlocked⟩ := Kernel.step_locks hk (Or.inl ha)
  have hstage' : kernel.stage = .wait :=
    (Kernel.process_frame hk (Act.isMove_of_isPlain ha)).1.stage.trans hstage
  have hinv : Inv { s with kernel } := by
    refine ⟨Kernel.loopInv_step h.loop hk, h.evt.trans hunlocked.symm, h.point, ?_⟩
    intro q hq
    rw [hlocks]
    exact h.locked q hq
  refine ⟨hinv, ?_⟩
  rcases Kernel.plain_running hk ha with ⟨hstops, p, hp, hrun⟩ | ⟨hstops, hrun | ⟨p, hrun⟩⟩
  · refine Move.stop hstops hstage hstage' ?_ fun _ => rfl
    rw [hrun]
    exact length_erase hp
  · refine Move.rest hstops (h.pastWait_of_same hinv (hstage'.trans hstage.symm) ?_) fun _ => rfl
    rw [hinv.alivePrc hstage', h.alivePrc hstage, hrun]
  · refine Move.run hstops hstage' ?_
    rw [hrun]
    exact List.cons_ne_nil _ _

/-- A poll of the loop. -/
theorem pollLoop_move (h : Inv s) (hstage : s.kernel.stage = .wait)
    (hpoll : s.pollLoop = some s') : Inv s' ∧ Move s s' (s.stops .pollLoop) := by
  rw [h.pollLoop_eq hstage] at hpoll
  obtain rfl := Option.some.inj hpoll
  by_cases hended : s.api.deltaCycleEnded = true
  · rw [if_pos hended]
    have hkernel : s.kernel.step .cycleEnded = some { s.kernel with stage := .drain } :=
      if_pos ⟨hstage, hended⟩
    obtain ⟨hcount, hwoken, hahead⟩ := Kernel.loopInv_step h.loop hkernel
    refine ⟨⟨⟨?_, hwoken, hahead⟩, rfl, h.point, h.locked⟩, ?_⟩
    · exact ⟨hcount.nodup, hcount.hwPrc, hcount.alivePrc, hcount.lockedPrc, hcount.places⟩
    · refine Move.rest rfl ?_ fun _ => rfl
      intro _
      exact h.pastWait_iff.mpr (Or.inr (deltaCycleEnded_iff.1 hended))
  · rw [if_neg hended]
    exact ⟨h, Move.rest rfl id fun _ => rfl⟩

/-- Every step keeps the invariant, and moves as it says. -/
theorem step_move (h : Inv s) (hstep : s.step a = some s') : Inv s' ∧ Move s s' (s.stops a) := by
  cases a with
  | prc a =>
      obtain ⟨⟨hstage, ha, -⟩, hmap⟩ := Option.ite_none_right_eq_some.1 hstep
      obtain ⟨kernel, hk, rfl⟩ := Option.map_eq_some_iff.1 hmap
      exact prc_move h hstage ha hk
  | send p c pkt =>
      obtain ⟨⟨hstage, hfree, -⟩, hsend⟩ := Option.ite_none_right_eq_some.1 hstep
      exact send_move h hstage hfree hsend
  | recv p c =>
      obtain ⟨⟨hstage, hfree, -⟩, hrecv⟩ := Option.ite_none_right_eq_some.1 hstep
      exact recv_move h hstage hfree hrecv
  | resume p =>
      obtain ⟨hstage, hres⟩ := Option.ite_none_right_eq_some.1 hstep
      exact resume_move h hstage hres
  | pollLoop =>
      obtain ⟨hstage, hpoll⟩ := Option.ite_none_right_eq_some.1 hstep
      exact pollLoop_move h hstage hpoll
  | loop a =>
      obtain ⟨ha, hmap⟩ := Option.ite_none_right_eq_some.1 hstep
      obtain ⟨kernel, hk, rfl⟩ := Option.map_eq_some_iff.1 hmap
      obtain ⟨hlocks, hunlocked⟩ := Kernel.step_locks hk (Or.inr ha)
      refine ⟨⟨Kernel.loopInv_step h.loop hk, h.evt.trans hunlocked.symm, h.point, ?_⟩, ?_⟩
      · intro q hq
        rw [hlocks]
        exact h.locked q hq
      · refine Move.rest rfl ?_ fun _ => rfl
        intro _
        exact Or.inl (Kernel.loop_stage hk ha)

/-! ### The last stop -/

/-- While the loop could pass its wait no process can go on: a step decides whether it stays so. -/
theorem quiet_step (h : Inv s) (hquiet : s.PastWait → s.Quiet) (hstep : s.step a = some s') :
    (s'.PastWait → s'.Quiet) ↔ s.LastStop a := by
  obtain ⟨h', hmove⟩ := step_move h hstep
  unfold LastStop
  rw [← h.quiet_iff]
  have hpast : s'.kernel.stage = .wait → (s'.PastWait ↔ s'.kernel.sys.running.length = 0) := by
    intro hstage
    rw [h'.pastWait_iff, h'.alivePrc hstage]
    simp [hstage]
  rcases hmove with ⟨hstops, hstage, hstage', hrun, hcan⟩ | ⟨hstops, hstage', hrun⟩ |
    ⟨hstops, hback, hcan⟩
  · have hsame : s'.Quiet ↔ s.Quiet := forall_congr' fun p => by rw [hcan p]
    have hlast : s.api.alivePrc = 1 ↔ s'.kernel.sys.running.length = 0 := by
      rw [h.alivePrc hstage, hrun]
      omega
    rw [hsame, hpast hstage', hlast]
    exact ⟨fun hq hlast _ => hq hlast, fun hq hlast => hq hlast hstops⟩
  · refine iff_of_true ?_ ?_
    · intro hp
      exact absurd (List.eq_nil_of_length_eq_zero ((hpast hstage').1 hp)) hrun
    · intro _ hs
      rw [hstops] at hs
      cases hs
  · have hsame : s'.Quiet ↔ s.Quiet := forall_congr' fun p => by rw [hcan p]
    refine iff_of_true ?_ ?_
    · intro hp
      exact hsame.2 (hquiet (hback hp))
    · intro _ hs
      rw [hstops] at hs
      cases hs

/-- In every state of a run in which the loop is past its wait, or would be if it were polled, no
process blocked on a channel can go on, exactly when no last alive process stops before such a
process has been polled. -/
theorem transfers_completed_iff {now : Tick} {queue : Nat → BoundedQueue M}
    {acts : List (ChanAct M)} {s₁ : Channels M} (hrun : run step (init now queue) acts = some s₁) :
    (∀ pre post s, acts = pre ++ post → run step (init now queue) pre = some s →
        s.PastWait → ∀ p, s.canGoOn p = false) ↔
      Along step LastStop (init now queue) acts :=
  holds_iff_along (fun _ _ _ h hs => (step_move h hs).1) (fun _ _ _ => quiet_step)
    (inv_init now queue) (fun _ _ => rfl) hrun

/-- A receiver that blocks before the packet is sent, and is polled before its sender goes on. -/
def polledFirst : List (ChanAct String) :=
  [.prc (.spawn 1), .prc (.spawn 2), .recv 2 0, .send 1 0 "pkt", .resume 2, .resume 1,
    .prc (.delay 1 5), .prc (.delay 2 9), .pollLoop, .loop .drain, .loop .drain, .loop .drained]

/-- A receiver that blocks before the packet is sent, and is not polled before its sender stops. -/
def polledLate : List (ChanAct String) :=
  [.prc (.spawn 1), .prc (.spawn 2), .recv 2 0, .send 1 0 "pkt", .resume 1, .prc (.delay 1 5),
    .pollLoop, .loop .drain, .loop .drained]

theorem transfers_completed_polledFirst :
    ∃ s s', run step (init 0 fun _ => .empty 1 Nat.one_pos) polledFirst = some s ∧
      s.step (.loop .updateTick) = some s' ∧ s.kernel.sys.now = 0 ∧ s'.kernel.sys.now = 5 ∧
      s.returned 2 = ["pkt"] ∧ ∀ p, s.canGoOn p = false := by
  have hlast : Along step LastStop (init 0 fun _ => .empty 1 Nat.one_pos) polledFirst := by decide
  have hquiet := (transfers_completed_iff rfl).mpr hlast polledFirst [] _ (by simp) rfl
  exact ⟨_, _, rfl, rfl, rfl, rfl, rfl, hquiet (Or.inl Stage.noConfusion)⟩

/-- The tick advances while the receiver is blocked and its packet waits in the channel. -/
theorem transfers_left_polledLate :
    ∃ s s', run step (init 0 fun _ => .empty 1 Nat.one_pos) polledLate = some s ∧
      s.step (.loop .updateTick) = some s' ∧ s.kernel.sys.now = 0 ∧ s'.kernel.sys.now = 5 ∧
      (s.queue 0).items = ["pkt"] ∧ 2 ∈ s.kernel.sys.locked ∧ s.canGoOn 2 = true :=
  ⟨_, _, rfl, rfl, rfl, rfl, rfl, by decide, rfl⟩

end Channels

end Ra2m
