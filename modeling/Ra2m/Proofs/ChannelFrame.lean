/-
What a step of the channels leaves of the processes that do not make it.

A process that is in a call of `recv` has borrowed the slave endpoint of its channel, so
no one else takes a packet from it; only a process that sends puts one there.  And a
process that runs holds the loop back: the tick stays as it is until it stops.
-/
import Ra2m.Proofs.PollOrder
import Ra2m.Sim.Chain

namespace Ra2m

/-! ### The loop and a process -/

namespace Kernel

variable {k k' : Kernel} {a : Act}

/-- The loop does not touch the future of a process, and it stops none. -/
theorem loop_frame (h : k.step a = some k') (ha : a.isLoop = true) :
    k'.future = k.future ∧ ∀ p ∈ k.sys.running, p ∈ k'.sys.running := by
  rcases step_loop h (Act.isMove_ne_of_isLoop ha) with ⟨-, -, -, s, -, rfl⟩ |
    ⟨-, -, o, rest, -, rfl⟩ | ⟨-, -, nextTick, -, rfl⟩ | ⟨-, -, rfl⟩ | ⟨x, -, -, -, -, n, rfl⟩ |
    ⟨-, -, -, api, rfl, -⟩
  · exact ⟨rfl, fun _ hp => hp⟩
  · exact ⟨rfl, fun _ hp => hp⟩
  · exact ⟨rfl, fun _ hp => hp⟩
  · exact ⟨rfl, fun _ hp => hp⟩
  · exact ⟨rfl, fun _ hp => List.mem_append_right _ hp⟩
  · exact ⟨rfl, fun _ hp => hp⟩

/-- A process runs only while the loop waits for the delta-cycle or wakes. -/
def Resting (k : Kernel) : Prop :=
  k.stage ≠ .wait → k.stage ≠ .wake → k.sys.running = []

theorem Resting.loop (hrest : k.Resting) (h : k.step a = some k') (ha : a.isLoop = true) :
    k'.Resting := by
  have hwait := loop_stage h ha
  rcases step_loop h (Act.isMove_ne_of_isLoop ha) with ⟨-, hset, -, s, -, rfl⟩ |
    ⟨-, -, o, rest, -, rfl⟩ | ⟨-, hstage, nextTick, -, rfl⟩ | ⟨-, -, rfl⟩ |
    ⟨x, -, hstage, -, -, n, rfl⟩ | ⟨-, -, -, api, rfl, -⟩
  · exact fun _ _ => hrest hwait (settled_ne_wake hset)
  · exact hrest
  · exact fun _ _ => hrest hwait (by rw [hstage]; exact Stage.noConfusion)
  · exact fun _ hwake => absurd rfl hwake
  · exact fun _ hwake => absurd hstage hwake
  · exact fun hwait _ => absurd rfl hwait

/-- The tick moves at one step of the loop only, and then no process runs. -/
theorem loop_now (hrest : k.Resting) (h : k.step a = some k') (ha : a.isLoop = true) :
    k'.sys.now = k.sys.now ∨ a = .updateTick ∧ k.sys.running = [] := by
  rcases step_loop h (Act.isMove_ne_of_isLoop ha) with ⟨-, -, -, s, -, rfl⟩ |
    ⟨-, -, o, rest, -, rfl⟩ | ⟨rfl, hstage, nextTick, -, rfl⟩ | ⟨-, -, rfl⟩ |
    ⟨x, -, -, -, -, n, rfl⟩ | ⟨-, -, -, api, rfl, -⟩
  · exact Or.inl rfl
  · exact Or.inl rfl
  · refine Or.inr ⟨rfl, hrest ?_ ?_⟩
    · rw [hstage]
      exact Stage.noConfusion
    · rw [hstage]
      exact Stage.noConfusion
  · exact Or.inl rfl
  · exact Or.inl rfl
  · exact Or.inl rfl

/-- The process is suspended on a delay that ends at `t`, and its order or its task is there. -/
structure Delayed (k : Kernel) (p : Pid) (t : Tick) : Prop where
  future : k.future p = some (.delay t)
  stopped : p ∉ k.sys.running
  ordered : (.waitUntil t p ∈ k.sys.api.orderQ ∧ k.sys.now < t ∧
      (k.stage = .wait ∨ k.stage = .drain)) ∨
    .wakeup t p ∈ k.sys.sched.waitOnTick

theorem Delayed.of_same {p : Pid} {t : Tick} (h : k.Delayed p t) (hloop : SameLoop k k')
    (hprc : SamePrc p k k') : k'.Delayed p t where
  future := hprc.future.trans h.future
  stopped hp := h.stopped (hprc.running.1 hp)
  ordered := by
    rw [hloop.sched, hloop.now, hloop.stage]
    refine h.ordered.imp_left fun ⟨hqueued, hlt, hstage⟩ => ⟨?_, hlt, hstage⟩
    exact (hprc.queued _ rfl).2 hqueued

/-- After the drain the task is in the heap. -/
theorem Delayed.heap {p : Pid} {t : Tick} (h : k.Delayed p t) (hwait : k.stage ≠ .wait)
    (hdrain : k.stage ≠ .drain) : .wakeup t p ∈ k.sys.sched.waitOnTick :=
  h.ordered.resolve_left fun hqueued => hqueued.2.2.elim hwait hdrain

/-- A process that has just made its delay. -/
theorem Delayed.of_suspend {p : Pid} {t : Tick} (h : k.suspend p (.delay t) = some k')
    (hnodup : p ∉ k.sys.running.erase p) (hlt : k.sys.now < t) (hstage : k.stage = .wait) :
    k'.Delayed p t := by
  obtain ⟨-, rfl⟩ := suspend_eq h
  refine ⟨Function.update_self _ _ _, hnodup, Or.inl ⟨?_, hlt, Or.inl hstage⟩⟩
  show _ ∈ (k.sys.api.pushOrder (order p (.delay t))).orderQ
  rw [SchedulerAPI.pushOrder_orderQ]
  exact List.mem_append_right _ List.mem_cons_self

/-- A step of the loop takes the order to the heap, and the tick no further than to the end of the
delay, or it wakes the process. -/
theorem Delayed.loop {p : Pid} {t : Tick} (h : k.Delayed p t) (hinv : LoopInv k)
    (hs : k.step a = some k') (ha : a.isLoop = true) :
    (k'.Delayed p t ∧ (k'.sys.now = k.sys.now ∨ k.sys.now < k'.sys.now ∧ k'.sys.now ≤ t)) ∨
      p ∈ k'.sys.running ∧ k'.sys.now = k.sys.now := by
  have hwait := loop_stage hs ha
  rcases step_loop hs (Act.isMove_ne_of_isLoop ha) with ⟨hact, hset, -, s, -, rfl⟩ |
    ⟨-, hstage, o, rest, hqueue, rfl⟩ | ⟨-, hstage, nextTick, hpeek, rfl⟩ | ⟨-, hstage, rfl⟩ |
    ⟨x, -, hstage, hx, hdue, n, rfl⟩ | ⟨-, hstage, -, api, rfl, hapi⟩
  · refine Or.inl ⟨⟨h.future, h.stopped, ?_⟩, Or.inl rfl⟩
    refine h.ordered.imp_left fun ⟨hqueued, hlt, hstage⟩ => ?_
    -- the loop leaves `drain` when the queue is empty
    obtain hstage := hstage.resolve_left hwait
    exfalso
    rcases hact with rfl | rfl | rfl
    · cases ha
    · simp only [step, Option.ite_none_right_eq_some] at hs
      rw [hs.1.2] at hqueued
      cases hqueued
    · simp only [step, Option.ite_none_right_eq_some] at hs
      rw [hs.1] at hstage
      cases hstage
  · refine Or.inl ⟨⟨h.future, h.stopped, ?_⟩, Or.inl rfl⟩
    rcases h.ordered with ⟨hqueued, hlt, hst⟩ | hheap
    · rw [hqueue] at hqueued
      rcases List.mem_cons.1 hqueued with rfl | hrest
      · refine Or.inr ?_
        show _ ∈ (k.sys.sched.recv k.sys.now (.waitUntil t p)).waitOnTick
        rw [Scheduler.recv_waitOnTick]
        refine List.mem_append_right _ ?_
        rw [taskOf_waitUntil, wakeTick, Nat.max_eq_right hlt]
        exact List.mem_cons_self
      · exact Or.inl ⟨hrest, hlt, hst⟩
    · refine Or.inr ?_
      show _ ∈ (k.sys.sched.recv k.sys.now o).waitOnTick
      rw [Scheduler.recv_waitOnTick]
      exact List.mem_append_left _ hheap
  · have hheap := h.heap hwait (by rw [hstage]; exact Stage.noConfusion)
    obtain ⟨⟨x, hx, rfl⟩, hleast⟩ := MinHeap.peek_eq_some_iff.1 hpeek
    refine Or.inl ⟨⟨h.future, h.stopped, Or.inr hheap⟩, Or.inr ⟨?_, hleast _ hheap⟩⟩
    exact (hinv.ahead x hx).2 (by rw [hstage]; rfl)
  · have hheap := h.heap hwait (by rw [hstage]; exact Stage.noConfusion)
    exact Or.inl ⟨⟨h.future, h.stopped, Or.inr hheap⟩, Or.inl rfl⟩
  · have hheap := h.heap hwait (by rw [hstage]; exact Stage.noConfusion)
    by_cases hcalled : p ∈ k.sys.sched.called x
    · exact Or.inr ⟨List.mem_append_left _ hcalled, rfl⟩
    · refine Or.inl ⟨⟨h.future, ?_, Or.inr ?_⟩, Or.inl rfl⟩
      · intro hp
        exact (List.mem_append.1 hp).elim hcalled h.stopped
      · show _ ∈ (k.sys.served x).sched.waitOnTick
        rw [System.served_waitOnTick]
        refine (List.mem_erase_of_ne ?_).2 hheap
        rintro rfl
        exact hcalled List.mem_cons_self
  · have hheap := h.heap hwait (by rw [hstage]; exact Stage.noConfusion)
    exact Or.inl ⟨⟨h.future, h.stopped, Or.inr hheap⟩, Or.inl rfl⟩

end Kernel

namespace Channels

variable {M : Type} {s s' : Channels M} {a : ChanAct M} {p : Pid} {c : Nat}

/-- What holds of the calls that are under way. -/
structure Calls (s : Channels M) : Prop where
  receiver : Borrowed PortCall.receivesOn s.receiver s.call
  future : ∀ p, s.call p ≠ none → s.kernel.future p = none

theorem calls_init (now : Tick) (queue : Nat → BoundedQueue M) : Calls (init now queue) where
  receiver _ _ _ h := by cases h
  future p h := absurd rfl h

/-- A process that begins a call, or ends it, when its future is none. -/
private theorem Calls.future_update (h : Calls s) {x : Option (PortCall M)}
    (hcall : s'.call = Function.update s.call p x) (hp : s.kernel.future p = none)
    (hfuture : s'.kernel.future = s.kernel.future) (q : Pid) (hq : s'.call q ≠ none) :
    s'.kernel.future q = none := by
  rw [hfuture]
  by_cases hqp : q = p
  · rw [hqp, hp]
  · rw [hcall, Function.update_of_ne hqp] at hq
    exact h.future q hq

theorem lock_future {k k' : Kernel} (h : k.step (.lock p) = some k') : k'.future = k.future := by
  obtain ⟨-, rfl⟩ := Kernel.lock_eq h
  rfl

theorem unlock_future {k k' : Kernel} (h : k.step (.unlock p) = some k') :
    k'.future = k.future := by
  obtain ⟨-, rfl⟩ := Kernel.unlock_eq h
  rfl

theorem Calls.send (h : Calls s) {pkt : M} (hfree : s.Free p) (hs : s.send p c pkt = some s') :
    Calls s' := by
  unfold Channels.send at hs
  split at hs
  · obtain rfl := Option.some.inj hs
    exact ⟨h.receiver.other rfl, h.future_update rfl hfree.2.2 rfl⟩
  · obtain ⟨kernel, hlock, rfl⟩ := Option.map_eq_some_iff.1 hs
    exact ⟨h.receiver.other rfl, h.future_update rfl hfree.2.2 (lock_future hlock)⟩

theorem Calls.recv (h : Calls s) (hfree : s.Free p) (hc : s.receiver c = none)
    (hs : s.recv p c = some s') : Calls s' := by
  unfold Channels.recv at hs
  split at hs
  · obtain rfl := Option.some.inj hs
    exact ⟨h.receiver.take hc rfl, h.future_update rfl hfree.2.2 rfl⟩
  · obtain ⟨kernel, hlock, rfl⟩ := Option.map_eq_some_iff.1 hs
    exact ⟨h.receiver.take hc rfl, h.future_update rfl hfree.2.2 (lock_future hlock)⟩

theorem Calls.resume (h : Calls s) (hs : s.resume p = some s') : Calls s' := by
  have hfuture : ∀ {x}, s.call p = some x → s.kernel.future p = none := by
    intro x hx
    refine h.future p ?_
    rw [hx]
    exact Option.some_ne_none x
  unfold Channels.resume at hs
  split at hs
  · cases hs
  · rename_i c hcall
    obtain rfl := Option.some.inj hs
    exact ⟨h.receiver.other rfl, h.future_update rfl (hfuture hcall) rfl⟩
  · rename_i c pkt hcall
    obtain rfl := Option.some.inj hs
    exact ⟨h.receiver.give hcall rfl, h.future_update rfl (hfuture hcall) rfl⟩
  · rename_i c pkt hcall
    split at hs
    · obtain ⟨kernel, hunlock, rfl⟩ := Option.map_eq_some_iff.1 hs
      exact ⟨h.receiver.other rfl, h.future_update rfl (hfuture hcall) (unlock_future hunlock)⟩
    · cases hs
  · rename_i c hcall
    split at hs
    · obtain ⟨kernel, hunlock, rfl⟩ := Option.map_eq_some_iff.1 hs
      exact ⟨h.receiver.give hcall rfl, h.future_update rfl (hfuture hcall) (unlock_future hunlock)⟩
    · cases hs

/-- What holds in every state of a run. -/
structure Sound (s : Channels M) : Prop where
  inv : Inv s
  calls : Calls s
  resting : s.kernel.Resting

theorem sound_init (now : Tick) (queue : Nat → BoundedQueue M) : Sound (init now queue) where
  inv := inv_init now queue
  calls := calls_init now queue
  resting hwait := absurd rfl hwait

/-- A step outside of port calls, of a process or of the loop. -/
private theorem Calls.of_kernel (h : Calls s) {kernel : Kernel}
    (hfuture : ∀ p, s.call p ≠ none → kernel.future p = s.kernel.future p) :
    Calls { s with kernel } :=
  ⟨h.receiver, fun p hp => (hfuture p hp).trans (h.future p hp)⟩

theorem Calls.step (h : Calls s) (hinv : Inv s) (hstep : s.step a = some s') : Calls s' := by
  cases a with
  | prc a =>
      obtain ⟨⟨-, ha, hcall⟩, hmap⟩ := Option.ite_none_right_eq_some.1 hstep
      obtain ⟨kernel, hk, rfl⟩ := Option.map_eq_some_iff.1 hmap
      refine h.of_kernel fun p hp => ?_
      refine ((Kernel.process_frame hk (Act.isMove_of_isPlain ha)).2 p ?_).future
      intro hactor
      rw [hactor] at hcall
      exact hp (Option.isNone_iff_eq_none.1 hcall)
  | send p c pkt =>
      obtain ⟨⟨-, hfree, -⟩, hsend⟩ := Option.ite_none_right_eq_some.1 hstep
      exact h.send hfree hsend
  | recv p c =>
      obtain ⟨⟨-, hfree, hc⟩, hrecv⟩ := Option.ite_none_right_eq_some.1 hstep
      exact h.recv hfree hc hrecv
  | resume p => exact h.resume (Option.ite_none_right_eq_some.1 hstep).2
  | pollLoop =>
      obtain ⟨hstage, hpoll⟩ := Option.ite_none_right_eq_some.1 hstep
      rw [hinv.pollLoop_eq hstage] at hpoll
      obtain rfl := Option.some.inj hpoll
      split
      · exact ⟨h.receiver, h.future⟩
      · exact h
  | loop a =>
      obtain ⟨ha, hmap⟩ := Option.ite_none_right_eq_some.1 hstep
      obtain ⟨kernel, hk, rfl⟩ := Option.map_eq_some_iff.1 hmap
      exact h.of_kernel fun p _ => congrFun (Kernel.loop_frame hk ha).1 p

/-! ### The other processes -/

/-- What a move of a process does to the calls and the channels of the others. -/
structure SameCalls (s s' : Channels M) (a : ChanAct M) : Prop where
  call : ∀ p, a.actor ≠ some p → s'.call p = s.call p
  /-- A channel changes when a packet is sent on it, or its receiver takes one. -/
  queue : ∀ c, s'.queue c = s.queue c ∨ a.sendsOn = some c ∨ s.receiver c = none ∨
    ∃ p x, a.actor = some p ∧ s.call p = some x ∧ (x.IsSending c ∨ x.receivesOn = some c)
  sending : ∀ p c pkt, s'.call p = some (.sending c pkt) → s.call p = some (.sending c pkt) ∨
    a = .send p c pkt ∧ (s.queue c).hasRoom = false

/-- What a step can do. -/
inductive Effect (s s' : Channels M) (a : ChanAct M) : Prop
  /-- A process moves. -/
  | moved (hstage : s.kernel.stage = .wait) (hloop : Kernel.SameLoop s.kernel s'.kernel)
      (hprc : ∀ p, a.actor ≠ some p → Kernel.SamePrc p s.kernel s'.kernel)
      (hcalls : SameCalls s s' a)
  /-- The delta-cycle ends. -/
  | ended (ha : a = .pollLoop) (hstage : s.kernel.stage = .wait)
      (hrun : s.kernel.sys.running = [])
      (hs' : s' = { s with
        kernel := { s.kernel with
          sys := { s.kernel.sys with api := { s.api with unlockedPrc := 0 } }
          stage := .drain }
        unlockEvt := 0 })
  /-- The loop goes on. -/
  | looped {b : Act} {kernel : Kernel} (ha : a = .loop b) (hb : b.isLoop = true)
      (hk : s.kernel.step b = some kernel) (hs' : s' = { s with kernel })

theorem SameCalls.refl (h : s'.call = s.call) (hqueue : s'.queue = s.queue) : SameCalls s s' a :=
  ⟨fun p _ => congrFun h p, fun c => Or.inl (congrFun hqueue c),
    fun p _ _ hp => Or.inl (congrFun h p ▸ hp)⟩

/-- A step of a call, which may lock or unlock its process. -/
private theorem Effect.of_call {x : Option (PortCall M)} (hactor : a.actor = some p)
    (hstage : s.kernel.stage = .wait)
    (hkernel : s'.kernel = s.kernel ∨ s.kernel.step (.lock p) = some s'.kernel ∨
      s.kernel.step (.unlock p) = some s'.kernel)
    (hcall : s'.call = Function.update s.call p x)
    (hqueue : ∀ c, s'.queue c = s.queue c ∨ a.sendsOn = some c ∨ s.receiver c = none ∨
      ∃ x, s.call p = some x ∧ (x.IsSending c ∨ x.receivesOn = some c))
    (hsending : ∀ c pkt, x = some (.sending c pkt) → a = .send p c pkt ∧
      (s.queue c).hasRoom = false) : Effect s s' a := by
  have hframe : ∀ {b}, s.kernel.step b = some s'.kernel → b.isMove = true → b.actor = some p →
      Kernel.SameLoop s.kernel s'.kernel ∧
        ∀ q, a.actor ≠ some q → Kernel.SamePrc q s.kernel s'.kernel := by
    intro b hk hb hp
    obtain ⟨hloop, hprc⟩ := Kernel.process_frame hk hb
    exact ⟨hloop, fun q hq => hprc q (hp.trans hactor.symm ▸ hq)⟩
  obtain ⟨hloop, hprc⟩ : Kernel.SameLoop s.kernel s'.kernel ∧
      ∀ q, a.actor ≠ some q → Kernel.SamePrc q s.kernel s'.kernel := by
    rcases hkernel with hkernel | hk | hk
    · rw [hkernel]
      exact ⟨.refl _, fun q _ => .refl q _⟩
    · exact hframe hk rfl rfl
    · exact hframe hk rfl rfl
  refine .moved hstage hloop hprc ⟨?_, ?_, ?_⟩
  · intro q hq
    rw [hcall, Function.update_of_ne]
    rintro rfl
    exact hq hactor
  · exact fun c => (hqueue c).imp_right
      (Or.imp_right (Or.imp_right fun ⟨x, hx⟩ => ⟨p, x, hactor, hx⟩))
  · intro q c pkt hq
    rw [hcall] at hq
    by_cases hqp : q = p
    · rw [hqp, Function.update_self] at hq
      rw [hqp]
      exact Or.inr (hsending c pkt hq)
    · rw [Function.update_of_ne hqp] at hq
      exact Or.inl hq

/-- Only the queue of channel `c` changes. -/
private theorem queue_update {P : Nat → Prop} {q : BoundedQueue M} (hc : P c) (c' : Nat) :
    Function.update s.queue c q c' = s.queue c' ∨ P c' := by
  by_cases heq : c' = c
  · exact Or.inr (heq ▸ hc)
  · exact Or.inl (Function.update_of_ne heq _ _)

theorem effect_send {pkt : M} (hstage : s.kernel.stage = .wait)
    (hsend : s.send p c pkt = some s') : Effect s s' (.send p c pkt) := by
  unfold send at hsend
  split at hsend
  · obtain rfl := Option.some.inj hsend
    exact .of_call rfl hstage (Or.inl rfl) rfl (queue_update (Or.inl rfl)) fun _ _ hx => by cases hx
  · rename_i htry
    obtain ⟨kernel, hk, rfl⟩ := Option.map_eq_some_iff.1 hsend
    refine .of_call rfl hstage (Or.inr (Or.inl hk)) rfl (fun _ => Or.inl rfl) ?_
    rintro _ _ hx
    obtain ⟨rfl, rfl⟩ := PortCall.sending.inj (Option.some.inj hx)
    exact ⟨rfl, BoundedQueue.trySend_eq_none_iff.1 htry⟩

theorem effect_recv (hstage : s.kernel.stage = .wait) (hc : s.receiver c = none)
    (hrecv : s.recv p c = some s') : Effect s s' (.recv p c) := by
  unfold recv at hrecv
  split at hrecv
  · obtain rfl := Option.some.inj hrecv
    exact .of_call rfl hstage (Or.inl rfl) rfl (queue_update (Or.inr (Or.inl hc)))
      fun _ _ hx => by cases hx
  · obtain ⟨kernel, hk, rfl⟩ := Option.map_eq_some_iff.1 hrecv
    exact .of_call rfl hstage (Or.inr (Or.inl hk)) rfl (fun _ => Or.inl rfl)
      fun _ _ hx => by cases hx

theorem effect_resume (hstage : s.kernel.stage = .wait) (hres : s.resume p = some s') :
    Effect s s' (.resume p) := by
  unfold resume at hres
  split at hres
  · cases hres
  · obtain rfl := Option.some.inj hres
    exact .of_call rfl hstage (Or.inl rfl) rfl (fun _ => Or.inl rfl) fun _ _ hx => by cases hx
  · obtain rfl := Option.some.inj hres
    exact .of_call rfl hstage (Or.inl rfl) rfl (fun _ => Or.inl rfl) fun _ _ hx => by cases hx
  · rename_i c pkt hcall
    split at hres
    · obtain ⟨kernel, hk, rfl⟩ := Option.map_eq_some_iff.1 hres
      exact .of_call rfl hstage (Or.inr (Or.inr hk)) rfl
        (queue_update (Or.inr (Or.inr ⟨_, hcall, Or.inl ⟨pkt, rfl⟩⟩))) fun _ _ hx => by cases hx
    · cases hres
  · rename_i c hcall
    split at hres
    · obtain ⟨kernel, hk, rfl⟩ := Option.map_eq_some_iff.1 hres
      exact .of_call rfl hstage (Or.inr (Or.inr hk)) rfl
        (queue_update (Or.inr (Or.inr ⟨_, hcall, Or.inr rfl⟩))) fun _ _ hx => by cases hx
    · cases hres

theorem effect_step (hinv : Inv s) (hstep : s.step a = some s') : Effect s s' a := by
  cases a with
  | prc a =>
      obtain ⟨⟨hstage, ha, hcall⟩, hmap⟩ := Option.ite_none_right_eq_some.1 hstep
      obtain ⟨kernel, hk, rfl⟩ := Option.map_eq_some_iff.1 hmap
      obtain ⟨hloop, hprc⟩ := Kernel.process_frame hk (Act.isMove_of_isPlain ha)
      exact .moved hstage hloop hprc (.refl rfl rfl)
  | send p c pkt =>
      obtain ⟨⟨hstage, -, -⟩, hsend⟩ := Option.ite_none_right_eq_some.1 hstep
      exact effect_send hstage hsend
  | recv p c =>
      obtain ⟨⟨hstage, -, hc⟩, hrecv⟩ := Option.ite_none_right_eq_some.1 hstep
      exact effect_recv hstage hc hrecv
  | resume p =>
      obtain ⟨hstage, hres⟩ := Option.ite_none_right_eq_some.1 hstep
      exact effect_resume hstage hres
  | pollLoop =>
      obtain ⟨hstage, hpoll⟩ := Option.ite_none_right_eq_some.1 hstep
      rw [hinv.pollLoop_eq hstage] at hpoll
      by_cases hended : s.api.deltaCycleEnded = true
      · rw [if_pos hended] at hpoll
        have hidle : s.kernel.sys.wokenPrc = none :=
          hinv.loop.woken.2 (by rw [hstage]; exact Stage.noConfusion)
        exact .ended rfl hstage (hinv.loop.counted.ended hidle hended) (Option.some.inj hpoll).symm
      · rw [if_neg hended] at hpoll
        obtain rfl := Option.some.inj hpoll
        exact .moved hstage (.refl _) (fun p _ => .refl p _) (.refl rfl rfl)
  | loop a =>
      obtain ⟨ha, hmap⟩ := Option.ite_none_right_eq_some.1 hstep
      obtain ⟨kernel, hk, rfl⟩ := Option.map_eq_some_iff.1 hmap
      exact .looped rfl ha hk rfl

theorem Sound.step (h : Sound s) (hstep : s.step a = some s') : Sound s' where
  inv := (step_move h.inv hstep).1
  calls := h.calls.step h.inv hstep
  resting := by
    cases effect_step h.inv hstep with
    | moved hstage hloop => exact fun hwait => absurd (hloop.stage.trans hstage) hwait
    | ended _ _ hrun hs' =>
        rw [hs']
        exact fun _ _ => hrun
    | looped _ hb hk hs' =>
        rw [hs']
        exact h.resting.loop hk hb

theorem sound_reachable {now : Tick} {queue : Nat → BoundedQueue M}
    (h : Runs.Reachable step (init now queue) s) : Sound s :=
  h.inv (fun _ _ _ h hs => h.step hs) (sound_init now queue)

/-- A call of another process stays where it is. -/
theorem call_other (hinv : Inv s) (hstep : s.step a = some s') (hp : a.actor ≠ some p) :
    s'.call p = s.call p := by
  cases effect_step hinv hstep with
  | moved _ _ _ hcalls => exact hcalls.call p hp
  | ended _ _ _ hs' | looped _ _ _ hs' => rw [hs']

/-- A process blocks in `send` when it calls it and the channel is full. -/
theorem sending_step (hinv : Inv s) (hstep : s.step a = some s') {pkt : M}
    (hp : s'.call p = some (.sending c pkt)) : s.call p = some (.sending c pkt) ∨
      a = .send p c pkt ∧ (s.queue c).hasRoom = false := by
  cases effect_step hinv hstep with
  | moved _ _ _ hcalls => exact hcalls.sending p c pkt hp
  | ended _ _ _ hs' | looped _ _ _ hs' =>
      rw [hs'] at hp
      exact Or.inl hp

/-- The channel of a process that receives is as it was, if no one else sends on it. -/
theorem queue_other (h : Sound s) (hstep : s.step a = some s')
    (hcall : s.call p = some (.receiving c)) (hp : a.actor ≠ some p) (hsend : a.sendsOn ≠ some c)
    (hsending : ∀ q pkt, s.call q ≠ some (.sending c pkt)) : s'.queue c = s.queue c := by
  have hreceiver : s.receiver c = some p := h.calls.receiver p _ c hcall rfl
  cases effect_step h.inv hstep with
  | moved _ _ _ hcalls =>
      rcases hcalls.queue c with hqueue | hs | hnone | ⟨q, x, hq, hx, ⟨pkt, rfl⟩ | hrecv⟩
      · exact hqueue
      · exact absurd hs hsend
      · exact absurd (hreceiver.symm.trans hnone) (Option.some_ne_none p)
      · exact absurd hx (hsending q pkt)
      · refine absurd (hq.trans ?_) hp
        exact (h.calls.receiver q x c hx hrecv).symm.trans hreceiver
  | ended _ _ _ hs' | looped _ _ _ hs' => rw [hs']

/-- A process runs on until its own move, and the tick stays. -/
theorem running_other (h : Sound s) (hstep : s.step a = some s') (hp : a.actor ≠ some p)
    (hrun : p ∈ s.kernel.sys.running) : p ∈ s'.kernel.sys.running ∧
      s'.kernel.future p = s.kernel.future p ∧ s'.kernel.sys.now = s.kernel.sys.now := by
  cases effect_step h.inv hstep with
  | moved _ hloop hprc _ =>
      exact ⟨(hprc p hp).running.2 hrun, (hprc p hp).future, hloop.now⟩
  | ended _ _ hnone _ =>
      rw [hnone] at hrun
      cases hrun
  | looped _ hb hk hs' =>
      obtain ⟨hfuture, hstays⟩ := Kernel.loop_frame hk hb
      rw [hs']
      refine ⟨hstays p hrun, congrFun hfuture p, ?_⟩
      refine (Kernel.loop_now h.resting hk hb).resolve_right fun hnone => ?_
      rw [hnone.2] at hrun
      cases hrun

theorem not_pastWait_iff (hinv : Inv s) :
    ¬ s.PastWait ↔ s.kernel.stage = .wait ∧ s.kernel.sys.running ≠ [] := by
  rw [hinv.pastWait_iff, not_or, not_not]
  refine and_congr_right fun hstage => not_congr ?_
  rw [hinv.alivePrc hstage, Int.natCast_eq_zero, List.length_eq_zero_iff]

/-- The loop goes on with its wait, unless the last alive process stops. -/
theorem waits_step (hinv : Inv s) (hstep : s.step a = some s') (hwaits : ¬ s.PastWait)
    (hlast : ¬ (s.api.alivePrc = 1 ∧ s.stops a = true)) : ¬ s'.PastWait := by
  obtain ⟨hinv', hmove⟩ := step_move hinv hstep
  rcases hmove with ⟨hstops, hstage, hstage', hrun, -⟩ | ⟨-, hstage', hrun⟩ | ⟨-, hback, -⟩
  · refine (not_pastWait_iff hinv').2 ⟨hstage', fun hnone => hlast ⟨?_, hstops⟩⟩
    rw [hinv.alivePrc hstage, hrun, hnone]
    rfl
  · exact (not_pastWait_iff hinv').2 ⟨hstage', hrun⟩
  · exact fun hpast => hwaits (hback hpast)

/-- While the loop waits for the end of the delta-cycle the tick stays. -/
theorem now_of_wait (hinv : Inv s) (hstep : s.step a = some s') (hstage : s.kernel.stage = .wait) :
    s'.kernel.sys.now = s.kernel.sys.now := by
  cases effect_step hinv hstep with
  | moved _ hloop _ _ => exact hloop.now
  | ended _ _ _ hs' => rw [hs']
  | looped _ hb hk _ => exact absurd hstage (Kernel.loop_stage hk hb)

/-- A suspended process is woken at the end of its delay, and until then the tick is not past it. -/
theorem delayed_other (h : Sound s) (hstep : s.step a = some s') (hp : a.actor ≠ some p) {t : Tick}
    (hdelayed : s.kernel.Delayed p t) :
    (s'.kernel.Delayed p t ∧ (s'.kernel.sys.now = s.kernel.sys.now ∨
        s.kernel.sys.now < s'.kernel.sys.now ∧ s'.kernel.sys.now ≤ t)) ∨
      p ∈ s'.kernel.sys.running ∧ s'.kernel.future p = some (.delay t) ∧
        s'.kernel.sys.now = s.kernel.sys.now := by
  cases effect_step h.inv hstep with
  | moved _ hloop hprc _ => exact Or.inl ⟨hdelayed.of_same hloop (hprc p hp), Or.inl hloop.now⟩
  | ended _ _ _ hs' =>
      rw [hs']
      refine Or.inl ⟨⟨hdelayed.future, hdelayed.stopped, ?_⟩, Or.inl rfl⟩
      exact hdelayed.ordered.imp_left fun ⟨hqueued, hlt, _⟩ => ⟨hqueued, hlt, Or.inr rfl⟩
  | looped _ hb hk hs' =>
      rw [hs']
      rcases hdelayed.loop h.inv.loop hk hb with hdelay | ⟨hrun, hnow⟩
      · exact Or.inl hdelay
      · exact Or.inr ⟨hrun, (congrFun (Kernel.loop_frame hk hb).1 p).trans hdelayed.future, hnow⟩

end Channels

end Ra2m
