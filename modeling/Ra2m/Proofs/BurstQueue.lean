/-
A burst that does not fit into the queue of its session.

`poll_port` puts a packet into the queue only if there is room, and `dequeue` takes
nothing before all packets it asks for are there.  So a burst longer than the queue
is deep never gets out: once the queue is full, `poll_port` waits for a `dequeue`
and the only `dequeue` waits for `poll_port`.

That it gets out when it fits is the invariant of the wake-ups: with no notification
pending, both are refused only by a list that is full and too short at once.  That it
gets stuck when it does not is a run: the queue is filled, the loop serves every
notification, and only then the `dequeue` is called (`exists_stuck`).
-/
import Ra2m.Proofs.LostWakeup

namespace Ra2m

/-! ### The loop until nothing is pending -/

namespace Kernel

variable {k k' : Kernel}

/-- The loop takes all the orders off the queue. -/
theorem run_drain {orders : List (Order Pid)} (hstage : k.stage = .drain)
    (hqueue : k.sys.api.orderQ = orders) :
    Runs.run step k (List.replicate orders.length .drain) = some { k with sys := { k.sys with
      api := { k.sys.api with orderQ := [] }
      sched := orders.foldl (Scheduler.recv k.sys.now) k.sys.sched } } := by
  induction orders generalizing k with
  | nil =>
      have hapi : { k.sys.api with orderQ := [] } = k.sys.api := by rw [← hqueue]
      rw [List.foldl_nil, hapi]
      rfl
  | cons o rest ih =>
      refine Runs.run_cons_iff.2 ⟨{ k with sys := { k.sys with
        api := { k.sys.api with orderQ := rest }, sched := k.sys.sched.recv k.sys.now o } }, ?_, ?_⟩
      · simp [step, call, System.step, hstage, hqueue]
      · exact ih hstage rfl

/-- The loop serves the notifications of an event nobody waits on. -/
theorem run_serve {t : Tick} {e m n : Nat} (hstage : k.stage = .wake)
    (hwoken : k.sys.wokenPrc = some n)
    (hheap : k.sys.sched.waitOnTick = List.replicate m (.notify t e)) (hdue : t ≤ k.sys.now)
    (hnone : k.sys.sched.waiters e = []) :
    ∃ k', Runs.run step k (List.replicate m (.serve (.notify t e))) = some k' ∧
      k'.sys.sched.waitOnTick = [] ∧ k'.sys.api = k.sys.api ∧ k'.sys.running = k.sys.running ∧
      k'.sys.registered = k.sys.registered ∧ k'.future = k.future := by
  induction m generalizing k n with
  | zero => exact ⟨k, rfl, hheap, rfl, rfl, rfl, rfl⟩
  | succ m ih =>
      have hmem : Task.notify t e ∈ k.sys.sched.waitOnTick := by
        rw [hheap]
        exact List.mem_cons_self
      have htick : (Task.notify t e : Task Pid).tick ≤ k.sys.now := hdue
      have hcalled : k.sys.sched.called (.notify t e) = [] := hnone
      have hx : k.step (.serve (.notify t e)) = some { k with sys := { k.sys with
          sched := (k.sys.served (.notify t e)).sched
          keeper := (k.sys.served (.notify t e)).keeper
          wokenPrc := some n } } := by
        simp [step, call, System.step, System.served_called, hstage, hwoken, hmem, htick, hcalled]
      have hleft : (k.sys.served (.notify t e)).sched.waitOnTick =
          List.replicate m (.notify t e) := by
        rw [System.served_waitOnTick, hheap, List.replicate_succ, List.erase_cons_head]
      have hquiet : (k.sys.served (.notify t e)).sched.waiters e = [] := by
        rw [System.served_waiters]
        exact if_pos rfl
      obtain ⟨k', hrun, hrest⟩ := ih (k := { k with sys := { k.sys with
        sched := (k.sys.served (.notify t e)).sched
        keeper := (k.sys.served (.notify t e)).keeper
        wokenPrc := some n } }) hstage rfl hleft hdue hquiet
      exact ⟨k', Runs.run_cons_iff.2 ⟨_, hx, hrun⟩, hrest⟩

/-- Process 0 has triggered an event `m` times in the first delta-cycle. -/
def triggered (now : Tick) (e m : Nat) : Kernel where
  sys := { System.init now with
    api := { hwPrc := 1, alivePrc := 1, orderQ := List.replicate m (.notifyAt now e) }
    registered := [0]
    running := [0] }
  stage := .wait
  future := Function.update (fun _ => none) 0 none

/-- Then it waits on another. -/
def suspended (now : Tick) (e m d : Nat) : Kernel where
  sys := { System.init now with
    api := {
      hwPrc := 1
      alivePrc := 0
      orderQ := List.replicate m (.notifyAt now e) ++ [.waitOn d 0] }
    registered := [0]
    running := [] }
  stage := .wait
  future := Function.update (Function.update (fun _ => none) 0 none) 0 (some (.event d))

theorem triggered_notify (now : Tick) (e m : Nat) :
    (triggered now e m).step (.notify now e) = some (triggered now e (m + 1)) := by
  simp [triggered, step, call, System.step, SchedulerAPI.pushOrder, SchedulerAPI.haltPrc,
    List.replicate_succ']

theorem triggered_wait (now : Tick) (e m d : Nat) :
    (triggered now e m).step (.wait 0 d) = some (suspended now e m d) := rfl

/-- The loop goes on until no notification is pending. -/
theorem exists_quiet (now : Tick) {e d : Nat} (m : Nat) (hne : d ≠ e) :
    ∃ acts k', (∀ a ∈ acts, a.actor = none) ∧
      Runs.run step (suspended now e m d) acts = some k' ∧ (∀ e', ¬ Pending e' k') ∧
      k'.sys.running = [] ∧ k'.sys.registered = [0] ∧
      k'.future = (suspended now e m d).future := by
  cases m with
  | zero =>
      refine ⟨[], _, ?_, rfl, ?_, rfl, rfl, rfl⟩
      · intro a ha
        cases ha
      · rintro e' (⟨t, hqueue⟩ | ⟨t, hheap⟩)
        · have hqueue : Order.notifyAt t e' ∈ [Order.waitOn d 0] := hqueue
          simp at hqueue
        · cases hheap
  | succ m =>
      let orders := (suspended now e (m + 1) d).sys.api.orderQ
      let sched := orders.foldl (Scheduler.recv now) Scheduler.new
      have hheap : sched.waitOnTick = List.replicate (m + 1) (.notify (now + 1) e) := by
        refine (Scheduler.foldl_recv now Scheduler.new orders e).1.trans ?_
        simp [orders, suspended, Scheduler.new, Scheduler.taskOf, List.filterMap_append]
      have hnone : sched.waiters e = [] := by
        refine (Scheduler.foldl_recv now Scheduler.new orders e).2.trans ?_
        simp [orders, suspended, Scheduler.waiterOf, hne, List.filterMap_append]
        rfl
      let k₁ : Kernel := { suspended now e (m + 1) d with stage := .drain }
      let k₂ : Kernel := { k₁ with sys := { k₁.sys with
        api := { k₁.sys.api with orderQ := [] }
        sched := sched } }
      let k₃ : Kernel := { k₂ with
        sys := { k₂.sys with now := now + 1, keeper := {}, wokenPrc := some 0 }
        stage := .wake }
      have hdrain : Runs.run step k₁ (List.replicate orders.length .drain) = some k₂ :=
        run_drain rfl rfl
      have hpeek : MinHeap.peek Task.tick sched.waitOnTick = some (now + 1) := by
        rw [MinHeap.peek_eq_some_iff, hheap]
        refine ⟨⟨_, List.mem_cons_self, rfl⟩, ?_⟩
        intro x hx
        rw [List.eq_of_mem_replicate hx]
        exact le_refl _
      let k₂' : Kernel := { k₂ with stage := .advance }
      let k₂'' : Kernel := { k₂ with sys := { k₂.sys with now := now + 1 }, stage := .clear }
      have hdrained : step k₂ .drained = some k₂' := rfl
      have htick : step k₂' .updateTick = some k₂'' := by
        simp [step, call, System.step, k₂', k₂'', k₂, hpeek]
      have hclear : step k₂'' .clearEvents = some k₃ := rfl
      have hwake : Runs.run step k₂ [.drained, .updateTick, .clearEvents] = some k₃ :=
        Runs.run_cons_iff.2 ⟨k₂', hdrained, Runs.run_cons_iff.2 ⟨k₂'', htick,
          Runs.run_cons_iff.2 ⟨k₃, hclear, rfl⟩⟩⟩
      obtain ⟨k', hserve, hleft, hapi, hrest⟩ := run_serve (k := k₃) rfl rfl hheap (le_refl _) hnone
      refine ⟨Act.cycleEnded :: (List.replicate orders.length Act.drain ++
        ([Act.drained, Act.updateTick, Act.clearEvents] ++
          List.replicate (m + 1) (Act.serve (.notify (now + 1) e)))), k', ?_, ?_, ?_, hrest⟩
      · intro a ha
        simp only [List.mem_cons, List.mem_append, List.mem_replicate, List.not_mem_nil,
          or_false] at ha
        rcases ha with rfl | ⟨-, rfl⟩ | (rfl | rfl | rfl) | ⟨-, rfl⟩
        all_goals rfl
      · exact Runs.run_cons_iff.2 ⟨k₁, rfl, Runs.run_append_iff.2 ⟨k₂, hdrain,
          Runs.run_append_iff.2 ⟨k₃, hwake, hserve⟩⟩⟩
      · rintro e' (⟨t, hqueue⟩ | ⟨t, ht⟩)
        · rw [hapi] at hqueue
          cases hqueue
        · rw [hleft] at ht
          cases ht

end Kernel

/-! ### A burst -/

namespace QueueAct

variable {T : Type}

/-- What is done in a burst of `n` packets: one process puts packets in, one takes `n` of them. -/
def InBurst (poll caller : Pid) (n : Nat) : QueueAct T → Prop
  | call p (.enqueue _) => p = poll
  | call p (.dequeue len) => p = caller ∧ len = n
  | flush => False
  | _ => True

/-- A packet arrives. -/
def isArrival : QueueAct T → Bool
  | call _ (.enqueue _) => true
  | _ => false

def isDequeue : QueueAct T → Bool
  | call _ (.dequeue _) => true
  | _ => false

end QueueAct

/-- In the course of a burst of `n` packets `arrived` of them arrive, and `dequeue` is called
`called` times. -/
structure Burst {T : Type} (poll caller : Pid) (n arrived called : Nat)
    (acts : List (QueueAct T)) : Prop where
  within : ∀ a ∈ acts, a.InBurst poll caller n
  arrived : acts.countP QueueAct.isArrival = arrived
  called : acts.countP QueueAct.isDequeue = called

theorem Burst.append {T : Type} {poll caller : Pid} {n i i' j j' : Nat}
    {acts acts' : List (QueueAct T)} (h : Burst poll caller n i j acts)
    (h' : Burst poll caller n i' j' acts') :
    Burst poll caller n (i + i') (j + j') (acts ++ acts') where
  within := List.forall_mem_append.2 ⟨h.within, h'.within⟩
  arrived := by rw [List.countP_append, h.arrived, h'.arrived]
  called := by rw [List.countP_append, h.called, h'.called]

/-- Without a call no packet arrives and nothing is taken. -/
theorem Burst.of_quiet {T : Type} {poll caller : Pid} {n : Nat} {acts : List (QueueAct T)}
    (h : ∀ a ∈ acts, (∃ b, a = .kernel b) ∨ (∃ p, a = .look p) ∨ ∃ p, a = .wait p) :
    Burst poll caller n 0 0 acts := by
  refine ⟨?_, List.countP_eq_zero.2 ?_, List.countP_eq_zero.2 ?_⟩
  all_goals
    intro a ha
    rcases h a ha with ⟨b, rfl⟩ | ⟨p, rfl⟩ | ⟨p, rfl⟩
  · trivial
  · trivial
  · trivial
  all_goals exact Bool.false_ne_true

theorem Burst.of_arrival {T : Type} (pkt : Packet T) (n : Nat) :
    Burst 0 1 n 1 0 [.call 0 (.enqueue pkt), .look 0] where
  within := by simp [QueueAct.InBurst]
  arrived := rfl
  called := rfl

namespace QueueRun

open Kernel (Pending Owed)

variable {T : Type} {s s' : QueueRun T} {poll caller p : Pid} {n : Nat} {op : QueueOp T}

/-- `poll_port` waits for room and the `dequeue` of the burst for packets, and no notification of
the queue is pending. -/
def Stuck (poll caller : Pid) (n : Nat) (s : QueueRun T) : Prop :=
  (∃ pkt, s.Waiting poll (.enqueue pkt)) ∧ s.Waiting caller (.dequeue n) ∧
    ¬ Pending (Queue.deqEvt s.qid) s.kernel ∧ ¬ Pending (Queue.enqEvt s.qid) s.kernel

/-! ### A burst that fits -/

theorem depth_step {a : QueueAct T} (hstep : step s a = some s') :
    s'.queue.depth = s.queue.depth := by
  rcases step_cases hstep with ⟨b, k', -, -, -, rfl⟩ | ⟨p, op, -, -, rfl⟩ |
    ⟨p, op, -, -, -, -, rfl⟩ | ⟨p, op, head, queue, k', -, hrun, -, rfl⟩ |
    ⟨p, op, k', -, -, -, rfl⟩ | ⟨-, rfl⟩
  · rfl
  · rfl
  · rfl
  · exact QueueOp.run_depth hrun
  · rfl
  · rfl

theorem not_stuck {now : Tick} {qid depth arrived called : Nat} {acts : List (QueueAct T)}
    (hfits : n ≤ depth) (hburst : Burst poll caller n arrived called acts)
    (hrun : Runs.run step (init now qid depth) acts = some s) : ¬ s.Stuck poll caller n := by
  rintro ⟨⟨pkt, henq⟩, hdeq, hnodeq, hnoenq⟩
  have hflush : QueueAct.flush ∉ acts := hburst.within _
  have hkept : NoLostWakeup s := noLostWakeup_run hrun (along_flushSafe hflush)
  have hdepth : s.queue.depth = depth :=
    Runs.run_inv (I := fun s => s.queue.depth = depth)
      (fun s a s' hs hstep => (depth_step hstep).trans hs) rfl hrun
  have hfull : s.queue.depth ≤ s.queue.ll.length :=
    (hkept poll (.enqueue pkt) (Or.inr henq)).resolve_right fun h => hnodeq h.pending
  have hshort : s.queue.ll.length < n :=
    (hkept caller (.dequeue n) (Or.inr hdeq)).resolve_right fun h => hnoenq h.pending
  omega

/-! ### A burst that does not -/

/-- The loop goes on while no process is between its look and its wait. -/
theorem run_kernel {acts : List Act} {k' : Kernel} (hcalls : ∀ q, (s.call q).isRefused = false)
    (hacts : ∀ b ∈ acts, b.actor = none)
    (hrun : Runs.run Kernel.step s.kernel acts = some k') :
    Runs.run step s (acts.map .kernel) = some { s with kernel := k' } := by
  induction acts generalizing s with
  | nil =>
      obtain rfl := Option.some.inj hrun
      rfl
  | cons b rest ih =>
      obtain ⟨hb, hrest⟩ := List.forall_mem_cons.1 hacts
      obtain ⟨k₁, hk, hrun⟩ := Runs.run_cons_iff.1 hrun
      have hnone : s.noneRefused = true := by simp [noneRefused, hcalls]
      have hallow : s.allows b = true := by
        cases b with
        | drain => exact hnone
        | drained => exact hnone
        | spawn p | finish p | wait p e | delay p t | lock p | unlock p | poll p => cases hb
        | _ => rfl
      have hstep : step s (.kernel b) = some { s with kernel := k₁ } := by
        simp [step, hallow, hk]
      exact Runs.run_cons_iff.2 ⟨_, hstep, ih hcalls hrest hrun⟩

theorem step_call (hfree : s.kernel.Free p) (hcall : (s.call p).isReturned = true)
    (op : QueueOp T) : step s (.call p op) =
      some { s with call := Function.update s.call p (.looking op) } :=
  if_pos ⟨hfree, hcall⟩

theorem step_refused (hcall : s.call p = .looking op) (hfree : s.kernel.Free p)
    (hblocked : op.Blocked s.queue) :
    step s (.look p) = some { s with call := Function.update s.call p (.refused op) } := by
  simp only [step, hcall]
  rw [if_pos hfree, look, QueueOp.run_eq_none_iff.2 hblocked]

/-- A refused process that is not let through is suspended. -/
theorem wait_suspends (hcall : s.call p = .refused op) (hfree : s.kernel.Free p)
    (honly : s.kernel.sys.running = [p])
    (hready : (s.kernel.ready p (.event (op.awaits s.qid))).1 = false) :
    ∃ s', step s (.wait p) = some s' ∧ s'.Waiting p op ∧ s'.qid = s.qid ∧
      (∀ e, Pending e s'.kernel → Pending e s.kernel) ∧
      ∀ q op', q ≠ p → s.Waiting q op' → s'.Waiting q op' := by
  let e := op.awaits s.qid
  let k' : Kernel := {
    sys := { s.kernel.sys with
      api := s.kernel.sys.api.pushOrder (.waitOn e p), running := s.kernel.sys.running.erase p }
    stage := s.kernel.stage
    future := Function.update s.kernel.future p (some (.event e)) }
  have hk : s.kernel.step (.wait p e) = some k' := by
    simp [Kernel.step, Kernel.start, Kernel.suspend, System.step, hfree, hfree.1, hready, e, k']
  have hidle : k'.sys.running = [] := by
    show s.kernel.sys.running.erase p = []
    rw [honly, List.erase_cons_head]
  refine ⟨{ s with kernel := k', call := Function.update s.call p (.looking op) }, ?_, ?_, rfl,
    ?_, ?_⟩
  · simp only [step, hcall]
    rw [hk]
    rfl
  · refine ⟨Function.update_self _ _ _, Function.update_self _ _ _, ?_⟩
    show p ∉ k'.sys.running
    rw [hidle]
    exact List.not_mem_nil
  · intro e' hpending
    refine hpending.imp_left ?_
    rintro ⟨t, ht⟩
    have ht : Order.notifyAt t e' ∈ (s.kernel.sys.api.pushOrder (.waitOn e p)).orderQ := ht
    rw [SchedulerAPI.pushOrder_orderQ, List.mem_append] at ht
    refine ⟨t, ht.resolve_right ?_⟩
    intro hlast
    cases List.mem_singleton.1 hlast
  · rintro q op' hq ⟨hlooking, hf, -⟩
    refine ⟨(Function.update_of_ne hq _ _).trans hlooking, (Function.update_of_ne hq _ _).trans hf,
      ?_⟩
    show q ∉ k'.sys.running
    rw [hidle]
    exact List.not_mem_nil

/-- A refused process whose operation is blocked is suspended in the end, also if an earlier
notification lets it look once more. -/
theorem exists_waiting (hcall : s.call p = .refused op) (hfree : s.kernel.Free p)
    (honly : s.kernel.sys.running = [p]) (hblocked : op.Blocked s.queue) :
    ∃ acts s', (∀ a ∈ acts, a = .look p ∨ a = .wait p) ∧ Runs.run step s acts = some s' ∧
      s'.Waiting p op ∧ s'.qid = s.qid ∧ (∀ e, Pending e s'.kernel → Pending e s.kernel) ∧
      ∀ q op', q ≠ p → s.Waiting q op' → s'.Waiting q op' := by
  by_cases hready : (s.kernel.ready p (.event (op.awaits s.qid))).1 = true
  · let k₁ : Kernel := s.kernel.resume p (s.kernel.ready p (.event (op.awaits s.qid))).2
    let s₁ : QueueRun T :=
      { s with kernel := k₁, call := Function.update s.call p (.looking op) }
    let s₂ : QueueRun T := { s₁ with call := Function.update s₁.call p (.refused op) }
    have hfree₁ : k₁.Free p := ⟨hfree.1, Function.update_self _ _ _⟩
    have hwait : step s (.wait p) = some s₁ := by
      have hk : s.kernel.step (.wait p (op.awaits s.qid)) = some k₁ := by
        simp [Kernel.step, Kernel.start, hfree, hready, k₁]
      simp only [step, hcall]
      rw [hk]
      rfl
    have hlook : step s₁ (.look p) = some s₂ :=
      step_refused (Function.update_self _ _ _) hfree₁ hblocked
    have hpassed : (s₂.kernel.ready p (.event (op.awaits s₂.qid))).1 = false := by
      have hwoken : p ∈ (s.kernel.ready p (.event (op.awaits s.qid))).2.wokenProcess := by
        have hready' : (s.kernel.sys.keeper.isTriggered (op.awaits s.qid) p).1 = true := hready
        show p ∈ (s.kernel.sys.keeper.isTriggered (op.awaits s.qid) p).2.wokenProcess
        rw [EventKeeper.isTriggered_wokenProcess, if_pos hready']
        exact List.mem_append_right _ List.mem_cons_self
      rw [Bool.eq_false_iff]
      intro h
      exact (Kernel.ready_event_iff.1 h).2 hwoken
    obtain ⟨s', hstep, hwaiting, hqid, hpending, hothers⟩ :=
      wait_suspends (s := s₂) (Function.update_self _ _ _) hfree₁ honly hpassed
    refine ⟨[.wait p, .look p, .wait p], s', by simp, ?_, hwaiting, hqid, hpending, ?_⟩
    · exact Runs.run_cons_iff.2 ⟨s₁, hwait, Runs.run_cons_iff.2 ⟨s₂, hlook,
        Runs.run_cons_iff.2 ⟨s', hstep, rfl⟩⟩⟩
    · rintro q op' hq ⟨hlooking, hf, hrun⟩
      refine hothers q op' hq ⟨?_, (Function.update_of_ne hq _ _).trans hf, hrun⟩
      exact ((Function.update_of_ne hq _ _).trans (Function.update_of_ne hq _ _)).trans hlooking
  · obtain ⟨s', hstep, h⟩ := wait_suspends hcall hfree honly (by simpa using hready)
    refine ⟨[.wait p], s', by simp, Runs.run_cons_iff.2 ⟨s', hstep, rfl⟩, h⟩

/-- `m` packets have been put into the queue, and the loop has served nothing yet. -/
structure Filled (now : Tick) (qid depth m : Nat) (s : QueueRun T) : Prop where
  kernel : s.kernel = Kernel.triggered now (Queue.enqEvt qid) m
  qid : s.qid = qid
  depth : s.queue.depth = depth
  length : s.queue.ll.length = m
  calls : ∀ p, (s.call p).isReturned = true

/-- As long as there is room `poll_port` puts packet after packet into the queue. -/
theorem exists_filled (now : Tick) (qid depth n : Nat) (pkt : Packet T) {m : Nat} (hm : m ≤ depth) :
    ∃ (acts : List (QueueAct T)) (s : QueueRun T), Burst 0 1 n m 0 acts ∧
      Runs.run step (init now qid depth) acts = some s ∧ Filled now qid depth m s := by
  induction m with
  | zero =>
      refine ⟨[.kernel (.spawn 0)], _, Burst.of_quiet ?_, rfl, rfl, rfl, rfl, rfl, fun _ => rfl⟩
      intro a ha
      exact Or.inl ⟨_, List.mem_singleton.1 ha⟩
  | succ m ih =>
      obtain ⟨acts, s, hburst, hrun, h⟩ := ih (Nat.le_of_succ_le hm)
      obtain ⟨k, q, queue, call⟩ := s
      obtain ⟨hkernel, hqid, hdepth, hlength, hcalls⟩ := h
      obtain rfl : k = Kernel.triggered now (Queue.enqEvt qid) m := hkernel
      obtain rfl : q = qid := hqid
      have hfree : (Kernel.triggered now (Queue.enqEvt q) m).Free 0 := ⟨List.mem_cons_self, rfl⟩
      obtain ⟨⟨head, queue'⟩, hroom⟩ :
          ∃ r, (QueueOp.enqueue pkt).run queue = some r := by
        refine Option.ne_none_iff_exists'.1 fun hnone => ?_
        have hfull : queue.depth ≤ queue.ll.length := QueueOp.run_eq_none_iff.1 hnone
        have hdepth : queue.depth = depth := hdepth
        have hlength : queue.ll.length = m := hlength
        omega
      obtain ⟨hdepth', hlength'⟩ := QueueOp.run_enqueue hroom
      let call₁ := Function.update call 0 (.looking (.enqueue pkt))
      refine ⟨acts ++ [QueueAct.call 0 (.enqueue pkt), QueueAct.look 0],
        ⟨Kernel.triggered now (Queue.enqEvt q) (m + 1), q, queue',
          Function.update call₁ 0 (.returned head)⟩, ?_, ?_, ?_⟩
      · exact hburst.append (Burst.of_arrival pkt n)
      · refine Runs.run_append_iff.2 ⟨_, hrun, Runs.run_cons_iff.2 ⟨⟨_, q, queue, call₁⟩,
          step_call hfree (hcalls 0) _, Runs.run_cons_iff.2 ⟨_, ?_, rfl⟩⟩⟩
        · have hlooking : call₁ 0 = .looking (.enqueue pkt) := Function.update_self _ _ _
          simp only [step, hlooking, look, hroom]
          rw [if_pos hfree]
          exact congrArg (Option.map _) (Kernel.triggered_notify now (Queue.enqEvt q) m)
      · refine ⟨rfl, rfl, hdepth'.trans hdepth, hlength'.trans (congrArg (· + 1) hlength), ?_⟩
        intro p
        by_cases hp : p = 0
        · subst hp
          show (Function.update call₁ 0 (.returned head) 0).isReturned = true
          rw [Function.update_self]
          rfl
        · have hsame : Function.update call₁ 0 (.returned head) p = call p :=
            (Function.update_of_ne hp _ _).trans (Function.update_of_ne hp _ _)
          exact (congrArg QueueCall.isReturned hsame).trans (hcalls p)

/-- `poll_port` has filled the queue and is suspended with the next packet. -/
structure Parked (now : Tick) (qid depth : Nat) (pkt : Packet T) (s : QueueRun T) : Prop where
  kernel : s.kernel = Kernel.suspended now (Queue.enqEvt qid) depth (Queue.deqEvt qid)
  qid : s.qid = qid
  length : s.queue.ll.length = depth
  call : s.call 0 = .looking (.enqueue pkt)
  idle : ∀ p, p ≠ 0 → (s.call p).isReturned = true

theorem exists_parked (now : Tick) (qid depth n : Nat) (pkt : Packet T) :
    ∃ (acts : List (QueueAct T)) (s : QueueRun T), Burst 0 1 n (depth + 1) 0 acts ∧
      Runs.run step (init now qid depth) acts = some s ∧ Parked now qid depth pkt s := by
  obtain ⟨acts, ⟨k, q, queue, call⟩, hburst, hrun, hkernel, hqid, hdepth, hlength, hcalls⟩ :=
    exists_filled now qid depth n pkt (le_refl depth)
  obtain rfl : k = Kernel.triggered now (Queue.enqEvt qid) depth := hkernel
  obtain rfl : q = qid := hqid
  have hfree : (Kernel.triggered now (Queue.enqEvt q) depth).Free 0 := ⟨List.mem_cons_self, rfl⟩
  have hblocked : (QueueOp.enqueue pkt).Blocked queue := le_of_eq (hdepth.trans hlength.symm)
  let call₁ := Function.update call 0 (.looking (.enqueue pkt))
  let call₂ := Function.update call₁ 0 (.refused (.enqueue pkt))
  let call₃ := Function.update call₂ 0 (.looking (.enqueue pkt))
  let s₁ : QueueRun T := ⟨Kernel.triggered now (Queue.enqEvt q) depth, q, queue, call₁⟩
  let s₂ : QueueRun T := { s₁ with call := call₂ }
  let s₃ : QueueRun T :=
    ⟨Kernel.suspended now (Queue.enqEvt q) depth (Queue.deqEvt q), q, queue, call₃⟩
  have hlooking : s₁.call 0 = .looking (.enqueue pkt) := rfl
  have hlook : step s₁ (.look 0) = some s₂ := step_refused hlooking hfree hblocked
  have hwait : step s₂ (.wait 0) = some s₃ := by
    have hrefused : s₂.call 0 = .refused (.enqueue pkt) := rfl
    simp only [step, hrefused]
    exact congrArg (Option.map _) (Kernel.triggered_wait now (Queue.enqEvt q) depth _)
  have hpast : Burst 0 1 n 0 0 ([.wait 0] : List (QueueAct T)) := by
    refine Burst.of_quiet ?_
    intro a ha
    exact Or.inr (Or.inr ⟨0, List.mem_singleton.1 ha⟩)
  refine ⟨acts ++ [QueueAct.call 0 (.enqueue pkt), QueueAct.look 0] ++ [QueueAct.wait 0], s₃,
    (hburst.append (Burst.of_arrival pkt n)).append hpast, ?_, rfl, rfl, hlength, rfl,
    ?_⟩
  · rw [List.append_assoc]
    exact Runs.run_append_iff.2 ⟨_, hrun, Runs.run_cons_iff.2 ⟨s₁, step_call hfree (hcalls 0) _,
      Runs.run_cons_iff.2 ⟨s₂, hlook, Runs.run_cons_iff.2 ⟨s₃, hwait, rfl⟩⟩⟩⟩
  · intro p hp
    have hsame : call₃ p = call p := ((Function.update_of_ne hp _ _).trans
      (Function.update_of_ne hp _ _)).trans (Function.update_of_ne hp _ _)
    exact (congrArg QueueCall.isReturned hsame).trans (hcalls p)

/-- The loop has served every notification since. -/
structure Quiet (qid depth : Nat) (pkt : Packet T) (s : QueueRun T) : Prop where
  waiting : s.Waiting 0 (.enqueue pkt)
  pending : ∀ e, ¬ Pending e s.kernel
  running : s.kernel.sys.running = []
  registered : s.kernel.sys.registered = [0]
  idle : (s.call 1).isReturned = true
  qid : s.qid = qid
  length : s.queue.ll.length = depth

theorem exists_quiet (now : Tick) (qid depth n : Nat) (pkt : Packet T) :
    ∃ (acts : List (QueueAct T)) (s : QueueRun T), Burst 0 1 n (depth + 1) 0 acts ∧
      Runs.run step (init now qid depth) acts = some s ∧ Quiet qid depth pkt s := by
  obtain ⟨acts, ⟨k, q, queue, call⟩, hburst, hrun, hkernel, hqid, hlength, hcall, hidle⟩ :=
    exists_parked now qid depth n pkt
  obtain rfl : k = Kernel.suspended now (Queue.enqEvt qid) depth (Queue.deqEvt qid) := hkernel
  obtain rfl : q = qid := hqid
  have hne : Queue.deqEvt q ≠ Queue.enqEvt q := by
    unfold Queue.deqEvt Queue.enqEvt
    omega
  obtain ⟨loop, k', hloop, hquiet, hpending, hrunning, hregistered, hfuture⟩ :=
    Kernel.exists_quiet now depth hne
  have hcalls : ∀ p, (call p).isRefused = false := by
    intro p
    by_cases hp : p = 0
    · rw [hp]
      exact congrArg QueueCall.isRefused hcall
    · have hreturned : (call p).isReturned = true := hidle p hp
      cases hp : call p with
      | returned head => rfl
      | looking op => rfl
      | refused op =>
          rw [hp] at hreturned
          cases hreturned
  have hpast : Burst 0 1 n 0 0 (loop.map .kernel : List (QueueAct T)) := by
    refine Burst.of_quiet ?_
    intro a ha
    obtain ⟨b, -, rfl⟩ := List.mem_map.1 ha
    exact Or.inl ⟨b, rfl⟩
  refine ⟨acts ++ loop.map .kernel, ⟨k', q, queue, call⟩, hburst.append hpast, ?_, ?_⟩
  · exact Runs.run_append_iff.2 ⟨_, hrun, run_kernel hcalls hloop hquiet⟩
  · refine ⟨⟨hcall, ?_, ?_⟩, hpending, hrunning, hregistered, hidle 1 Nat.one_ne_zero, rfl,
      hlength⟩
    · show k'.future 0 = _
      rw [hfuture]
      rfl
    · show 0 ∉ k'.sys.running
      rw [hrunning]
      exact List.not_mem_nil

/-- A burst that does not fit gets stuck: the `dequeue` is called when the queue is full. -/
theorem exists_stuck (now : Tick) (qid : Nat) {depth n : Nat} (pkt : Packet T) (hlong : depth < n) :
    ∃ (acts : List (QueueAct T)) (s : QueueRun T), Burst 0 1 n (depth + 1) 1 acts ∧
      Runs.run step (init now qid depth) acts = some s ∧ s.Stuck 0 1 n := by
  obtain ⟨acts, s, hburst, hrun, h⟩ := exists_quiet now qid depth n pkt
  let k₁ : Kernel := {
    sys := { s.kernel.sys with
      api := s.kernel.sys.api.registerNewPrc
      registered := [1, 0]
      running := [1] }
    stage := s.kernel.stage
    future := Function.update s.kernel.future 1 none }
  let s₁ : QueueRun T := { s with kernel := k₁ }
  let s₂ : QueueRun T := { s₁ with call := Function.update s₁.call 1 (.looking (.dequeue n)) }
  let s₃ : QueueRun T := { s₂ with call := Function.update s₂.call 1 (.refused (.dequeue n)) }
  have hspawn : step s (.kernel (.spawn 1)) = some s₁ := by
    have hallow : s.allows (.spawn 1) = true := h.idle
    have hk : s.kernel.step (.spawn 1) = some k₁ := by
      simp [Kernel.step, Kernel.call, System.step, h.registered, h.running, k₁]
    simp [step, hallow, hk, s₁]
  have hfree : k₁.Free 1 := ⟨List.mem_cons_self, rfl⟩
  have hblocked : (QueueOp.dequeue n : QueueOp T).Blocked s.queue := by
    show s.queue.ll.length < n
    rw [h.length]
    exact hlong
  have hlooking : s₂.call 1 = .looking (.dequeue n) := rfl
  have hlook : step s₂ (.look 1) = some s₃ := step_refused hlooking hfree hblocked
  have hrefused : s₃.call 1 = .refused (.dequeue n) := rfl
  obtain ⟨last, s', hlast, hrun', hwaiting, hqid, hpending, hothers⟩ :=
    exists_waiting (s := s₃) hrefused hfree rfl hblocked
  have hpoll : s₃.Waiting 0 (.enqueue pkt) := by
    obtain ⟨hlooking, hf, -⟩ := h.waiting
    have hidle : 0 ∉ [1] := by decide
    exact ⟨hlooking, hf, hidle⟩
  have hnone : ∀ e, ¬ Pending e s'.kernel := fun e he => h.pending e (hpending e he)
  have hcalled : Burst 0 1 n 0 1
      ([.kernel (.spawn 1), .call 1 (.dequeue n), .look 1] : List (QueueAct T)) :=
    ⟨by simp [QueueAct.InBurst], rfl, rfl⟩
  have hpast : Burst 0 1 n 0 0 last := by
    refine Burst.of_quiet ?_
    intro a ha
    rcases hlast a ha with rfl | rfl
    · exact Or.inr (Or.inl ⟨1, rfl⟩)
    · exact Or.inr (Or.inr ⟨1, rfl⟩)
  have hcall : step s₁ (.call 1 (.dequeue n)) = some s₂ :=
    step_call (s := s₁) hfree h.idle _
  let start : List (QueueAct T) := [.kernel (.spawn 1), .call 1 (.dequeue n), .look 1]
  refine ⟨acts ++ (start ++ last), s',
    hburst.append (hcalled.append hpast), ?_,
    ⟨pkt, hothers 0 _ Nat.zero_ne_one hpoll⟩, hwaiting, hnone _, hnone _⟩
  exact Runs.run_append_iff.2 ⟨s, hrun, Runs.run_append_iff.2 ⟨s₃,
      Runs.run_cons_iff.2 ⟨s₁, hspawn, Runs.run_cons_iff.2 ⟨s₂, hcall,
        Runs.run_cons_iff.2 ⟨s₃, hlook, rfl⟩⟩⟩, hrun'⟩⟩

/-- Whatever the depth, a burst never gets stuck exactly when its packets fit into the queue. -/
theorem burst_neverStuck_iff [Inhabited T] (now : Tick) (qid depth n : Nat) :
    (∀ (poll caller : Pid) (arrived called : Nat) (acts : List (QueueAct T)) (s : QueueRun T),
      arrived ≤ n → called ≤ 1 → Burst poll caller n arrived called acts →
      Runs.run step (init now qid depth) acts = some s → ¬ s.Stuck poll caller n) ↔ n ≤ depth := by
  constructor
  · intro h
    by_contra hlong
    have hlong : depth < n := Nat.lt_of_not_le hlong
    obtain ⟨acts, s, hburst, hrun, hstuck⟩ :=
      exists_stuck now qid ({ uid := 0, payload := default } : Packet T) hlong
    exact h 0 1 (depth + 1) 1 acts s hlong (le_refl 1) hburst hrun hstuck
  · intro hfits poll caller arrived called acts s _ _ hburst hrun
    exact not_stuck hfits hburst hrun

/-- Two packets and a queue of depth 1. -/
theorem twoPackets_stuck :
    ¬ ∀ (poll caller : Pid) (arrived called : Nat) (acts : List (QueueAct Unit))
      (s : QueueRun Unit), arrived ≤ 2 → called ≤ 1 → Burst poll caller 2 arrived called acts →
      Runs.run step (init 0 0 1) acts = some s → ¬ s.Stuck poll caller 2 := by
  intro h
  obtain ⟨acts, s, hburst, hrun, hstuck⟩ :=
    exists_stuck 0 0 ({ uid := 0, payload := () } : Packet Unit) Nat.one_lt_two
  exact h 0 1 2 1 acts s (le_refl 2) (le_refl 1) hburst hrun hstuck

end QueueRun

end Ra2m
