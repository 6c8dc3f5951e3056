/-
No wake-up of a session queue is lost, as long as the queue is not flushed.

An operation that is refused waits on the event of the other side.  What can let it
through changes the list, and every operation that changes the list triggers the
event of the side it helps.  That notification is of use only if the process is
among the waiters when it is served, and this is a matter of the loop: the trigger
and the wait are both orders of one delta-cycle, the loop goes through all of them
before the time moves, and a notification is due a tick later at the earliest
(`owed_step`).

`flush` changes the list and triggers nothing.  It empties the list, which lets no
`dequeue` through, but an `enqueue` that waits on the full list now has room and is
not told.
-/
import Ra2m.Sim.SessionQueue
import Ra2m.Proofs.DispatchInv
import Ra2m.Proofs.EventWait

namespace Ra2m

/-! ### What the loop owes a process that waits -/

namespace Kernel

variable {k k' : Kernel} {a : Act} {p : Pid} {e : Nat}

/-- The process is a waiter of the event, or its order is still in the queue. -/
def Awaits (p : Pid) (e : Nat) (k : Kernel) : Prop :=
  .waitOn e p ∈ k.sys.api.orderQ ∨ p ∈ k.sys.sched.waiters e

/-- A notification of the event is pending, and the process will be a waiter when it is served. -/
def Owed (p : Pid) (e : Nat) (k : Kernel) : Prop :=
  (∃ t, Order.notifyAt t e ∈ k.sys.api.orderQ) ∨
    ∃ t, Task.notify t e ∈ k.sys.sched.waitOnTick ∧
      (p ∈ k.sys.sched.waiters e ∨ k.stage = .drain)

theorem Owed.pending (h : Owed p e k) : Pending e k := by
  rcases h with hq | ⟨t, ht, -⟩
  · exact Or.inl hq
  · exact Or.inr ⟨t, ht⟩

/-- What is not the move of a process leaves its future alone, and does not stop it. -/
theorem other_step (hstep : k.step a = some k') (ha : a.actor ≠ some p) :
    k'.future p = k.future p ∧ (p ∈ k.sys.running → p ∈ k'.sys.running) := by
  by_cases hmove : a.isMove = true
  · have hsame := (process_frame hstep hmove).2 p ha
    exact ⟨hsame.future, hsame.running.2⟩
  · rcases step_loop hstep hmove with ⟨-, -, -, s, -, rfl⟩ | ⟨-, -, o, rest, -, rfl⟩ |
      ⟨-, -, nextTick, -, rfl⟩ | ⟨-, -, rfl⟩ | ⟨x, -, -, -, -, n, rfl⟩ | ⟨-, -, -, api, rfl, -⟩
    · exact ⟨rfl, id⟩
    · exact ⟨rfl, id⟩
    · exact ⟨rfl, id⟩
    · exact ⟨rfl, id⟩
    · exact ⟨rfl, fun hp => List.mem_append_right _ hp⟩
    · exact ⟨rfl, id⟩

/-- A poll that leaves the process suspended leaves everything as it was. -/
theorem poll_suspended {f : Future} (hstep : k.step (.poll p) = some k')
    (hf : k'.future p = some f) : k' = k ∧ p ∈ k.sys.running := by
  obtain ⟨hrun, g, -, ⟨-, rfl⟩ | ⟨-, rfl⟩⟩ := poll_cases hstep
  · have hnone : (k.resume p (k.ready p g).2).future p = none := Function.update_self _ _ _
    cases hnone.symm.trans hf
  · exact ⟨rfl, hrun⟩

theorem step_drained (h : k.step .drained = some k') :
    k.sys.api.orderQ = [] ∧ k' = { k with stage := .advance } := by
  simp only [step, Option.ite_none_right_eq_some, Option.some.injEq] at h
  obtain ⟨⟨-, hqueue⟩, rfl⟩ := h
  exact ⟨hqueue, rfl⟩

/-- A process that awaits an event does so until it is woken. -/
theorem awaits_step (h : Awaits p e k) (hstep : k.step a = some k') :
    p ∈ k'.sys.running ∨ Awaits p e k' := by
  by_cases hmove : a.isMove = true
  · obtain ⟨hloop, -⟩ := process_frame hstep hmove
    obtain ⟨new, hnew⟩ := hloop.orders
    right
    unfold Awaits
    rw [hloop.sched, hnew]
    exact h.imp_left (List.mem_append_left new)
  · rcases step_loop hstep hmove with ⟨-, -, -, s, -, rfl⟩ | ⟨-, -, o, rest, hqueue, rfl⟩ |
      ⟨-, -, nextTick, -, rfl⟩ | ⟨-, -, rfl⟩ | ⟨x, -, -, -, -, n, rfl⟩ |
      ⟨-, -, -, api, rfl, hapi⟩
    · exact Or.inr h
    · right
      unfold Awaits
      show _ ∨ p ∈ (k.sys.sched.recv k.sys.now o).waiters e
      rw [Scheduler.recv_waiters]
      rcases h with ho | hw
      · rw [hqueue] at ho
        rcases List.mem_cons.1 ho with rfl | ho
        · refine Or.inr (List.mem_append_right _ ?_)
          rw [Scheduler.waiterOf, if_pos rfl]
          exact List.mem_cons_self
        · exact Or.inl ho
      · exact Or.inr (List.mem_append_left _ hw)
    · exact Or.inr h
    · exact Or.inr h
    · rcases h with ho | hw
      · exact Or.inr (Or.inl ho)
      · by_cases hx : x.event? = some e
        · left
          cases x with
          | wakeup t w => cases hx
          | notify t e' =>
              obtain rfl := Option.some.inj hx
              exact List.mem_append_left _ hw
        · refine Or.inr (Or.inr ?_)
          show p ∈ (k.sys.served x).sched.waiters e
          rw [System.served_waiters, if_neg hx]
          exact hw
    · exact Or.inr (h.imp_left fun ho => hapi ▸ ho)

/-- What is owed to a process stays owed, if the queue of orders is not found empty before the
process is a waiter, until the process is served. -/
theorem owed_step (h : Owed p e k) (hstep : k.step a = some k')
    (hdrained : a = .drained → k.sys.api.orderQ = [] → p ∈ k.sys.sched.waiters e)
    (hserve : ∀ t, a = .serve (.notify t e) → p ∉ k.sys.sched.waiters e) : Owed p e k' := by
  by_cases hmove : a.isMove = true
  · obtain ⟨hloop, -⟩ := process_frame hstep hmove
    obtain ⟨new, hnew⟩ := hloop.orders
    unfold Owed
    rw [hloop.sched, hloop.stage, hnew]
    refine h.imp_left ?_
    rintro ⟨t, ht⟩
    exact ⟨t, List.mem_append_left new ht⟩
  · rcases step_loop hstep hmove with ⟨ha, -, -, s, -, hk⟩ | ⟨-, hstage, o, rest, hqueue, rfl⟩ |
      ⟨-, hstage, nextTick, -, rfl⟩ | ⟨-, hstage, rfl⟩ | ⟨x, rfl, hstage, -, -, n, rfl⟩ |
      ⟨-, hstage, -, api, rfl, hapi⟩
    · rcases h with ho | ⟨t, ht, hp⟩
      · rw [hk]
        exact Or.inl ho
      · refine Or.inr ⟨t, hk ▸ ht, ?_⟩
        rcases ha with rfl | rfl | rfl
        · obtain ⟨hwait, -⟩ := (Option.ite_none_right_eq_some.1 hstep).1
          rw [hwait] at hp
          exact Or.inl (hk ▸ hp.resolve_right Stage.noConfusion)
        · exact Or.inl (hk ▸ hdrained rfl (step_drained hstep).1)
        · have hadvance := (Option.ite_none_right_eq_some.1 hstep).1
          rw [hadvance] at hp
          exact Or.inl (hk ▸ hp.resolve_right Stage.noConfusion)
    · unfold Owed
      show (∃ t, Order.notifyAt t e ∈ rest) ∨
        ∃ t, Task.notify t e ∈ (k.sys.sched.recv k.sys.now o).waitOnTick ∧ (_ ∨ k.stage = .drain)
      rw [Scheduler.recv_waitOnTick]
      rcases h with ⟨t, ht⟩ | ⟨t, ht, -⟩
      · rw [hqueue] at ht
        rcases List.mem_cons.1 ht with rfl | ht
        · exact Or.inr ⟨_, List.mem_append_right _ List.mem_cons_self, Or.inr hstage⟩
        · exact Or.inl ⟨t, ht⟩
      · exact Or.inr ⟨t, List.mem_append_left _ ht, Or.inr hstage⟩
    · rw [Owed, hstage] at h
      exact h.imp_right fun ⟨t, ht, hp⟩ => ⟨t, ht, Or.inl (hp.resolve_right Stage.noConfusion)⟩
    · rw [Owed, hstage] at h
      exact h.imp_right fun ⟨t, ht, hp⟩ => ⟨t, ht, Or.inl (hp.resolve_right Stage.noConfusion)⟩
    · rcases h with ho | ⟨t, ht, hp⟩
      · exact Or.inl ho
      · rw [hstage] at hp
        have hw := hp.resolve_right Stage.noConfusion
        have hx : x.event? ≠ some e := by
          intro hx
          cases x with
          | wakeup t w => cases hx
          | notify t e' => exact hserve t (by rw [Option.some.inj hx]) hw
        refine Or.inr ⟨t, ?_, Or.inl ?_⟩
        · show Task.notify t e ∈ (k.sys.served x).sched.waitOnTick
          rw [System.served_waitOnTick]
          refine (List.mem_erase_of_ne ?_).2 ht
          rintro rfl
          exact hx rfl
        · show p ∈ (k.sys.served x).sched.waiters e
          rw [System.served_waiters, if_neg hx]
          exact hw
    · rw [Owed, hstage] at h
      rcases h with ⟨t, ht⟩ | ⟨t, ht, hp⟩
      · exact Or.inl ⟨t, hapi ▸ ht⟩
      · exact Or.inr ⟨t, ht, Or.inl (hp.resolve_right Stage.noConfusion)⟩

end Kernel

/-! ### The operations on the list -/

namespace QueueOp

variable {T : Type} {q q' : Queue T} {op op' : QueueOp T} {head : List (Packet T)}

/-- The list is full, or holds too few packets. -/
def Blocked (q : Queue T) : QueueOp T → Prop
  | enqueue _ => q.depth ≤ q.ll.length
  | dequeue len => q.ll.length < len

theorem run_eq_none_iff : op.run q = none ↔ op.Blocked q := by
  cases op with
  | enqueue pkt => simp [run, Queue.enqueue, Blocked]
  | dequeue len => simp [run, Queue.dequeue, Blocked]

theorem run_enqueue {pkt : Packet T} (h : (enqueue pkt).run q = some (head, q')) :
    q'.depth = q.depth ∧ q'.ll.length = q.ll.length + 1 := by
  obtain ⟨q₁, hq, hpair⟩ := Option.map_eq_some_iff.1 h
  obtain ⟨-, rfl⟩ := Prod.mk.inj hpair
  obtain ⟨-, rfl⟩ := Queue.enqueue_eq_some hq
  exact ⟨rfl, (Queue.insertPkt_perm pkt q.ll).length_eq⟩

theorem run_dequeue {len : Nat} (h : (dequeue len).run q = some (head, q')) :
    q'.depth = q.depth ∧ q'.ll.length + len = q.ll.length := by
  obtain ⟨hlen, hll, hdepth⟩ := Queue.dequeue_eq_some h
  refine ⟨hdepth, ?_⟩
  rw [hll, List.length_append, hlen, Nat.add_comm]

theorem run_depth (h : op.run q = some (head, q')) : q'.depth = q.depth := by
  cases op with
  | enqueue pkt => exact (run_enqueue h).1
  | dequeue len => exact (run_dequeue h).1

/-- An operation that goes through leaves the others blocked, or triggers the event they wait
on. -/
theorem blocked_or_triggered (qid : Nat) (h : op'.run q = some (head, q'))
    (hblocked : op.Blocked q) : op.Blocked q' ∨ op.awaits qid = op'.triggers qid := by
  cases op' with
  | enqueue pkt' =>
      obtain ⟨hdepth, hlen⟩ := run_enqueue h
      cases op with
      | enqueue pkt =>
          left
          show q'.depth ≤ q'.ll.length
          rw [hdepth, hlen]
          exact Nat.le_succ_of_le hblocked
      | dequeue len => exact Or.inr rfl
  | dequeue len' =>
      obtain ⟨-, hlen⟩ := run_dequeue h
      cases op with
      | enqueue pkt => exact Or.inr rfl
      | dequeue len =>
          left
          have hshort : q.ll.length < len := hblocked
          show q'.ll.length < len
          omega

end QueueOp

/-! ### The processes -/

namespace QueueRun

open Kernel (Awaits Owed Pending)

variable {T : Type} {s s' : QueueRun T} {a : QueueAct T} {p q : Pid} {op : QueueOp T}

/-- What holds between a process and its operation. -/
structure PrcInv (q : Pid) (s : QueueRun T) : Prop where
  looking : ∀ op f, s.call q = .looking op → s.kernel.future q = some f →
    f = .event (op.awaits s.qid) ∧
      (q ∈ s.kernel.sys.running ∨ Awaits q (op.awaits s.qid) s.kernel)
  refused : ∀ op, s.call q = .refused op → s.kernel.Free q

structure Inv (s : QueueRun T) : Prop where
  kernel : Kernel.Inv s.kernel
  prc : ∀ q, PrcInv q s

/-- An operation that has been refused is blocked, or the process is owed a notification. -/
def NoLostWakeup (s : QueueRun T) : Prop :=
  ∀ p op, s.Refused p op → op.Blocked s.queue ∨ Owed p (op.awaits s.qid) s.kernel

/-- A flush finds no `enqueue` refused that is not owed a notification, unless the queue has no
room even when it is empty. -/
def FlushSafe (s : QueueRun T) : QueueAct T → Prop
  | .flush => s.queue.depth = 0 ∨
      ∀ p pkt, s.Refused p (.enqueue pkt) → Owed p (Queue.deqEvt s.qid) s.kernel
  | _ => True

theorem inv_init (now : Tick) (qid depth : Nat) : Inv (init now qid depth : QueueRun T) where
  kernel := Kernel.inv_init now
  prc q := by
    refine ⟨?_, ?_⟩
    · intro op f hcall
      cases hcall
    · intro op hcall
      cases hcall

theorem noLostWakeup_init (now : Tick) (qid depth : Nat) :
    NoLostWakeup (init now qid depth : QueueRun T) := by
  rintro p op (h | ⟨h, -⟩)
  · cases h
  · cases h

/-! ### What a step can be -/

/-- A process inside an operation only polls. -/
theorem poll_of_allows {b : Act} (hallow : s.allows b = true) (hactor : b.actor = some q) :
    b = .poll q ∨ ∃ head, s.call q = .returned head := by
  have hreturned : (s.call q).isReturned = true → ∃ head, s.call q = .returned head := by
    intro h
    cases hcall : s.call q with
    | returned head => exact ⟨head, rfl⟩
    | looking op =>
        rw [hcall] at h
        cases h
    | refused op =>
        rw [hcall] at h
        cases h
  cases b with
  | poll r => exact Or.inl (by rw [Option.some.inj hactor])
  | spawn r | finish r | wait r evt | delay r t | lock r | unlock r =>
      obtain rfl := Option.some.inj hactor
      exact Or.inr (hreturned hallow)
  | _ => cases hactor

theorem step_cases (hstep : step s a = some s') :
    (∃ b k', a = .kernel b ∧ s.allows b = true ∧ s.kernel.step b = some k' ∧
      s' = { s with kernel := k' }) ∨
    (∃ p op, a = .call p op ∧ s.kernel.Free p ∧
      s' = { s with call := Function.update s.call p (.looking op) }) ∨
    (∃ p, ∃ op : QueueOp T, a = .look p ∧ s.call p = .looking op ∧ s.kernel.Free p ∧
      op.Blocked s.queue ∧ s' = { s with call := Function.update s.call p (.refused op) }) ∨
    (∃ p, ∃ op : QueueOp T, ∃ head queue k', a = .look p ∧ op.run s.queue = some (head, queue) ∧
      s.kernel.step (.notify s.kernel.sys.now (op.triggers s.qid)) = some k' ∧
      s' = { s with kernel := k', queue, call := Function.update s.call p (.returned head) }) ∨
    (∃ p op k', a = .wait p ∧ s.call p = .refused op ∧
      s.kernel.step (.wait p (op.awaits s.qid)) = some k' ∧
      s' = { s with kernel := k', call := Function.update s.call p (.looking op) }) ∨
    a = .flush ∧ s' = { s with queue := s.queue.flush } := by
  cases a with
  | kernel b =>
      obtain ⟨hallow, hs⟩ := Option.ite_none_right_eq_some.1 hstep
      obtain ⟨k', hk, rfl⟩ := Option.map_eq_some_iff.1 hs
      exact Or.inl ⟨b, k', rfl, hallow, hk, rfl⟩
  | call p op =>
      obtain ⟨⟨hfree, -⟩, hs⟩ := Option.ite_none_right_eq_some.1 hstep
      exact Or.inr (Or.inl ⟨p, op, rfl, hfree, (Option.some.inj hs).symm⟩)
  | look p =>
      right; right
      simp only [step] at hstep
      split at hstep
      · rename_i op hcall
        obtain ⟨hfree, hs⟩ := Option.ite_none_right_eq_some.1 hstep
        unfold look at hs
        split at hs
        · rename_i hnone
          exact Or.inl ⟨p, op, rfl, hcall, hfree, QueueOp.run_eq_none_iff.1 hnone,
            (Option.some.inj hs).symm⟩
        · rename_i head queue hrun
          obtain ⟨k', hk, rfl⟩ := Option.map_eq_some_iff.1 hs
          exact Or.inr (Or.inl ⟨p, op, head, queue, k', rfl, hrun, hk, rfl⟩)
      · cases hstep
  | wait p =>
      simp only [step] at hstep
      split at hstep
      · rename_i op hcall
        obtain ⟨k', hk, rfl⟩ := Option.map_eq_some_iff.1 hstep
        exact Or.inr (Or.inr (Or.inr (Or.inr (Or.inl ⟨p, op, k', rfl, hcall, hk, rfl⟩))))
      · cases hstep
  | flush =>
      exact Or.inr (Or.inr (Or.inr (Or.inr (Or.inr ⟨rfl, (Option.some.inj hstep).symm⟩))))

/-! ### What a step keeps -/

/-- A step of the kernel that is not the process's own leaves its operation as it was. -/
theorem PrcInv.of_other {b : Act} {k' : Kernel} {queue : Queue T} {call : Pid → QueueCall T}
    (h : PrcInv q s) (hk : s.kernel.step b = some k') (hactor : b.actor ≠ some q)
    (hcall : call q = s.call q) : PrcInv q ⟨k', s.qid, queue, call⟩ := by
  obtain ⟨hfuture, hrunning⟩ := Kernel.other_step hk hactor
  refine ⟨?_, ?_⟩
  · intro op f hlooking hf
    have hf : k'.future q = some f := hf
    obtain ⟨hevent, hplace⟩ := h.looking op f (hcall.symm.trans hlooking) (hfuture.symm.trans hf)
    refine ⟨hevent, ?_⟩
    rcases hplace with hrun | hawaits
    · exact Or.inl (hrunning hrun)
    · exact Kernel.awaits_step hawaits hk
  · intro op hrefused
    obtain ⟨hrun, hnone⟩ := h.refused op (hcall.symm.trans hrefused)
    exact ⟨hrunning hrun, hfuture.trans hnone⟩

theorem PrcInv.of_call {call : Pid → QueueCall T} (h : PrcInv q s) (hcall : call q = s.call q) :
    PrcInv q { s with call } :=
  ⟨fun op f hlooking hf => h.looking op f (hcall.symm.trans hlooking) hf,
    fun op hrefused => h.refused op (hcall.symm.trans hrefused)⟩

theorem PrcInv.of_returned {queue : Queue T} {k : Kernel} {qid : Nat} {call : Pid → QueueCall T}
    {head : List (Packet T)} (h : call q = .returned head) : PrcInv q ⟨k, qid, queue, call⟩ := by
  refine ⟨?_, ?_⟩
  · intro op f hcall
    cases h.symm.trans hcall
  · intro op hcall
    cases h.symm.trans hcall

/-- The first poll of the event suspends the process on it, or lets it look again. -/
theorem prcInv_wait {k' : Kernel} {call : Pid → QueueCall T}
    (hk : s.kernel.step (.wait p (op.awaits s.qid)) = some k') (hcall : call p = .looking op) :
    PrcInv p ⟨k', s.qid, s.queue, call⟩ := by
  refine ⟨?_, ?_⟩
  · intro op' f hlooking hf
    obtain rfl := QueueCall.looking.inj (hcall.symm.trans hlooking)
    have hf : k'.future p = some f := hf
    obtain ⟨-, ⟨-, rfl⟩ | ⟨-, hs⟩⟩ := Kernel.start_cases hk
    · have hnone : Function.update s.kernel.future p none p = none := Function.update_self _ _ _
      cases hnone.symm.trans hf
    · obtain ⟨-, rfl⟩ := Kernel.suspend_eq hs
      have hsome := Function.update_self p (some (Future.event (op.awaits s.qid))) s.kernel.future
      refine ⟨(Option.some.inj (hsome.symm.trans hf)).symm, Or.inr (Or.inl ?_)⟩
      show _ ∈ (s.kernel.sys.api.pushOrder (.waitOn (op.awaits s.qid) p)).orderQ
      rw [SchedulerAPI.pushOrder_orderQ]
      exact List.mem_append_right _ List.mem_cons_self
  · intro op' hrefused
    cases hcall.symm.trans hrefused

theorem inv_step (h : Inv s) (hstep : step s a = some s') : Inv s' := by
  rcases step_cases hstep with ⟨b, k', -, hallow, hk, rfl⟩ | ⟨p, op, -, hfree, rfl⟩ |
    ⟨p, op, -, -, hfree, -, rfl⟩ | ⟨p, op, head, queue, k', -, -, hk, rfl⟩ |
    ⟨p, op, k', -, hcall, hk, rfl⟩ | ⟨-, rfl⟩
  · refine ⟨Kernel.inv_step h.kernel hk, fun q => ?_⟩
    by_cases hactor : b.actor = some q
    · rcases poll_of_allows hallow hactor with rfl | ⟨head, hreturned⟩
      · refine ⟨?_, ?_⟩
        · intro op f hlooking hf
          obtain ⟨rfl, -⟩ := Kernel.poll_suspended hk hf
          exact (h.prc q).looking op f hlooking hf
        · intro op hrefused
          obtain ⟨-, f, hf, -⟩ := Kernel.poll_cases hk
          cases hf.symm.trans ((h.prc q).refused op hrefused).2
      · exact PrcInv.of_returned hreturned
    · exact (h.prc q).of_other hk hactor rfl
  · refine ⟨h.kernel, fun q => ?_⟩
    by_cases hq : q = p
    · subst hq
      have hself : Function.update s.call q (.looking op) q = .looking op :=
        Function.update_self _ _ _
      refine ⟨?_, ?_⟩
      · intro op' f _ hf
        cases hf.symm.trans hfree.2
      · intro op' hrefused
        cases hself.symm.trans hrefused
    · exact (h.prc q).of_call (Function.update_of_ne hq _ _)
  · refine ⟨h.kernel, fun q => ?_⟩
    by_cases hq : q = p
    · subst hq
      have hself : Function.update s.call q (.refused op) q = .refused op :=
        Function.update_self _ _ _
      refine ⟨?_, fun _ _ => hfree⟩
      intro op' f hlooking
      cases hself.symm.trans hlooking
    · exact (h.prc q).of_call (Function.update_of_ne hq _ _)
  · refine ⟨Kernel.inv_step h.kernel hk, fun q => ?_⟩
    by_cases hq : q = p
    · subst hq
      exact PrcInv.of_returned (Function.update_self _ _ _)
    · exact (h.prc q).of_other hk (by simp [Act.actor]) (Function.update_of_ne hq _ _)
  · refine ⟨Kernel.inv_step h.kernel hk, fun q => ?_⟩
    by_cases hq : q = p
    · subst hq
      exact prcInv_wait hk (Function.update_self _ _ _)
    · refine (h.prc q).of_other hk ?_ (Function.update_of_ne hq _ _)
      intro hactor
      exact hq (Option.some.inj hactor).symm
  · exact ⟨h.kernel, fun q => ⟨(h.prc q).looking, (h.prc q).refused⟩⟩

/-! ### No wake-up is lost -/

/-- A step of the kernel that is not the process's own does not get it refused. -/
theorem Refused.of_other {b : Act} {k' : Kernel} {queue : Queue T} {call : Pid → QueueCall T}
    (h : Refused ⟨k', s.qid, queue, call⟩ q op) (hk : s.kernel.step b = some k')
    (hactor : b.actor ≠ some q) (hcall : call q = s.call q) : s.Refused q op := by
  rcases h with hrefused | ⟨hlooking, hf, hrun⟩
  · exact Or.inl (hcall.symm.trans hrefused)
  · obtain ⟨hfuture, hrunning⟩ := Kernel.other_step hk hactor
    exact Or.inr ⟨hcall.symm.trans hlooking, hfuture.symm.trans hf, fun hr => hrun (hrunning hr)⟩

theorem Refused.of_call {call : Pid → QueueCall T} (h : Refused { s with call } q op)
    (hcall : call q = s.call q) : s.Refused q op :=
  h.imp hcall.symm.trans fun hwaiting => ⟨hcall.symm.trans hwaiting.1, hwaiting.2⟩

/-- A process between its look and its wait is not among the waiters of an event. -/
theorem not_waiter {e : Nat} (h : Inv s) (hcall : s.call q = .refused op) :
    q ∉ s.kernel.sys.sched.waiters e := by
  intro hw
  have hnone := ((h.prc q).refused op hcall).2
  cases ((h.kernel.prc q).waiting e hw).symm.trans hnone

/-- A step the kernel takes between the operations keeps what is owed to a process that stays
refused. -/
theorem owed_kernel {b : Act} {k' : Kernel} (h : Inv s) (hallow : s.allows b = true)
    (hk : s.kernel.step b = some k') (hbefore : s.Refused q op)
    (hafter : Refused { s with kernel := k' } q op) (howed : Owed q (op.awaits s.qid) s.kernel) :
    Owed q (op.awaits s.qid) k' := by
  refine Kernel.owed_step howed hk ?_ ?_
  · intro hb hqueue
    subst hb
    rcases hbefore with hrefused | ⟨hlooking, hf, hrun⟩
    · have hfree := (h.prc q).refused op hrefused
      have hnone := List.all_eq_true.1 hallow q hfree.1
      rw [hrefused] at hnone
      cases hnone
    · rcases ((h.prc q).looking op _ hlooking hf).2 with hr | ho | hw
      · exact absurd hr hrun
      · rw [hqueue] at ho
        cases ho
      · exact hw
  · intro t hb hw
    subst hb
    rcases hafter with hrefused | ⟨-, -, hrun⟩
    · exact not_waiter h hrefused hw
    · obtain ⟨-, -, -, n, rfl⟩ := Kernel.step_serve hk
      exact hrun (List.mem_append_left _ hw)

/-- Serving the kernel's other calls, a trigger and a wait, keeps it as well. -/
theorem owed_move {b : Act} {k' : Kernel} {e : Nat} (hk : s.kernel.step b = some k')
    (hmove : b.isMove = true) (howed : Owed q e s.kernel) : Owed q e k' := by
  refine Kernel.owed_step howed hk ?_ ?_
  · rintro rfl
    cases hmove
  · rintro t rfl
    cases hmove

/-- A flush keeps the wake-ups exactly when no `enqueue` is left without one. -/
theorem noLostWakeup_flush_iff (h : NoLostWakeup s) :
    NoLostWakeup { s with queue := s.queue.flush } ↔ FlushSafe s .flush := by
  constructor
  · intro h'
    by_cases hdepth : s.queue.depth = 0
    · exact Or.inl hdepth
    · refine Or.inr fun p pkt hp => (h' p (.enqueue pkt) hp).resolve_left ?_
      intro hfull
      have hfull : s.queue.depth ≤ 0 := hfull
      omega
  · intro hsafe p op hp
    cases op with
    | enqueue pkt =>
        rcases hsafe with hdepth | howed
        · exact Or.inl (le_of_eq hdepth)
        · exact Or.inr (howed p pkt hp)
    | dequeue len =>
        refine (h p (.dequeue len) hp).imp_left fun hshort => ?_
        have hshort : s.queue.ll.length < len := hshort
        show 0 < len
        omega

/-- A step keeps the wake-ups unless it is a flush that loses one. -/
theorem noLostWakeup_step_iff (hinv : Inv s) (h : NoLostWakeup s) (hstep : step s a = some s') :
    NoLostWakeup s' ↔ FlushSafe s a := by
  rcases step_cases hstep with ⟨b, k', rfl, hallow, hk, rfl⟩ | ⟨p, op, rfl, hfree, rfl⟩ |
    ⟨p, op, rfl, -, -, hblocked, rfl⟩ | ⟨p, op, head, queue, k', rfl, hrun, hk, rfl⟩ |
    ⟨p, op, k', rfl, hcall, hk, rfl⟩ | ⟨rfl, rfl⟩
  · refine iff_of_true ?_ trivial
    intro q op hq
    have hbefore : s.Refused q op := by
      by_cases hactor : b.actor = some q
      · rcases poll_of_allows hallow hactor with rfl | ⟨head, hreturned⟩
        · rcases hq with hrefused | ⟨-, hf, hrun⟩
          · exact Or.inl hrefused
          · obtain ⟨rfl, hr⟩ := Kernel.poll_suspended hk hf
            exact absurd hr hrun
        · rcases hq with hrefused | ⟨hlooking, -⟩
          · cases hreturned.symm.trans hrefused
          · cases hreturned.symm.trans hlooking
      · exact hq.of_other hk hactor rfl
    exact (h q op hbefore).imp_right (owed_kernel (s := s) hinv hallow hk hbefore hq)
  · refine iff_of_true ?_ trivial
    intro q op' hq
    by_cases heq : q = p
    · subst heq
      have hself := Function.update_self q (QueueCall.looking op) s.call
      rcases hq with hrefused | ⟨-, hf, -⟩
      · cases hself.symm.trans hrefused
      · cases hf.symm.trans hfree.2
    · exact h q op' (hq.of_call (Function.update_of_ne heq _ _))
  · refine iff_of_true ?_ trivial
    intro q op' hq
    by_cases heq : q = p
    · subst heq
      have hself := Function.update_self q (QueueCall.refused op) s.call
      rcases hq with hrefused | ⟨hlooking, -⟩
      · obtain rfl := QueueCall.refused.inj (hself.symm.trans hrefused)
        exact Or.inl hblocked
      · cases hself.symm.trans hlooking
    · exact h q op' (hq.of_call (Function.update_of_ne heq _ _))
  · refine iff_of_true ?_ trivial
    intro q op' hq
    by_cases heq : q = p
    · subst heq
      have hself := Function.update_self q (QueueCall.returned head) s.call
      rcases hq with hrefused | ⟨hlooking, -⟩
      · cases hself.symm.trans hrefused
      · cases hself.symm.trans hlooking
    · have hbefore : s.Refused q op' :=
        hq.of_other hk (by simp [Act.actor]) (Function.update_of_ne heq _ _)
      rcases h q op' hbefore with hblocked | howed
      · rcases QueueOp.blocked_or_triggered s.qid hrun hblocked with hstill | hevent
        · exact Or.inl hstill
        · refine Or.inr (Or.inl ⟨s.kernel.sys.now, ?_⟩)
          simp only [Kernel.step, Kernel.call, System.step, Option.map_some,
            Option.some.injEq] at hk
          subst hk
          show _ ∈ (s.kernel.sys.api.pushOrder _).orderQ
          rw [SchedulerAPI.pushOrder_orderQ, hevent]
          exact List.mem_append_right _ List.mem_cons_self
      · exact Or.inr (owed_move hk rfl howed)
  · refine iff_of_true ?_ trivial
    intro q op' hq
    by_cases heq : q = p
    · subst heq
      have hself := Function.update_self q (QueueCall.looking op) s.call
      have hop : op' = op := by
        rcases hq with hrefused | ⟨hlooking, -⟩
        · cases hself.symm.trans hrefused
        · exact (QueueCall.looking.inj (hself.symm.trans hlooking)).symm
      subst hop
      exact (h q op' (Or.inl hcall)).imp_right (owed_move hk rfl)
    · have hactor : (Act.wait p (op.awaits s.qid)).actor ≠ some q := by
        intro hactor
        exact heq (Option.some.inj hactor).symm
      have hbefore : s.Refused q op' := hq.of_other hk hactor (Function.update_of_ne heq _ _)
      exact (h q op' hbefore).imp_right (owed_move hk rfl)
  · exact noLostWakeup_flush_iff h

theorem along_flushSafe {acts : List (QueueAct T)} (h : .flush ∉ acts) :
    Runs.Along step FlushSafe s acts := by
  rw [Runs.along_iff]
  intro pre b post s' hsplit _
  cases b with
  | flush => exact absurd (hsplit ▸ List.mem_append_right _ List.mem_cons_self) h
  | _ => trivial

theorem noLostWakeup_run {now : Tick} {qid depth : Nat} {acts : List (QueueAct T)}
    (hrun : Runs.run step (init now qid depth) acts = some s)
    (hsafe : Runs.Along step FlushSafe (init now qid depth) acts) : NoLostWakeup s :=
  (Runs.run_inv_along (I := fun s => Inv s ∧ NoLostWakeup s)
    (fun _ _ _ h hflush hs => ⟨inv_step h.1 hs, (noLostWakeup_step_iff h.1 h.2 hs).2 hflush⟩)
    ⟨inv_init now qid depth, noLostWakeup_init now qid depth⟩ hsafe hrun).2

/-- In every run, whatever the depth and however the operations come between each other, no wake-up
is lost in any state exactly when every flush finds the refused `enqueue`s owed a notification. -/
theorem noLostWakeup_iff_flushSafe {now : Tick} {qid depth : Nat} {acts : List (QueueAct T)}
    (hrun : Runs.run step (init now qid depth) acts = some s) :
    (∀ pre post s', acts = pre ++ post → Runs.run step (init now qid depth) pre = some s' →
      NoLostWakeup s') ↔
      Runs.Along step FlushSafe (init now qid depth) acts :=
  Runs.holds_iff_along (fun _ _ _ hi hs => inv_step hi hs)
    (fun _ _ _ hi h hs => noLostWakeup_step_iff hi h hs) (inv_init now qid depth)
    (noLostWakeup_init now qid depth) hrun

/-- Process 1 fills a queue of depth 1 and waits for room, process 2 takes the packet, and the loop
wakes process 1. -/
def handOver : List (QueueAct Unit) :=
  [.kernel (.spawn 1), .kernel (.spawn 2), .call 1 (.enqueue { uid := 0, payload := () }), .look 1,
    .call 1 (.enqueue { uid := 1, payload := () }), .look 1, .call 2 (.dequeue 1), .look 2, .wait 1,
    .kernel (.finish 2), .kernel .cycleEnded, .kernel .drain, .kernel .drain, .kernel .drain,
    .kernel .drained, .kernel .updateTick, .kernel .clearEvents, .kernel (.serve (.notify 1 1)),
    .kernel (.poll 1), .look 1]

theorem noLostWakeup_handOver :
    ∃ s, Runs.run step (init 0 0 1) handOver = some s ∧ s.queue.ll.map Packet.uid = [1] ∧
      ∀ pre post s', handOver = pre ++ post → Runs.run step (init 0 0 1) pre = some s' →
        NoLostWakeup s' := by
  have hflush : QueueAct.flush ∉ handOver := by simp [handOver]
  exact ⟨_, rfl, rfl, (noLostWakeup_iff_flushSafe rfl).2 (along_flushSafe hflush)⟩

/-- A process waits for room in a full queue, and the queue is flushed. -/
def fullThenFlushed : List (QueueAct Unit) :=
  [.kernel (.spawn 1), .call 1 (.enqueue { uid := 0, payload := () }), .look 1,
    .call 1 (.enqueue { uid := 1, payload := () }), .look 1, .wait 1, .flush]

/-- The queue is empty then, and no notification is pending. -/
theorem flush_loses_wakeup :
    ¬ ∀ (depth : Nat) (acts : List (QueueAct Unit)) (s : QueueRun Unit),
      Runs.run step (init 0 0 depth) acts = some s → ∀ p pkt, s.Waiting p (.enqueue pkt) →
        s.queue.depth ≤ s.queue.ll.length ∨ Pending (Queue.deqEvt s.qid) s.kernel := by
  intro h
  rcases h 1 fullThenFlushed _ rfl 1 { uid := 1, payload := () } ⟨rfl, rfl, by decide⟩ with
    hfull | ⟨t, hqueue⟩ | ⟨t, hheap⟩
  · exact absurd hfull (by decide)
  · have hqueue : Order.notifyAt t 1 ∈ [Order.notifyAt 0 0, Order.waitOn 1 1] := hqueue
    simp at hqueue
  · cases hheap

end QueueRun

end Ra2m
