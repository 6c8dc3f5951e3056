/-
The dispatcher loses no packet, hands none out twice and mixes no sessions.

What `poll_port` has received is, up to order, what the calls have returned, what is in
the queues and what it has in hand: an insertion moves a packet from its hand to a
queue, a split moves packets from a queue to a call.  A queue only takes packets of its
session and a call only takes from the queue it asked for, so a burst is all of one
session; it is the beginning of a sorted list, hence sorted itself.

That is kept by every action but a flush, whatever the order of the arrivals and the
schedule of the processes.
-/
import Ra2m.Sim.Dispatch
import Ra2m.Lib.Runs
import Mathlib.Data.List.Perm.Basic

namespace Ra2m

variable {T : Type}

/-! ### One queue -/

/-- No packet comes before one with a smaller uid. -/
def ByUid (ll : List (Packet T)) : Prop := ll.Pairwise fun p q => p.uid ≤ q.uid

theorem ByUid.increasing {ll : List (Packet T)} (h : ByUid ll) (huid : (ll.map Packet.uid).Nodup) :
    ll.Pairwise fun p q => p.uid < q.uid := by
  have hne : ll.Pairwise fun p q => p.uid ≠ q.uid := List.pairwise_map.mp huid
  exact h.imp₂ (fun _ _ hle hne => Nat.lt_of_le_of_ne hle hne) hne

namespace Queue

theorem insertPkt_perm (pkt : Packet T) (ll : List (Packet T)) :
    (insertPkt pkt ll).Perm (pkt :: ll) := List.perm_orderedInsert _ pkt ll

theorem insertPkt_byUid (pkt : Packet T) {ll : List (Packet T)} (h : ByUid ll) :
    ByUid (insertPkt pkt ll) := by
  induction ll with
  | nil => exact List.pairwise_singleton _ _
  | cons x rest ih =>
      obtain ⟨hx, hrest⟩ := List.pairwise_cons.mp h
      unfold insertPkt
      rw [List.orderedInsert_cons]
      split
      · rename_i hlt
        refine List.pairwise_cons.mpr ⟨?_, h⟩
        intro y hy
        rcases List.mem_cons.mp hy with rfl | hy
        · exact hlt.le
        · exact hlt.le.trans (hx y hy)
      · rename_i hge
        refine List.pairwise_cons.mpr ⟨?_, ih hrest⟩
        intro y hy
        rcases List.mem_cons.mp ((insertPkt_perm pkt rest).mem_iff.mp hy) with rfl | hy
        · exact Nat.le_of_not_lt hge
        · exact hx y hy

/-- What a queue may hold: packets of its session, by uid, no more than its depth. -/
structure Holds (qid : Nat) (q : Queue T) : Prop where
  session : ∀ p ∈ q.ll, p.session = qid
  byUid : ByUid q.ll
  fits : q.ll.length ≤ q.depth

theorem Holds.empty (qid depth : Nat) : Holds qid ({ depth } : Queue T) where
  session := by simp
  byUid := List.Pairwise.nil
  fits := Nat.zero_le _

variable {q q' : Queue T} {pkt : Packet T} {qid : Nat}

theorem enqueue_eq_some (h : q.enqueue pkt = some q') :
    q.ll.length < q.depth ∧ q' = { q with ll := insertPkt pkt q.ll } := by
  unfold enqueue at h
  split at h
  · rename_i hroom
    exact ⟨hroom, (Option.some.inj h).symm⟩
  · cases h

theorem dequeue_eq_some {len : Nat} {head : List (Packet T)}
    (h : q.dequeue len = some (head, q')) :
    head.length = len ∧ q.ll = head ++ q'.ll ∧ q'.depth = q.depth := by
  unfold dequeue splitOff at h
  split at h
  · rename_i hlen
    obtain ⟨rfl, rfl⟩ := Prod.mk.inj (Option.some.inj h)
    refine ⟨?_, ?_, rfl⟩
    · rw [List.drop_zero, List.length_take]
      exact Nat.min_eq_left hlen
    · exact (List.take_append_drop len q.ll).symm
  · cases h

theorem Holds.enqueue (hq : Holds qid q) (h : q.enqueue pkt = some q') (hpkt : pkt.session = qid) :
    Holds qid q' := by
  obtain ⟨hroom, rfl⟩ := enqueue_eq_some h
  have hperm := insertPkt_perm pkt q.ll
  refine ⟨?_, insertPkt_byUid pkt hq.byUid, ?_⟩
  · intro p hp
    rcases List.mem_cons.mp (hperm.mem_iff.mp hp) with rfl | hp
    · exact hpkt
    · exact hq.session p hp
  · change (insertPkt pkt q.ll).length ≤ q.depth
    rw [hperm.length_eq]
    exact hroom

theorem Holds.dequeue {len : Nat} {head : List (Packet T)} (hq : Holds qid q)
    (h : q.dequeue len = some (head, q')) :
    Holds qid q' ∧ head.length = len ∧ ByUid head ∧ ∀ p ∈ head, p.session = qid := by
  obtain ⟨hlen, hll, hdepth⟩ := dequeue_eq_some h
  have hsorted := hq.byUid
  have hfits := hq.fits
  unfold ByUid at hsorted
  rw [hll] at hsorted hfits
  obtain ⟨hhead, htail, -⟩ := List.pairwise_append.mp hsorted
  refine ⟨⟨?_, htail, ?_⟩, hlen, hhead, ?_⟩
  · intro p hp
    exact hq.session p (by rw [hll]; exact List.mem_append_right _ hp)
  · rw [List.length_append] at hfits
    omega
  · intro p hp
    exact hq.session p (by rw [hll]; exact List.mem_append_left _ hp)

end Queue

/-! ### Replacing one element of a list -/

section

variable {α β : Type} {l : List α} {i : Nat} {a : α} (f : α → List β)

/-- What a list of containers holds is what one of them holds and what the others hold. -/
theorem flatMap_perm_eraseIdx (h : l[i]? = some a) :
    (l.flatMap f).Perm (f a ++ (l.eraseIdx i).flatMap f) := by
  obtain ⟨hlt, rfl⟩ := List.getElem?_eq_some_iff.mp h
  exact (List.getElem_cons_eraseIdx_perm hlt).symm.flatMap_right f

theorem flatMap_set_perm (h : l[i]? = some a) (b : α) :
    ((l.set i b).flatMap f).Perm (f b ++ (l.eraseIdx i).flatMap f) := by
  obtain ⟨hlt, rfl⟩ := List.getElem?_eq_some_iff.mp h
  exact (List.set_perm_cons_eraseIdx hlt b).flatMap_right f

/-- An element is replaced by one that looks the same to `g`. -/
theorem map_set_of_eq {γ : Type} {g : α → γ} {b : α} (h : l[i]? = some a) (hb : g b = g a) :
    (l.set i b).map g = l.map g := by
  obtain ⟨hlt, rfl⟩ := List.getElem?_eq_some_iff.mp h
  rw [List.map_set, hb, ← List.getElem_map g (h := by simpa using hlt)]
  exact List.set_getElem_self _

end

/-! ### The dispatcher -/

/-- What a call has returned: as many packets as it asked for, by uid, all of its session. -/
def WaitBurst.Returned (call : WaitBurst T) : Prop :=
  ∀ burst, call.stage = .returned burst →
    burst.length = call.nbPkt ∧ ByUid burst ∧ ∀ p ∈ burst, p.session = call.sid

namespace Dispatch

/-- What holds of the dispatcher, made with these depths, as long as no queue is flushed. -/
structure Conserves (depth : List Nat) (s : Dispatch T) : Prop where
  depths : s.queue.map Queue.depth = depth
  queues : ∀ (qid : Nat) (q : Queue T), s.queue[qid]? = some q → q.Holds qid
  calls : ∀ call ∈ s.calls, call.Returned
  panicked : ∀ pkt, s.pollPort = .panicked pkt → depth.length ≤ pkt.session
  /-- No packet is lost, and none is in two places. -/
  packets : s.received.Perm (s.handedOut ++ (s.queued ++ s.pollPort.held))

namespace Conserves

variable {depth : List Nat} {s s' : Dispatch T}

theorem init (name : String) (pollTask : Nat) (depth : List Nat) :
    (fromDepth name pollTask depth : Dispatch T).Conserves depth where
  depths := by
    rw [fromDepth, List.map_map]
    exact List.map_id _
  queues := by
    intro qid q hq
    obtain ⟨d, -, rfl⟩ : ∃ d, depth[qid]? = some d ∧ ({ depth := d } : Queue T) = q := by
      simpa [fromDepth] using hq
    exact Queue.Holds.empty qid d
  calls := by simp [fromDepth]
  panicked := by simp [fromDepth]
  packets := by simp [fromDepth, handedOut, queued, PollPort.held]

/-- The events, the orders and the stage of `poll_port` count for nothing but the packet in hand. -/
theorem frame (h : s.Conserves depth) (hqueue : s'.queue = s.queue) (hcalls : s'.calls = s.calls)
    (hheld : s'.pollPort.held = s.pollPort.held) (hrecv : s'.received = s.received)
    (hpanic : ∀ pkt, s'.pollPort = .panicked pkt → depth.length ≤ pkt.session) :
    s'.Conserves depth := by
  refine ⟨hqueue ▸ h.depths, hqueue ▸ h.queues, hcalls ▸ h.calls, hpanic, ?_⟩
  rw [hrecv, hheld, handedOut, queued, hcalls, hqueue]
  exact h.packets

theorem set_depths (h : s.Conserves depth) {qid : Nat} {q q' : Queue T}
    (hq : s.queue[qid]? = some q) (hd : q'.depth = q.depth) :
    (s.queue.set qid q').map Queue.depth = depth :=
  (map_set_of_eq hq hd).trans h.depths

theorem set_queues (h : s.Conserves depth) {qid : Nat} {q q' : Queue T}
    (hq : s.queue[qid]? = some q) (hq' : q'.Holds qid) :
    ∀ (i : Nat) (r : Queue T), (s.queue.set qid q')[i]? = some r → r.Holds i := by
  intro i r hr
  by_cases hi : i = qid
  · subst hi
    obtain ⟨hlt, -⟩ := List.getElem?_eq_some_iff.mp hq
    obtain rfl : q' = r := by simpa [hlt] using hr
    exact hq'
  · rw [List.getElem?_set_ne (Ne.symm hi)] at hr
    exact h.queues i r hr

theorem set_calls (h : s.Conserves depth) {i : Nat} {call : WaitBurst T} (hcall : call.Returned) :
    ∀ c ∈ s.calls.set i call, c.Returned := by
  intro c hc
  rcases List.mem_or_eq_of_mem_set hc with hc | rfl
  · exact h.calls c hc
  · exact hcall

/-- A call moves on without packets. -/
theorem stage (h : s.Conserves depth) {i : Nat} {call call' : WaitBurst T}
    (hi : s.calls[i]? = some call) (hcall : call.burst = []) (hcall' : call'.burst = [])
    (hret : call'.Returned) : { s with calls := s.calls.set i call' }.Conserves depth := by
  refine ⟨h.depths, h.queues, h.set_calls hret, h.panicked,
    h.packets.trans (List.Perm.append_right _ ?_)⟩
  have hold := flatMap_perm_eraseIdx WaitBurst.burst hi
  have hnew := flatMap_set_perm WaitBurst.burst hi call'
  rw [hcall] at hold
  rw [hcall'] at hnew
  exact hold.trans hnew.symm

/-- `poll_port` moves its packet into the queue, or keeps it. -/
theorem pollEnqueue (h : s.Conserves depth) {pkt : Packet T} (hp : s.pollPort = .enqueuing pkt) :
    (s.pollEnqueue pkt).Conserves depth := by
  unfold Dispatch.pollEnqueue
  split
  · rename_i hq
    refine h.frame rfl rfl (by rw [hp]; rfl) rfl ?_
    intro p hpanic
    obtain rfl := PollPort.panicked.inj hpanic
    rw [← h.depths, List.length_map]
    exact List.getElem?_eq_none_iff.mp hq
  · rename_i q hq
    split
    · exact h.frame rfl rfl (by rw [hp]; rfl) rfl (by intro _ hpanic; cases hpanic)
    · rename_i q' hq'
      obtain ⟨-, rfl⟩ := Queue.enqueue_eq_some hq'
      refine ⟨h.set_depths hq rfl,
        h.set_queues hq ((h.queues _ q hq).enqueue hq' rfl), h.calls,
        (by intro _ hpanic; cases hpanic), h.packets.trans ?_⟩
      refine List.Perm.append_left _ ?_
      have hold := flatMap_perm_eraseIdx Queue.ll hq
      have hnew := flatMap_set_perm Queue.ll hq { q with ll := Queue.insertPkt pkt q.ll }
      have hpkt := Queue.insertPkt_perm pkt q.ll
      rw [hp]
      calc s.queued ++ [pkt]
        _ |>.Perm (pkt :: s.queued) := List.perm_append_singleton pkt _
        _ |>.Perm (pkt :: (q.ll ++ (s.queue.eraseIdx pkt.session).flatMap Queue.ll)) :=
          hold.cons pkt
        _ |>.Perm (Queue.insertPkt pkt q.ll ++ (s.queue.eraseIdx pkt.session).flatMap Queue.ll) :=
            (hpkt.append_right _).symm
        _ |>.Perm _ := hnew.symm
        _ |>.Perm _ := by rw [PollPort.held, List.append_nil]; exact List.Perm.refl _

/-- A call takes its burst out of the queue, or waits. -/
theorem callDequeue (h : s.Conserves depth) {i : Nat} {call : WaitBurst T}
    (hi : s.calls[i]? = some call) (hstage : call.stage = .dequeuing)
    (hs : s.callDequeue i call = some s') : s'.Conserves depth := by
  have hburst : call.burst = [] := by rw [WaitBurst.burst, hstage]
  unfold Dispatch.callDequeue at hs
  split at hs
  · cases hs
  · rename_i q hq
    split at hs
    · obtain rfl := Option.some.inj hs
      exact h.stage hi hburst rfl (by intro _ hret; cases hret)
    · rename_i head q' hq'
      obtain rfl := Option.some.inj hs
      obtain ⟨hholds, hlen, hsorted, hsession⟩ := (h.queues _ q hq).dequeue hq'
      obtain ⟨-, hll, hdepth⟩ := Queue.dequeue_eq_some hq'
      refine ⟨h.set_depths hq hdepth, h.set_queues hq hholds, h.set_calls ?_,
        h.panicked, h.packets.trans ?_⟩
      · rintro burst hret
        obtain rfl := WaitStage.returned.inj hret
        exact ⟨hlen, hsorted, hsession⟩
      · have hcalls := flatMap_perm_eraseIdx WaitBurst.burst hi
        have hcalls' := flatMap_set_perm WaitBurst.burst hi { call with stage := .returned head }
        have hqueue := flatMap_perm_eraseIdx Queue.ll hq
        have hqueue' := flatMap_set_perm Queue.ll hq q'
        rw [hburst, List.nil_append] at hcalls
        rw [hll, List.append_assoc] at hqueue
        rw [← List.append_assoc, ← List.append_assoc]
        refine List.Perm.append_right _ ?_
        calc s.handedOut ++ s.queued
          _ |>.Perm (s.handedOut ++ (head ++ (s.queue.set call.sid q').flatMap Queue.ll)) :=
              (hqueue.trans (hqueue'.symm.append_left head)).append_left _
          _ |>.Perm (head ++ s.handedOut ++ (s.queue.set call.sid q').flatMap Queue.ll) := by
              rw [← List.append_assoc]
              exact List.perm_append_comm.append_right _
          _ |>.Perm _ := ((hcalls.append_left head).trans hcalls'.symm).append_right _

/-- A new call has not returned anything. -/
theorem waitPktBurst (h : s.Conserves depth) (task sid nbPkt : Nat) :
    { s with calls := s.calls ++ [s.callBurst task sid nbPkt] }.Conserves depth := by
  have hstage : ∀ burst, (s.callBurst task sid nbPkt).stage ≠ .returned burst := by
    intro burst
    unfold callBurst
    split
    · simp
    · split
      · simp
      · simp
  have hburst : (s.callBurst task sid nbPkt).burst = [] := by
    unfold WaitBurst.burst
    split
    · rename_i burst hret
      exact absurd hret (hstage burst)
    · rfl
  refine ⟨h.depths, h.queues, ?_, h.panicked, ?_⟩
  · intro c hc
    rcases List.mem_append.mp hc with hc | hc
    · exact h.calls c hc
    · obtain rfl := List.mem_singleton.mp hc
      exact fun burst hret => absurd hret (hstage burst)
  · have hsame :
        (s.calls ++ [s.callBurst task sid nbPkt]).flatMap WaitBurst.burst = s.handedOut := by
      rw [List.flatMap_append, List.flatMap_singleton, hburst, List.append_nil]
      rfl
    change s.received.Perm ((s.calls ++ [s.callBurst task sid nbPkt]).flatMap WaitBurst.burst ++ _)
    rw [hsame]
    exact h.packets

/-- Every action but a flush keeps what holds of the dispatcher. -/
theorem step (h : s.Conserves depth) {a : DispatchAct T} (hflush : a ≠ .flushAll)
    (hs : s.step a = some s') : s'.Conserves depth := by
  cases a with
  | init =>
      obtain rfl := Option.some.inj hs
      exact h.frame rfl rfl rfl rfl h.panicked
  | receive pkt =>
      simp only [Dispatch.step] at hs
      split at hs
      · rename_i hp
        split at hs
        · obtain rfl := Option.some.inj hs
          refine ⟨h.depths, h.queues, h.calls, (by intro _ hpanic; cases hpanic), ?_⟩
          have hpackets := h.packets
          rw [hp, PollPort.held, List.append_nil] at hpackets
          rw [← List.append_assoc]
          exact hpackets.append_right [pkt]
        · cases hs
      · cases hs
  | enqueue =>
      simp only [Dispatch.step] at hs
      split at hs
      · rename_i pkt hp
        obtain rfl := Option.some.inj hs
        exact h.pollEnqueue hp
      · cases hs
  | wakePoll =>
      simp only [Dispatch.step] at hs
      split at hs
      · rename_i pkt hp
        split at hs
        · obtain rfl := Option.some.inj hs
          exact h.frame rfl rfl (by rw [hp]; rfl) rfl (by intro _ hpanic; cases hpanic)
        · cases hs
      · cases hs
  | waitPktBurst task sid nbPkt =>
      obtain rfl := Option.some.inj hs
      exact h.waitPktBurst task sid nbPkt
  | dequeue i =>
      simp only [Dispatch.step] at hs
      split at hs
      · rename_i call hi
        split at hs
        · rename_i hstage
          exact h.callDequeue hi hstage hs
        · cases hs
      · cases hs
  | wakeCall i =>
      simp only [Dispatch.step] at hs
      split at hs
      · rename_i call hi
        split at hs
        · rename_i hstage
          split at hs
          · obtain rfl := Option.some.inj hs
            have hmove := h.stage hi (by rw [WaitBurst.burst, hstage])
              (rfl : ({ call with stage := .dequeuing } : WaitBurst T).burst = [])
              (by intro _ hret; cases hret)
            exact hmove.frame rfl rfl rfl rfl h.panicked
          · cases hs
        · cases hs
      · cases hs
  | notify evt =>
      simp only [Dispatch.step] at hs
      split at hs
      · obtain rfl := Option.some.inj hs
        exact h.frame rfl rfl rfl rfl h.panicked
      · cases hs
  | clearEvents =>
      obtain rfl := Option.some.inj hs
      exact h.frame rfl rfl rfl rfl h.panicked
  | flushAll => exact absurd rfl hflush

theorem run {s₀ : Dispatch T} (h : s₀.Conserves depth) {acts : List (DispatchAct T)}
    (hflush : DispatchAct.flushAll ∉ acts) (hrun : Runs.run Dispatch.step s₀ acts = some s) :
    s.Conserves depth := by
  have hacts : ∀ a ∈ acts, a ≠ DispatchAct.flushAll := by
    rintro a ha rfl
    exact hflush ha
  exact Runs.run_inv_along (fun _ _ _ h hP hs => h.step hP hs) h (Runs.along_of_forall hacts) hrun

end Conserves

/-- A call has returned each packet once. -/
theorem nodup_burst {s : Dispatch T} (h : (s.handedOut.map Packet.uid).Nodup) {call : WaitBurst T}
    (hcall : call ∈ s.calls) : (call.burst.map Packet.uid).Nodup := by
  rw [handedOut, List.map_flatMap] at h
  exact (List.nodup_flatMap.mp h).1 call hcall

theorem nodup_queue {s : Dispatch T} (h : (s.queued.map Packet.uid).Nodup) {q : Queue T}
    (hq : q ∈ s.queue) : (q.ll.map Packet.uid).Nodup := by
  rw [queued, List.map_flatMap] at h
  exact (List.nodup_flatMap.mp h).1 q hq

/-- Over any run without a flush, packets with different uids are handed out at most once, each to
a call of its session; a burst has the packets asked for in the order of their uids; what was
received is handed out, queued or in the hand of `poll_port`; every queue is sorted and no longer
than its depth; and `poll_port` only stops at a packet there is no queue for. -/
theorem dispatch_conserves (name : String) (pollTask : Nat) (depth : List Nat)
    {acts : List (DispatchAct T)} (hflush : DispatchAct.flushAll ∉ acts) {s : Dispatch T}
    (hrun : Runs.run step (fromDepth name pollTask depth) acts = some s)
    (huid : (s.received.map Packet.uid).Nodup) :
    (s.handedOut.map Packet.uid).Nodup ∧
    (∀ call ∈ s.calls, ∀ burst, call.stage = .returned burst →
      burst.length = call.nbPkt ∧ (burst.Pairwise fun p q => p.uid < q.uid) ∧
        ∀ p ∈ burst, p.session = call.sid) ∧
    s.received.Perm (s.handedOut ++ (s.queued ++ s.pollPort.held)) ∧
    s.queue.map Queue.depth = depth ∧
    (∀ (qid : Nat) (q : Queue T), s.queue[qid]? = some q →
      (q.ll.Pairwise fun p q => p.uid < q.uid) ∧ q.ll.length ≤ q.depth ∧
        ∀ p ∈ q.ll, p.session = qid) ∧
    ∀ pkt, s.pollPort = .panicked pkt → depth.length ≤ pkt.session := by
  have h := (Conserves.init name pollTask depth).run hflush hrun
  have hall := (h.packets.map Packet.uid).nodup_iff.mp huid
  rw [List.map_append, List.map_append] at hall
  have hhanded := (List.nodup_append.mp hall).1
  have hqueued := (List.nodup_append.mp (List.nodup_append.mp hall).2.1).1
  refine ⟨hhanded, ?_, h.packets, h.depths, ?_, h.panicked⟩
  · intro call hcall burst hret
    obtain ⟨hlen, hsorted, hsession⟩ := h.calls call hcall burst hret
    have hnew := nodup_burst hhanded hcall
    rw [WaitBurst.burst, hret] at hnew
    exact ⟨hlen, hsorted.increasing hnew, hsession⟩
  · intro qid q hq
    have hholds := h.queues qid q hq
    have hnew := nodup_queue hqueued (List.mem_of_getElem? hq)
    exact ⟨hholds.byUid.increasing hnew, hholds.fits, hholds.session⟩

/-- A call waits for two packets of a session that arrive in the wrong order, with an untagged one
between them. -/
def lateBurst : List (DispatchAct Unit) :=
  [.init, .waitPktBurst 1 1 2, .dequeue 0,
    .receive { uid := 3, sid := some 1, payload := () }, .enqueue,
    .notify (Queue.enqEvt 1), .wakeCall 0, .dequeue 0, .clearEvents,
    .receive { uid := 4, payload := () }, .enqueue,
    .receive { uid := 2, sid := some 1, payload := () }, .enqueue,
    .notify (Queue.enqEvt 1), .wakeCall 0, .dequeue 0]

theorem dispatch_conserves_lateBurst :
    ∃ s, Runs.run step (fromDepth "rx" 0 [1, 2]) lateBurst = some s ∧
      s.handedOut.map Packet.uid = [2, 3] ∧ s.queued.map Packet.uid = [4] ∧
      s.received.Perm (s.handedOut ++ (s.queued ++ s.pollPort.held)) := by
  have hflush : DispatchAct.flushAll ∉ lateBurst := by simp [lateBurst]
  refine ⟨_, rfl, rfl, rfl, ?_⟩
  exact (dispatch_conserves "rx" 0 [1, 2] hflush rfl (by decide)).2.2.1

end Dispatch

end Ra2m
