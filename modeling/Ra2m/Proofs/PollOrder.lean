/-
What the yield after a transfer is good for.

If the runtime polls a process that a transfer made runnable before it polls the one
that made it runnable again, as one that serves its tasks in turn does, then a process
comes back from its yield only when nobody blocked on its channel can go on
(`PolledInTurn`).  In a run that meets this, no last alive process stops too early, so
every transfer is completed in its tick.

The invariant is that a process that can go on is *covered*: the one on the other side
of its channel is in its yield, and so alive.  It holds because a channel has one sender
and one receiver at a time; both halves of it, for senders and for receivers, are
instances of `Covered`.
-/
import Ra2m.Proofs.Transfer

namespace Ra2m

open Runs

/-! ### Who has borrowed an endpoint -/

section

variable {M : Type} {call : Pid → Option (PortCall M)} {p : Pid} {c : Nat}

/-- The calls that have borrowed an endpoint of a channel are those of its owner. -/
def Borrowed (side : PortCall M → Option Nat) (owner : Nat → Option Pid)
    (call : Pid → Option (PortCall M)) : Prop :=
  ∀ p x c, call p = some x → side x = some c → owner c = some p

variable {side : PortCall M → Option Nat} {owner : Nat → Option Pid} {x : PortCall M}

theorem Borrowed.take (h : Borrowed side owner call) (hfree : owner c = none)
    (hx : side x = some c) :
    Borrowed side (Function.update owner c (some p)) (Function.update call p (some x)) := by
  intro q y c' hq hy
  by_cases hqp : q = p
  · rw [hqp, Function.update_self] at hq
    obtain rfl := Option.some.inj hq
    obtain rfl := Option.some.inj (hx.symm.trans hy)
    rw [hqp, Function.update_self]
  · rw [Function.update_of_ne hqp] at hq
    have hown := h q y c' hq hy
    rw [Function.update_of_ne, hown]
    intro hc
    rw [hc, hfree] at hown
    cases hown

theorem Borrowed.give (h : Borrowed side owner call) (hp : call p = some x) (hx : side x = some c) :
    Borrowed side (Function.update owner c none) (Function.update call p none) := by
  intro q y c' hq hy
  by_cases hqp : q = p
  · rw [hqp, Function.update_self] at hq
    cases hq
  · rw [Function.update_of_ne hqp] at hq
    have hown := h q y c' hq hy
    rw [Function.update_of_ne, hown]
    intro hc
    rw [hc, h p x c hp hx] at hown
    exact hqp (Option.some.inj hown).symm

/-- A call that uses the other endpoint. -/
theorem Borrowed.other (h : Borrowed side owner call) {x : Option (PortCall M)}
    (hx : x.bind side = none) : Borrowed side owner (Function.update call p x) := by
  intro q y c' hq hy
  by_cases hqp : q = p
  · rw [hqp, Function.update_self] at hq
    rw [hq, Option.bind_some, hy] at hx
    cases hx
  · rw [Function.update_of_ne hqp] at hq
    exact h q y c' hq hy

theorem Borrowed.unique (h : Borrowed side owner call) {q : Pid} {y : PortCall M}
    (hp : call p = some x) (hx : side x = some c) (hq : call q = some y) (hy : side y = some c) :
    p = q :=
  Option.some.inj ((h p x c hp hx).symm.trans (h q y c hq hy))

end

/-! ### Who is covered -/

section

variable {M : Type} {call : Pid → Option (PortCall M)} {p : Pid}
  {waits covers : Nat → PortCall M → Prop} {ready ready' : Nat → Prop}

/-- For every call that waits on a channel that is ready there is one that covers it. -/
def Covered (waits covers : Nat → PortCall M → Prop) (ready : Nat → Prop)
    (call : Pid → Option (PortCall M)) : Prop :=
  ∀ p x c, call p = some x → waits c x → ready c → ∃ q y, call q = some y ∧ covers c y

/-- A process moves to another call, or to none: that one does not wait on a channel that is ready,
and what waits on one is covered by it, or was covered by another process. -/
theorem Covered.update (h : Covered waits covers ready call) {x' : Option (PortCall M)}
    (hnew : ∀ x c, x' = some x → waits c x → ¬ ready' c)
    (hold : ∀ q x c, q ≠ p → call q = some x → waits c x → ready' c →
      (∃ y, x' = some y ∧ covers c y) ∨ ready c ∧ ∀ z, call p = some z → ¬ covers c z) :
    Covered waits covers ready' (Function.update call p x') := by
  intro q x c hq hx hready
  by_cases hqp : q = p
  · rw [hqp, Function.update_self] at hq
    exact absurd hready (hnew x c hq hx)
  · rw [Function.update_of_ne hqp] at hq
    rcases hold q x c hqp hq hx hready with ⟨y, hy, hcov⟩ | ⟨hbefore, hleft⟩
    · exact ⟨p, y, by rw [Function.update_self, hy], hcov⟩
    · obtain ⟨r, y, hr, hcov⟩ := h q x c hq hx hbefore
      refine ⟨r, y, ?_, hcov⟩
      rw [Function.update_of_ne, hr]
      intro hrp
      exact hleft y (hrp ▸ hr) hcov

/-- A process that is in no call starts one. -/
theorem Covered.start (h : Covered waits covers ready call) (hnone : call p = none) {x : PortCall M}
    (hnew : ∀ c, waits c x → ¬ ready' c)
    (hold : ∀ q y c, call q = some y → waits c y → ready' c → covers c x ∨ ready c) :
    Covered waits covers ready' (Function.update call p (some x)) := by
  refine h.update ?_ ?_
  · intro y c hy hw
    obtain rfl := Option.some.inj hy
    exact hnew c hw
  · intro q y c _ hq hw hready
    rcases hold q y c hq hw hready with hcov | hbefore
    · exact Or.inl ⟨x, rfl, hcov⟩
    · refine Or.inr ⟨hbefore, ?_⟩
      intro z hz
      rw [hnone] at hz
      cases hz

/-- A process comes back from its call. -/
theorem Covered.leave (h : Covered waits covers ready call) {x : PortCall M} (hp : call p = some x)
    (hold : ∀ q y c, q ≠ p → call q = some y → waits c y → ready' c → ready c ∧ ¬ covers c x) :
    Covered waits covers ready' (Function.update call p none) := by
  refine h.update ?_ ?_
  · intro y c hy
    cases hy
  · intro q y c hqp hq hw hready
    obtain ⟨hbefore, hcov⟩ := hold q y c hqp hq hw hready
    refine Or.inr ⟨hbefore, ?_⟩
    intro z hz
    obtain rfl := Option.some.inj (hp.symm.trans hz)
    exact hcov

end

namespace PortCall

variable {M : Type}

/-- The channel whose master endpoint the call has borrowed. -/
def sendsOn : PortCall M → Option Nat
  | sent c => some c
  | sending c _ => some c
  | _ => none

/-- The channel whose slave endpoint the call has borrowed. -/
def receivesOn : PortCall M → Option Nat
  | received c _ => some c
  | receiving c => some c
  | _ => none

/-- The call is in its yield. -/
def Yields : PortCall M → Prop
  | sent _ => True
  | received _ _ => True
  | _ => False

def IsReceiving (c : Nat) (x : PortCall M) : Prop := x = receiving c

def IsSending (c : Nat) (x : PortCall M) : Prop := ∃ pkt, x = sending c pkt

def HasSent (c : Nat) (x : PortCall M) : Prop := x = sent c

def HasReceived (c : Nat) (x : PortCall M) : Prop := ∃ pkt, x = received c pkt

theorem IsReceiving.receivesOn {c : Nat} {x : PortCall M} (h : IsReceiving c x) :
    x.receivesOn = some c := by
  rw [show x = receiving c from h]
  rfl

theorem IsSending.sendsOn {c : Nat} {x : PortCall M} (h : IsSending c x) :
    x.sendsOn = some c := by
  obtain ⟨pkt, rfl⟩ := h
  rfl

end PortCall

namespace Channels

variable {M : Type} {s s' : Channels M} {a : ChanAct M} {p : Pid}

/-- A process comes back from its yield only when the one on the other side of its channel cannot go
on: if it could, it has been polled. -/
def PolledInTurn (s : Channels M) : ChanAct M → Prop
  | .resume p =>
      match s.call p with
      | some (.sent c) => ∀ q ∈ s.receiver c, s.canGoOn q = false
      | some (.received c _) => ∀ q ∈ s.sender c, s.canGoOn q = false
      | _ => True
  | _ => True

structure Turns (s : Channels M) : Prop where
  inv : Inv s
  sender : Borrowed PortCall.sendsOn s.sender s.call
  receiver : Borrowed PortCall.receivesOn s.receiver s.call
  yields : ∀ p x, s.call p = some x → x.Yields → p ∈ s.kernel.sys.running
  item : Covered PortCall.IsReceiving PortCall.HasSent (fun c => (s.queue c).hasItem = true) s.call
  room : Covered PortCall.IsSending PortCall.HasReceived (fun c => (s.queue c).hasRoom = true)
    s.call

theorem turns_init (now : Tick) (queue : Nat → BoundedQueue M) : Turns (init now queue) where
  inv := inv_init now queue
  sender _ _ _ hp := by cases hp
  receiver _ _ _ hp := by cases hp
  yields _ _ hp := by cases hp
  item _ _ _ hp := by cases hp
  room _ _ _ hp := by cases hp

/-- A process that can go on leaves another one running. -/
theorem Turns.covered (h : Turns s) {q : Pid} (hq : s.canGoOn q = true) :
    ∃ r ∈ s.kernel.sys.running, ∃ x, s.call r = some x := by
  unfold canGoOn at hq
  split at hq
  · rename_i c pkt hcall
    obtain ⟨r, y, hr, pkt', rfl⟩ := h.room q _ c hcall ⟨pkt, rfl⟩ hq
    exact ⟨r, h.yields r _ hr trivial, _, hr⟩
  · rename_i c hcall
    obtain ⟨r, y, hr, rfl⟩ := h.item q _ c hcall rfl hq
    exact ⟨r, h.yields r _ hr trivial, _, hr⟩
  · cases hq

/-- A process that yields and another one that moves are both running. -/
theorem Turns.yields_update (h : Turns s) {x : Option (PortCall M)} {kernel : Kernel}
    (hx : ∀ y, x = some y → y.Yields → p ∈ kernel.sys.running)
    (hrun : ∀ q, q ≠ p → q ∈ s.kernel.sys.running → q ∈ kernel.sys.running) :
    ∀ q y, Function.update s.call p x q = some y → y.Yields → q ∈ kernel.sys.running := by
  intro q y hq hy
  by_cases hqp : q = p
  · rw [hqp, Function.update_self] at hq
    exact hqp ▸ hx y hq hy
  · rw [Function.update_of_ne hqp] at hq
    exact hrun q hqp (h.yields q y hq hy)

/-- Where the queue of another channel changed, readiness is what it was. -/
theorem ready_of_ne {P : BoundedQueue M → Prop} {q : BoundedQueue M} {c c' : Nat} (hc : c' ≠ c)
    (h : P (Function.update s.queue c q c')) : P (s.queue c') := by
  rw [Function.update_of_ne hc] at h
  exact h

theorem call_of_free (h : s.Free p) : s.call p = none := Option.isNone_iff_eq_none.1 h.1

theorem turns_send (h : Turns s) {c : Nat} {pkt : M} (hfree : s.Free p) (hown : s.sender c = none)
    (hsend : s.send p c pkt = some s') (hinv : Inv s') : Turns s' := by
  have hnone := call_of_free hfree
  unfold send at hsend
  split at hsend
  · rename_i queue htry
    obtain rfl := Option.some.inj hsend
    refine ⟨hinv, h.sender.take hown rfl, h.receiver.other rfl, ?_, ?_, ?_⟩
    · exact h.yields_update (fun _ _ _ => hfree.2.1) fun _ _ hq => hq
    · refine h.item.start hnone ?_ ?_
      · intro c' hw
        cases hw
      · intro q y c' hq hw hready
        by_cases hc : c' = c
        · exact Or.inl (congrArg PortCall.sent hc.symm)
        · exact Or.inr (ready_of_ne (P := fun q => q.hasItem = true) hc hready)
    · refine h.room.start hnone ?_ ?_
      · rintro c' ⟨pkt', hw⟩
        cases hw
      · intro q y c' hq hw hready
        -- Nobody else sends on the channel.
        have hc : c' ≠ c := by
          rintro rfl
          cases hown.symm.trans (h.sender q y c' hq hw.sendsOn)
        exact Or.inr (ready_of_ne (P := fun q => q.hasRoom = true) hc hready)
  · rename_i htry
    obtain ⟨kernel, hlock, rfl⟩ := Option.map_eq_some_iff.1 hsend
    obtain ⟨hp, rfl⟩ := Kernel.lock_eq hlock
    have hfull := BoundedQueue.trySend_eq_none_iff.1 htry
    refine ⟨hinv, h.sender.take hown rfl, h.receiver.other rfl, ?_, ?_, ?_⟩
    · refine h.yields_update ?_ ?_
      · rintro y hy hyield
        obtain rfl := Option.some.inj hy
        exact hyield.elim
      · intro q hqp hq
        exact (List.mem_erase_of_ne hqp).2 hq
    · refine h.item.start hnone ?_ fun _ _ _ _ _ hready => Or.inr hready
      intro c' hw
      cases hw
    · refine h.room.start hnone ?_ fun _ _ _ _ _ hready => Or.inr hready
      rintro c' ⟨pkt', hw⟩ hready
      obtain ⟨rfl, -⟩ := PortCall.sending.inj hw
      rw [hfull] at hready
      cases hready

theorem turns_recv (h : Turns s) {c : Nat} (hfree : s.Free p) (hown : s.receiver c = none)
    (hrecv : s.recv p c = some s') (hinv : Inv s') : Turns s' := by
  have hnone := call_of_free hfree
  unfold recv at hrecv
  split at hrecv
  · rename_i pkt queue htry
    obtain rfl := Option.some.inj hrecv
    refine ⟨hinv, h.sender.other rfl, h.receiver.take hown rfl, ?_, ?_, ?_⟩
    · exact h.yields_update (fun _ _ _ => hfree.2.1) fun _ _ hq => hq
    · refine h.item.start hnone ?_ ?_
      · intro c' hw
        cases hw
      · intro q y c' hq hw hready
        -- Nobody else receives on the channel.
        have hc : c' ≠ c := by
          rintro rfl
          cases hown.symm.trans (h.receiver q y c' hq hw.receivesOn)
        exact Or.inr (ready_of_ne (P := fun q => q.hasItem = true) hc hready)
    · refine h.room.start hnone ?_ ?_
      · rintro c' ⟨pkt', hw⟩
        cases hw
      · intro q y c' hq hw hready
        by_cases hc : c' = c
        · exact Or.inl ⟨pkt, hc ▸ rfl⟩
        · exact Or.inr (ready_of_ne (P := fun q => q.hasRoom = true) hc hready)
  · rename_i htry
    obtain ⟨kernel, hlock, rfl⟩ := Option.map_eq_some_iff.1 hrecv
    obtain ⟨hp, rfl⟩ := Kernel.lock_eq hlock
    have hempty := BoundedQueue.tryRecv_eq_none_iff.1 htry
    refine ⟨hinv, h.sender.other rfl, h.receiver.take hown rfl, ?_, ?_, ?_⟩
    · refine h.yields_update ?_ ?_
      · rintro y hy hyield
        obtain rfl := Option.some.inj hy
        exact hyield.elim
      · intro q hqp hq
        exact (List.mem_erase_of_ne hqp).2 hq
    · refine h.item.start hnone ?_ fun _ _ _ _ _ hready => Or.inr hready
      intro c' hw hready
      obtain rfl := PortCall.receiving.inj hw
      rw [hempty] at hready
      cases hready
    · refine h.room.start hnone ?_ fun _ _ _ _ _ hready => Or.inr hready
      rintro c' ⟨pkt', hw⟩
      cases hw

/-- A process that comes back is in no call, and is running if it was. -/
theorem Turns.yields_leave (h : Turns s) {kernel : Kernel}
    (hrun : ∀ q, q ≠ p → q ∈ s.kernel.sys.running → q ∈ kernel.sys.running) :
    ∀ q y, Function.update s.call p none q = some y → y.Yields → q ∈ kernel.sys.running := by
  refine h.yields_update ?_ hrun
  intro y hy
  cases hy

/-- A receiver that waits for a packet that is there could go on, so it has been polled. -/
theorem Turns.not_item_of_polled (h : Turns s) {q : Pid} {y : PortCall M} {c : Nat}
    (hpoll : ∀ r ∈ s.receiver c, s.canGoOn r = false) (hq : s.call q = some y)
    (hw : y.IsReceiving c) : ¬ (s.queue c).hasItem = true := by
  have hstuck := hpoll q (h.receiver q y c hq hw.receivesOn)
  unfold canGoOn at hstuck
  rw [hq, show y = .receiving c from hw] at hstuck
  exact Bool.eq_false_iff.1 hstuck

/-- So has a sender that waits for room that is there. -/
theorem Turns.not_room_of_polled (h : Turns s) {q : Pid} {y : PortCall M} {c : Nat}
    (hpoll : ∀ r ∈ s.sender c, s.canGoOn r = false) (hq : s.call q = some y)
    (hw : y.IsSending c) : ¬ (s.queue c).hasRoom = true := by
  have hstuck := hpoll q (h.sender q y c hq hw.sendsOn)
  obtain ⟨pkt, rfl⟩ := hw
  unfold canGoOn at hstuck
  rw [hq] at hstuck
  exact Bool.eq_false_iff.1 hstuck

/-- When a blocked sender finds room, the receiver has made it and waits no longer. -/
theorem Turns.not_receiving_of_room (h : Turns s) {q : Pid} {y : PortCall M} {c : Nat} {pkt : M}
    (hcall : s.call p = some (.sending c pkt)) (hroom : (s.queue c).hasRoom = true)
    (hq : s.call q = some y) : ¬ y.IsReceiving c := by
  intro hw
  obtain ⟨r, z, hr, pkt', rfl⟩ := h.room p _ c hcall ⟨pkt, rfl⟩ hroom
  obtain rfl := h.receiver.unique hr rfl hq hw.receivesOn
  rw [hr, show y = .receiving c from hw] at hq
  cases hq

/-- When a blocked receiver finds a packet, the sender has sent it and waits no longer. -/
theorem Turns.not_sending_of_item (h : Turns s) {q : Pid} {y : PortCall M} {c : Nat}
    (hcall : s.call p = some (.receiving c)) (hitem : (s.queue c).hasItem = true)
    (hq : s.call q = some y) : ¬ y.IsSending c := by
  intro hw
  obtain ⟨r, z, hr, rfl⟩ := h.item p _ c hcall rfl hitem
  obtain rfl := h.sender.unique hr rfl hq hw.sendsOn
  obtain ⟨pkt, rfl⟩ := hw
  rw [hr] at hq
  cases hq

theorem turns_resume (h : Turns s) (hpoll : s.PolledInTurn (.resume p))
    (hres : s.resume p = some s') (hinv : Inv s') : Turns s' := by
  unfold resume at hres
  simp only [PolledInTurn] at hpoll
  split at hres
  · cases hres
  · rename_i c hcall
    obtain rfl := Option.some.inj hres
    rw [hcall] at hpoll
    refine ⟨hinv, h.sender.give hcall rfl, h.receiver.other rfl, ?_, ?_, ?_⟩
    · exact h.yields_leave fun _ _ hq => hq
    · refine h.item.leave hcall ?_
      intro q y c' _ hq hw hready
      refine ⟨hready, ?_⟩
      intro hcov
      obtain rfl := PortCall.sent.inj hcov
      exact h.not_item_of_polled hpoll hq hw hready
    · refine h.room.leave hcall ?_
      intro q y c' _ _ _ hready
      refine ⟨hready, ?_⟩
      rintro ⟨pkt, hcov⟩
      cases hcov
  · rename_i c pkt hcall
    obtain rfl := Option.some.inj hres
    rw [hcall] at hpoll
    refine ⟨hinv, h.sender.other rfl, h.receiver.give hcall rfl, ?_, ?_, ?_⟩
    · exact h.yields_leave fun _ _ hq => hq
    · refine h.item.leave hcall ?_
      intro q y c' _ _ _ hready
      refine ⟨hready, ?_⟩
      intro hcov
      cases hcov
    · refine h.room.leave hcall ?_
      intro q y c' _ hq hw hready
      refine ⟨hready, ?_⟩
      rintro ⟨pkt', hcov⟩
      obtain ⟨rfl, -⟩ := PortCall.received.inj hcov
      exact h.not_room_of_polled hpoll hq hw hready
  · rename_i c pkt hcall
    split at hres
    · rename_i queue htry
      obtain ⟨kernel, hunlock, rfl⟩ := Option.map_eq_some_iff.1 hres
      obtain ⟨-, rfl⟩ := Kernel.unlock_eq hunlock
      refine ⟨hinv, h.sender.give hcall rfl, h.receiver.other rfl, ?_, ?_, ?_⟩
      · exact h.yields_leave fun q _ hq => List.mem_cons_of_mem p hq
      · refine h.item.leave hcall ?_
        intro q y c' _ hq hw hready
        have hc : c' ≠ c := by
          rintro rfl
          exact h.not_receiving_of_room hcall (BoundedQueue.trySend_eq_some htry).1 hq hw
        refine ⟨ready_of_ne (P := fun q => q.hasItem = true) hc hready, ?_⟩
        intro hcov
        cases hcov
      · refine h.room.leave hcall ?_
        intro q y c' hqp hq hw hready
        have hc : c' ≠ c := by
          rintro rfl
          exact hqp (h.sender.unique hq hw.sendsOn hcall rfl)
        refine ⟨ready_of_ne (P := fun q => q.hasRoom = true) hc hready, ?_⟩
        rintro ⟨pkt', hcov⟩
        cases hcov
    · cases hres
  · rename_i c hcall
    split at hres
    · rename_i pkt queue htry
      obtain ⟨kernel, hunlock, rfl⟩ := Option.map_eq_some_iff.1 hres
      obtain ⟨-, rfl⟩ := Kernel.unlock_eq hunlock
      refine ⟨hinv, h.sender.other rfl, h.receiver.give hcall rfl, ?_, ?_, ?_⟩
      · exact h.yields_leave fun q _ hq => List.mem_cons_of_mem p hq
      · refine h.item.leave hcall ?_
        intro q y c' hqp hq hw hready
        have hc : c' ≠ c := by
          rintro rfl
          exact hqp (h.receiver.unique hq hw.receivesOn hcall rfl)
        refine ⟨ready_of_ne (P := fun q => q.hasItem = true) hc hready, ?_⟩
        intro hcov
        cases hcov
      · refine h.room.leave hcall ?_
        intro q y c' _ hq hw hready
        have hc : c' ≠ c := by
          rintro rfl
          exact h.not_sending_of_item hcall (BoundedQueue.hasItem_of_tryRecv htry) hq hw
        refine ⟨ready_of_ne (P := fun q => q.hasRoom = true) hc hready, ?_⟩
        rintro ⟨pkt', hcov⟩
        cases hcov
    · cases hres

/-- A step that leaves the calls and the queues alone, and stops nobody who is in a call. -/
theorem Turns.of_same (h : Turns s) (hinv : Inv s') (hcall : s'.call = s.call)
    (hqueue : s'.queue = s.queue) (hsender : s'.sender = s.sender)
    (hreceiver : s'.receiver = s.receiver)
    (hrun : ∀ q x, s.call q = some x → q ∈ s.kernel.sys.running → q ∈ s'.kernel.sys.running) :
    Turns s' := by
  refine ⟨hinv, ?_, ?_, ?_, ?_, ?_⟩
  · rw [hcall, hsender]
    exact h.sender
  · rw [hcall, hreceiver]
    exact h.receiver
  · intro q x hq hx
    rw [hcall] at hq
    exact hrun q x hq (h.yields q x hq hx)
  · rw [hcall, hqueue]
    exact h.item
  · rw [hcall, hqueue]
    exact h.room

/-- The loop only adds to the running processes. -/
theorem running_loop {k k' : Kernel} {a : Act} (hk : k.step a = some k') (ha : a.isLoop = true) :
    ∀ q ∈ k.sys.running, q ∈ k'.sys.running := by
  intro q hq
  rcases Kernel.step_loop hk (Act.isMove_ne_of_isLoop ha) with
    ⟨-, -, -, s, -, rfl⟩ | ⟨-, -, o, rest, -, rfl⟩ | ⟨-, -, t, -, rfl⟩ | ⟨-, -, rfl⟩ |
    ⟨x, -, -, -, -, n, rfl⟩ | ⟨-, -, -, api, rfl, -⟩
  · exact hq
  · exact hq
  · exact hq
  · exact hq
  · exact List.mem_append_right _ hq
  · exact hq

theorem turns_step (h : Turns s) (hpoll : s.PolledInTurn a) (hstep : s.step a = some s') :
    Turns s' := by
  have hinv := (step_move h.inv hstep).1
  cases a with
  | send p c pkt =>
      obtain ⟨⟨-, hfree, hown⟩, hsend⟩ := Option.ite_none_right_eq_some.1 hstep
      exact turns_send h hfree hown hsend hinv
  | recv p c =>
      obtain ⟨⟨-, hfree, hown⟩, hrecv⟩ := Option.ite_none_right_eq_some.1 hstep
      exact turns_recv h hfree hown hrecv hinv
  | resume p =>
      obtain ⟨-, hres⟩ := Option.ite_none_right_eq_some.1 hstep
      exact turns_resume h hpoll hres hinv
  | prc a =>
      obtain ⟨⟨-, ha, hactor⟩, hmap⟩ := Option.ite_none_right_eq_some.1 hstep
      obtain ⟨kernel, hk, rfl⟩ := Option.map_eq_some_iff.1 hmap
      refine h.of_same hinv rfl rfl rfl rfl ?_
      intro q x hq hrun
      refine (((Kernel.process_frame hk (Act.isMove_of_isPlain ha)).2 q ?_).running).2 hrun
      intro hactor'
      rw [hactor', Option.bind_some, hq] at hactor
      cases hactor
  | pollLoop =>
      obtain ⟨hstage, hpoll⟩ := Option.ite_none_right_eq_some.1 hstep
      rw [h.inv.pollLoop_eq hstage] at hpoll
      obtain rfl := Option.some.inj hpoll
      by_cases hended : s.api.deltaCycleEnded = true
      · rw [if_pos hended] at hinv ⊢
        exact h.of_same hinv rfl rfl rfl rfl fun _ _ _ hq => hq
      · rw [if_neg hended]
        exact h
  | loop a =>
      obtain ⟨ha, hmap⟩ := Option.ite_none_right_eq_some.1 hstep
      obtain ⟨kernel, hk, rfl⟩ := Option.map_eq_some_iff.1 hmap
      exact h.of_same hinv rfl rfl rfl rfl fun q _ _ hq => running_loop hk ha q hq

/-- The process a step stops is in no port call. -/
theorem free_of_stops (hstep : s.step a = some s') (hstops : s.stops a = true) :
    ∃ p ∈ s.kernel.sys.running, s.call p = none := by
  cases a with
  | send p c pkt | recv p c =>
      obtain ⟨⟨-, hfree, -⟩, -⟩ := Option.ite_none_right_eq_some.1 hstep
      exact ⟨p, hfree.2.1, call_of_free hfree⟩
  | prc a =>
      obtain ⟨⟨-, -, hactor⟩, hmap⟩ := Option.ite_none_right_eq_some.1 hstep
      obtain ⟨kernel, hk, -⟩ := Option.map_eq_some_iff.1 hmap
      cases a with
      | finish p =>
          exact ⟨p, (Option.ite_none_right_eq_some.1 hk).1.1, Option.isNone_iff_eq_none.1 hactor⟩
      | wait p evt | delay p wakeAt =>
          exact ⟨p, (Kernel.start_cases hk).1.1, Option.isNone_iff_eq_none.1 hactor⟩
      | _ => cases hstops
  | _ => cases hstops

/-- The last alive process stops only when no blocked one can go on. -/
theorem Turns.lastStop (h : Turns s) (hstep : s.step a = some s') : s.LastStop a := by
  intro halive hstops q hq
  by_contra hcan
  obtain ⟨r, hr, x, hcall⟩ := h.covered (Bool.eq_true_of_not_eq_false hcan)
  obtain ⟨p, hp, hnone⟩ := free_of_stops hstep hstops
  have hstage : s.kernel.stage = .wait := by
    cases a with
    | loop a => cases hstops
    | prc a => exact (Option.ite_none_right_eq_some.1 hstep).1.1
    | send p c pkt => exact (Option.ite_none_right_eq_some.1 hstep).1.1
    | recv p c => exact (Option.ite_none_right_eq_some.1 hstep).1.1
    | resume p => cases hstops
    | pollLoop => cases hstops
  -- The process that stops and the one that covers are two.
  have hlength := h.inv.alivePrc hstage
  rw [halive] at hlength
  obtain ⟨z, hz⟩ := List.length_eq_one_iff.1 (by exact_mod_cast hlength.symm)
  rw [hz, List.mem_singleton] at hr hp
  rw [hr, ← hp, hnone] at hcall
  cases hcall

/-- A runtime that polls in turn stops no last process too early. -/
theorem lastStop_of_polledInTurn {now : Tick} {queue : Nat → BoundedQueue M}
    {acts : List (ChanAct M)} {s₁ : Channels M} (hrun : run step (init now queue) acts = some s₁)
    (hpoll : Along step PolledInTurn (init now queue) acts) :
    Along step LastStop (init now queue) acts := by
  rw [along_iff]
  intro pre a post s hsplit hpre
  subst hsplit
  obtain ⟨s', hs', hrest⟩ := run_append_iff.1 hrun
  obtain rfl := Option.some.inj (hpre.symm.trans hs')
  obtain ⟨s'', hstep, -⟩ := run_cons_iff.1 hrest
  have hturns : Turns s :=
    run_inv_along (P := PolledInTurn) (fun _ _ _ h hp hs => turns_step h hp hs)
    (turns_init now queue) hpoll.of_append hpre
  exact hturns.lastStop hstep

end Channels

end Ra2m
