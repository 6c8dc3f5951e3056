/-
When a lone packet arrives.

As long as every last stop leaves no process behind that could go on, a chain does with a
packet what `Transit` says: the step of a process that has it is a step of `Transit`, and
so is the tick when it moves; all other steps leave the packet alone.  Two facts hold the
tick back.  A process that runs is alive, so the scheduler waits for it; and a packet that
lies in a channel has a receiver that can go on, so a scheduler that is past its wait has
let a last stop pass that it should not have.

Where a process stops as the last one while the next has not been polled, the tick moves
with the packet in the channel, and the packet arrives late.
-/
import Ra2m.Proofs.ChannelFrame
import Ra2m.Proofs.ChainTiming

namespace Ra2m

open Runs

/-! ### The parts of the way -/

namespace PktOp

variable {delays : List Tick} {p : Pid} {todo : List PktOp}

/-- What the processes after `p` do. -/
def ahead (delays : List Tick) (p : Pid) : List PktOp := ((segments delays).drop (p + 1)).flatten

theorem length_segments (delays : List Tick) : (segments delays).length = delays.length + 2 := by
  rw [segments, List.length_cons, List.length_append, List.length_map, List.length_singleton]

theorem chain_segment (delays : List Tick) : chain delays = segment delays 0 ++ ahead delays 0 :=
  rfl

theorem ahead_succ (hp : p ≤ delays.length) :
    ahead delays p = segment delays (p + 1) ++ ahead delays (p + 1) := by
  have hlt : p + 1 < (segments delays).length := by
    rw [length_segments]
    exact Nat.succ_lt_succ (Nat.lt_succ_of_le hp)
  rw [ahead, List.drop_eq_getElem_cons hlt, List.flatten_cons, segment,
    List.getElem?_eq_getElem hlt]
  rfl

theorem ahead_last (delays : List Tick) : ahead delays (delays.length + 1) = [] := by
  rw [ahead, List.drop_eq_nil_of_le (by rw [length_segments]), List.flatten_nil]

theorem segment_past (hp : delays.length + 1 < p) : segment delays p = [] := by
  rw [segment, List.getElem?_eq_none (by rw [length_segments]; omega)]
  rfl

/-- A process of the chain is the initiator, a stage or the endpoint. -/
theorem segment_cases (hp : p ≤ delays.length + 1) :
    (p = 0 ∧ segment delays p = fwdPkt) ∨
      (0 < p ∧ p ≤ delays.length ∧ ∃ d, segment delays p = stage d) ∨
      p = delays.length + 1 ∧ segment delays p = waitPktEp := by
  cases p with
  | zero => exact Or.inl ⟨rfl, rfl⟩
  | succ p =>
      refine Or.inr ?_
      have hget : segment delays (p + 1) = ((delays.map stage ++ [waitPktEp])[p]?).getD [] := rfl
      by_cases hlt : p < delays.length
      · refine Or.inl ⟨Nat.succ_pos p, hlt, delays[p], ?_⟩
        rw [hget, List.getElem?_append_left (by rwa [List.length_map]), List.getElem?_map,
          List.getElem?_eq_getElem hlt]
        rfl
      · obtain rfl : p = delays.length :=
          Nat.le_antisymm (Nat.le_of_succ_le_succ hp) (Nat.le_of_not_lt hlt)
        refine Or.inr ⟨rfl, ?_⟩
        rw [hget, List.getElem?_append_right (by rw [List.length_map]), List.length_map,
          Nat.sub_self]
        rfl

/-- All but the initiator begin with their wait for the packet. -/
theorem segment_recv (hpos : 0 < p) (hp : p ≤ delays.length + 1) :
    ∃ rest, segment delays p = recv :: rest := by
  rcases segment_cases hp with ⟨rfl, -⟩ | ⟨-, -, d, hseg⟩ | ⟨-, hseg⟩
  · cases hpos
  · exact ⟨_, hseg⟩
  · exact ⟨_, hseg⟩

/-- The initiator and the stages end with their send. -/
theorem segment_send (hp : p ≤ delays.length + 1) (h : send :: todo <:+ segment delays p) :
    todo = [] ∧ p ≤ delays.length := by
  rcases segment_cases hp with ⟨rfl, hseg⟩ | ⟨-, hle, d, hseg⟩ | ⟨-, hseg⟩
  · rw [hseg] at h
    refine ⟨?_, Nat.zero_le _⟩
    simpa [fwdPkt, List.suffix_cons_iff] using h
  · rw [hseg] at h
    refine ⟨?_, hle⟩
    simpa [stage, waitPkt, fwdPkt, List.suffix_cons_iff] using h
  · rw [hseg] at h
    simp [waitPktEp, List.suffix_cons_iff] at h

end PktOp

namespace Chain

variable {T : Type} {delays : List Tick} {due : Tick} {s s' : Chain T} {t : Transit T} {i : Pid}
  {todo : List PktOp} {a : ChanAct (Packet T)}

/-- What a step must meet: the last alive process does not stop while a process that is not through
with the packet finds it in its channel. -/
def LastStop (s : Chain T) : ChainAct T → Prop
  | .poll _ => True
  | .other a => s.chan.api.alivePrc = 1 → s.chan.stops a = true →
      ∀ p < s.stages + 2, (s.prc p).isDone = false → s.chan.canGoOn p = false

instance (s : Chain T) (a : ChainAct T) : Decidable (s.LastStop a) :=
  match a with
  | .poll _ => isTrue trivial
  | .other _ => inferInstanceAs (Decidable (_ → _ → _))

theorem isOther_iff : s.isOther a = true ↔ a.actor.all (fun p => (s.prc p).isDone) = true ∧
    a.sendsOn.all (fun c => decide (s.stages < c)) = true :=
  Bool.and_eq_true_iff

/-- A move for anything else is none of a process on the way. -/
theorem actor_ne (h : s.isOther a = true) {p : Pid} (hp : (s.prc p).isDone = false) :
    a.actor ≠ some p := by
  intro hactor
  have hdone := (isOther_iff.1 h).1
  rw [hactor] at hdone
  exact Bool.false_ne_true (hp.symm.trans hdone)

/-- And it sends on no channel of the chain. -/
theorem sendsOn_ne (h : s.isOther a = true) {c : Nat} (hc : c ≤ s.stages) :
    a.sendsOn ≠ some c := by
  intro hsend
  have hpast := (isOther_iff.1 h).2
  rw [hsend] at hpast
  exact Nat.not_lt.2 hc (of_decide_eq_true hpast)

/-! ### Around the packet -/

/-- A process that waits for the packet. -/
structure Idle (delays : List Tick) (s : Chain T) (p : Pid) : Prop where
  prc : s.prc p = { todo := PktOp.segment delays p }
  call : s.chan.call p = some (.receiving (p - 1))

/-- The processes before `i` are through with the packet, and those after it wait for it. -/
structure Around (delays : List Tick) (s : Chain T) (i : Pid) : Prop where
  stages : s.stages = delays.length
  within : i ≤ s.stages + 1
  sound : s.chan.Sound
  done : ∀ p, p < i ∨ s.stages + 1 < p → (s.prc p).isDone = true
  idle : ∀ p, i < p → p ≤ s.stages + 1 → s.Idle delays p
  empty : ∀ c, i ≤ c → c ≤ s.stages → (s.chan.queue c).items = []
  apart : ∀ p c pkt, c ≤ s.stages → s.chan.call p ≠ some (.sending c pkt)

namespace Around

/-- What process `i` has to do is not part of it. -/
theorem setPrc (h : Around delays s i) (prc : PktPrc T) : Around delays (s.setPrc i prc) i where
  stages := h.stages
  within := h.within
  sound := h.sound
  done p hp := by
    have hpi : p ≠ i := by
      rintro rfl
      rcases hp with hp | hp
      · exact lt_irrefl p hp
      · exact absurd h.within (Nat.not_le.2 hp)
    show (Function.update s.prc i prc p).isDone = true
    rw [Function.update_of_ne hpi]
    exact h.done p hp
  idle p hip hp := by
    refine ⟨?_, (h.idle p hip hp).call⟩
    show Function.update s.prc i prc p = _
    rw [Function.update_of_ne (Nat.ne_of_gt hip)]
    exact (h.idle p hip hp).prc
  empty := h.empty
  apart := h.apart

/-- The channel behind a process that waits. -/
private theorem receiving (h : Around delays s i) {c : Nat} (hic : i ≤ c) (hc : c ≤ s.stages) :
    s.chan.call (c + 1) = some (.receiving c) :=
  (h.idle (c + 1) (Nat.lt_succ_of_le hic) (Nat.succ_le_succ hc)).call

/-- A move of anyone but the processes that wait, that sends on no channel of the chain. -/
theorem step (h : Around delays s i) {chan : Channels (Packet T)}
    (hstep : s.chan.step a = some chan)
    (hidle : ∀ p, i < p → p ≤ s.stages + 1 → a.actor ≠ some p)
    (hsend : ∀ c ≤ s.stages, a.sendsOn ≠ some c) : Around delays { s with chan } i where
  stages := h.stages
  within := h.within
  sound := h.sound.step hstep
  done := h.done
  idle p hip hp := by
    refine ⟨(h.idle p hip hp).prc, ?_⟩
    exact (Channels.call_other h.sound.inv hstep (hidle p hip hp)).trans (h.idle p hip hp).call
  empty c hic hc := by
    have hactor := hidle (c + 1) (Nat.lt_succ_of_le hic) (Nat.succ_le_succ hc)
    have hqueue := Channels.queue_other h.sound hstep (h.receiving hic hc) hactor (hsend c hc)
      fun q pkt => h.apart q c pkt hc
    show (chan.queue c).items = []
    rw [hqueue]
    exact h.empty c hic hc
  apart p c pkt hc hcall := by
    rcases Channels.sending_step h.sound.inv hstep hcall with hcall | ⟨rfl, -⟩
    · exact h.apart p c pkt hc hcall
    · exact hsend c hc rfl

theorem idle_isDone (h : Around delays s i) {p : Pid} (hip : i < p) (hp : p ≤ s.stages + 1) :
    (s.prc p).isDone = false := by
  obtain ⟨rest, hseg⟩ :=
    PktOp.segment_recv (Nat.lt_of_le_of_lt (Nat.zero_le i) hip) (h.stages ▸ hp)
  rw [(h.idle p hip hp).prc, hseg]
  rfl

/-- Nothing else comes to a process that is done with the packet or waits for it. -/
theorem poll_ne (h : Around delays s i) {p : Pid} (hpi : p ≠ i) : s.step (.poll p) = none := by
  by_cases hdone : (s.prc p).isDone = true
  · exact if_pos hdone
  · have hip : i < p := by
      refine Nat.lt_of_le_of_ne (Nat.le_of_not_lt fun hlt => ?_) hpi.symm
      exact hdone (h.done p (Or.inl hlt))
    have hp : p ≤ s.stages + 1 := Nat.le_of_not_lt fun hlt => hdone (h.done p (Or.inr hlt))
    obtain ⟨c, rfl⟩ : ∃ c, p = c + 1 := Nat.exists_eq_succ_of_ne_zero (Nat.ne_zero_of_lt hip)
    have hcall := (h.idle (c + 1) hip hp).call
    have hempty := h.empty c (Nat.le_of_lt_succ hip) (Nat.le_of_succ_le_succ hp)
    have htry : (s.chan.queue c).tryRecv = none := by
      rw [BoundedQueue.tryRecv_eq_none_iff, BoundedQueue.hasItem, hempty]
      rfl
    have hstep : s.chan.step (.resume (c + 1)) = none := by
      simp only [Channels.step, Channels.resume, hcall, Nat.add_sub_cancel, htry, ite_self]
    rw [Chain.step, if_neg hdone, poll, moveOf, hcall]
    simp only [Option.isSome_some, if_true, move, hstep, Option.map_none]

/-- The packet is sent to the next process. -/
theorem send (h : Around delays s i) {pkt : Packet T} {chan : Channels (Packet T)}
    (hi : i ≤ s.stages) (hstep : s.chan.step (.send i i pkt) = some chan) {prc : PktPrc T}
    (hprc : prc.isDone = true) :
    Around delays ({ s with chan }.setPrc i prc) (i + 1) ∧
      Idle delays ({ s with chan }.setPrc i prc) (i + 1) ∧ (chan.queue i).items = [pkt] ∧
      ¬ chan.PastWait := by
  have hempty := h.empty i le_rfl hi
  obtain ⟨⟨hstage, hfree, -⟩, hsend⟩ := Option.ite_none_right_eq_some.1 hstep
  have hroom : (s.chan.queue i).hasRoom = true := by
    rw [BoundedQueue.hasRoom, hempty]
    exact decide_eq_true (s.chan.queue i).pos
  obtain ⟨hitems, hkernel⟩ :
      (chan.queue i).items = [pkt] ∧ chan.kernel = s.chan.kernel := by
    unfold Channels.send at hsend
    split at hsend
    · rename_i q htry
      obtain rfl := Option.some.inj hsend
      refine ⟨?_, rfl⟩
      show (Function.update s.chan.queue i q i).items = [pkt]
      rw [Function.update_self, (BoundedQueue.trySend_eq_some htry).2.1, hempty]
      rfl
    · rename_i htry
      rw [BoundedQueue.trySend_eq_none_iff, hroom] at htry
      cases htry
  have hwaits : ¬ chan.PastWait := by
    rw [Channels.not_pastWait_iff (h.sound.step hstep).inv, hkernel]
    exact ⟨hstage, List.ne_nil_of_mem hfree.2.1⟩
  have hidle : ∀ p, i < p → p ≤ s.stages + 1 → Idle delays ({ s with chan }.setPrc i prc) p := by
    intro p hip hp
    refine ⟨?_, ?_⟩
    · show Function.update s.prc i prc p = _
      rw [Function.update_of_ne (Nat.ne_of_gt hip)]
      exact (h.idle p hip hp).prc
    · refine (Channels.call_other h.sound.inv hstep ?_).trans (h.idle p hip hp).call
      exact fun heq => Nat.ne_of_lt hip (Option.some.inj heq)
  refine ⟨⟨h.stages, Nat.succ_le_succ hi, h.sound.step hstep, ?_, ?_, ?_, ?_⟩,
    hidle (i + 1) (Nat.lt_succ_self i) (Nat.succ_le_succ hi), hitems, hwaits⟩
  · intro p hp
    show (Function.update s.prc i prc p).isDone = true
    by_cases hpi : p = i
    · rw [hpi, Function.update_self]
      exact hprc
    · rw [Function.update_of_ne hpi]
      exact h.done p (hp.imp_left fun hlt => Nat.lt_of_le_of_ne (Nat.le_of_lt_succ hlt) hpi)
  · exact fun p hip hp => hidle p (Nat.lt_of_succ_lt hip) hp
  · intro c hic hc
    have hic' : i ≤ c := Nat.le_of_succ_le hic
    have hne : i ≠ c := Nat.ne_of_lt hic
    show (chan.queue c).items = []
    rw [Channels.queue_other h.sound hstep (h.receiving hic' hc)
      (fun heq => Nat.ne_of_lt (Nat.lt_succ_of_lt hic) (Option.some.inj heq))
      (fun heq => hne (Option.some.inj heq)) fun q pkt => h.apart q c pkt hc]
    exact h.empty c hic' hc
  · intro p c pkt' hc hcall
    rcases Channels.sending_step h.sound.inv hstep hcall with hcall | ⟨heq, hfull⟩
    · exact h.apart p c pkt' hc hcall
    · obtain ⟨-, rfl, -⟩ := ChanAct.send.inj heq
      rw [hroom] at hfull
      cases hfull

end Around

/-! ### The packet -/

/-- Where the packet is: process `i` has it, or it is on its way there. -/
inductive Place (s : Chain T) (t : Transit T) (i : Pid) (todo : List PktOp) : Prop
  /-- In the channel before the process. -/
  | coming {rest : List PktOp} (hpos : 0 < i) (htodo : todo = .recv :: rest)
      (hprc : s.prc i = ⟨todo, none, false⟩) (hcall : s.chan.call i = some (.receiving (i - 1)))
        (hqueue : (s.chan.queue (i - 1)).items = [t.pkt]) (hwaits : ¬ s.chan.PastWait)
      (hwake : t.wake = none)
  | running (hprc : s.prc i = ⟨todo, some t.pkt, false⟩) (hfree : s.chan.Free i)
      (hwake : t.wake = none)
  /-- The process is about to make its `Delay`. -/
  | yielding (hprc : s.prc i = ⟨todo, some t.pkt, true⟩) (hfree : s.chan.Free i)
      (hwake : t.wake = some t.pkt.readyAt) (hlater : t.now < t.pkt.readyAt)
  | suspended (hprc : s.prc i = ⟨todo, some t.pkt, false⟩) (hcall : s.chan.call i = none)
      (hdelayed : s.chan.kernel.Delayed i t.pkt.readyAt) (hwake : t.wake = some t.pkt.readyAt)
  | woken (hprc : s.prc i = ⟨todo, some t.pkt, false⟩) (hcall : s.chan.call i = none)
      (hrun : i ∈ s.chan.kernel.sys.running)
      (hfuture : s.chan.kernel.future i = some (.delay t.pkt.readyAt))
      (hwake : t.wake = some t.pkt.readyAt)

/-- The chain does with the packet what `t` says, and process `i` is the one to go on with it. -/
structure OnWay (due : Tick) (delays : List Tick) (s : Chain T) (t : Transit T) (i : Pid)
    (todo : List PktOp) : Prop where
  around : Around delays s i
  onTime : t.OnTime due
  mode : t.mode = s.mode
  now : t.now = s.chan.kernel.sys.now
  left : t.todo = todo ++ PktOp.ahead delays i
  suffix : todo <:+ PktOp.segment delays i
  place : Place s t i todo
  arrived : s.arrived = none

theorem Place.isDone (h : Place s t i todo) : (s.prc i).isDone = false := by
  cases h with
  | coming _ htodo hprc =>
      rw [hprc, htodo]
      rfl
  | running hprc | yielding hprc | suspended hprc | woken hprc =>
      rw [hprc, PktPrc.isDone, Option.isNone_some, Bool.and_false]

/-- The packet is where it was, or the process that has it has been woken. -/
theorem OnWay.other (h : OnWay due delays s t i todo) {chan : Channels (Packet T)}
    (hother : s.isOther a = true) (hlast : s.LastStop (.other a))
    (hstep : s.chan.step a = some chan) :
    ∃ t', OnWay due delays { s with chan } t' i todo ∧
      (t' = t ∨ t.step (.advance t'.now) = some t') := by
  have hactor := actor_ne hother h.place.isDone
  have hcall := Channels.call_other h.around.sound.inv hstep hactor
  have haround : Around delays { s with chan } i :=
    h.around.step hstep
      (fun p hip hp => actor_ne hother (h.around.idle_isDone hip hp))
      fun c hc => sendsOn_ne hother hc
  have hstays : ∀ {s' : Chain T}, s' = { s with chan } →
      chan.kernel.sys.now = s.chan.kernel.sys.now → Place s' t i todo →
      ∃ t', OnWay due delays s' t' i todo ∧ (t' = t ∨ t.step (.advance t'.now) = some t') := by
    rintro s' rfl hnow hplace
    exact ⟨t, ⟨haround, h.onTime, h.mode, h.now.trans hnow.symm, h.left, h.suffix, hplace,
      h.arrived⟩, Or.inl rfl⟩
  have hruns := fun hrun => Channels.running_other h.around.sound hstep hactor (p := i) hrun
  cases h.place with
  | coming hpos htodo hprc hreceiving hqueue hwaits hwake =>
      have hle : i - 1 ≤ s.stages := Nat.pred_le_pred h.around.within
      have hcan : s.chan.canGoOn i = true := by
        rw [Channels.canGoOn, hreceiving]
        show (s.chan.queue (i - 1)).hasItem = true
        rw [BoundedQueue.hasItem, hqueue]
        rfl
      have hsame := Channels.queue_other h.around.sound hstep hreceiving hactor
        (sendsOn_ne hother hle) fun q pkt => h.around.apart q _ pkt hle
      refine hstays rfl ?_ (.coming hpos htodo hprc (hcall.trans hreceiving) ?_ ?_ hwake)
      · exact Channels.now_of_wait h.around.sound.inv hstep
          ((Channels.not_pastWait_iff h.around.sound.inv).1 hwaits).1
      · show (chan.queue (i - 1)).items = _
        rw [hsame, hqueue]
      · refine Channels.waits_step h.around.sound.inv hstep hwaits ?_
        rintro ⟨halive, hstops⟩
        have hstuck := hlast halive hstops i (Nat.lt_succ_of_le h.around.within) h.place.isDone
        rw [hcan] at hstuck
        cases hstuck
  | running hprc hfree hwake =>
      obtain ⟨hrun, hfuture, hnow⟩ := hruns hfree.2.1
      refine hstays rfl hnow (.running hprc ⟨?_, hrun, hfuture.trans hfree.2.2⟩ hwake)
      exact (congrArg Option.isNone hcall).trans hfree.1
  | yielding hprc hfree hwake hlater =>
      obtain ⟨hrun, hfuture, hnow⟩ := hruns hfree.2.1
      refine hstays rfl hnow (.yielding hprc ⟨?_, hrun, hfuture.trans hfree.2.2⟩ hwake hlater)
      exact (congrArg Option.isNone hcall).trans hfree.1
  | suspended hprc hnone hdelayed hwake =>
      have hnone := hcall.trans hnone
      rcases Channels.delayed_other h.around.sound hstep hactor hdelayed with
        ⟨hdelayed, hnow | ⟨hlt, hle⟩⟩ | ⟨hrun, hfuture, hnow⟩
      · exact hstays rfl hnow (.suspended hprc hnone hdelayed hwake)
      · have hadv : t.step (.advance chan.kernel.sys.now) =
            some { t with now := chan.kernel.sys.now } := by
          rw [Transit.step, hwake]
          exact if_pos ⟨h.now ▸ hlt, hle⟩
        refine ⟨{ t with now := chan.kernel.sys.now }, ⟨haround, h.onTime.step hadv, h.mode, rfl,
          h.left, h.suffix, ?_, h.arrived⟩, Or.inr hadv⟩
        exact .suspended hprc hnone hdelayed hwake
      · exact hstays rfl hnow (.woken hprc hnone hrun hfuture hwake)
  | woken hprc hnone hrun hfuture hwake =>
      obtain ⟨hrun, hsame, hnow⟩ := hruns hrun
      exact hstays rfl hnow (.woken hprc (hcall.trans hnone) hrun (hsame.trans hfuture) hwake)

/-! ### A poll of the process that has it -/

theorem moveOf_free (hfree : s.chan.Free i) :
    s.moveOf i = match s.prc i with
      | ⟨_, some pkt, true⟩ => some (.prc (.delay i pkt.readyAt))
      | ⟨.recv :: _, none, _⟩ => some (.recv i (i - 1))
      | ⟨.send :: _, some pkt, _⟩ => some (.send i i pkt)
      | _ => none := by
  have hcall : s.chan.call i = none := Option.isNone_iff_eq_none.1 hfree.1
  rw [moveOf, hcall, hfree.2.2]
  rfl

theorem moveOf_future (hcall : s.chan.call i = none) {f : Future}
    (hfuture : s.chan.kernel.future i = some f) : s.moveOf i = some (.prc (.poll i)) := by
  rw [moveOf, hcall, hfuture]
  rfl

theorem moveOf_call {x : PortCall (Packet T)} (hcall : s.chan.call i = some x) :
    s.moveOf i = some (.resume i) := by
  rw [moveOf, hcall]
  rfl

/-- A poll that makes a move. -/
theorem poll_move (hdone : (s.prc i).isDone = false) (hmove : s.moveOf i = some a)
    (hs : s.step (.poll i) = some s') : ∃ chan, s.chan.step a = some chan ∧
      s' = { s with chan }.setPrc i
        (after (s.prc i) (chan.returned i)[(s.chan.returned i).length]? a) := by
  rw [Chain.step, if_neg (by rw [hdone]; exact Bool.false_ne_true), poll, hmove] at hs
  obtain ⟨chan, hchan, rfl⟩ := Option.map_eq_some_iff.1 hs
  exact ⟨chan, hchan, rfl⟩

/-- A poll that only touches the packet. -/
theorem poll_goOn (hdone : (s.prc i).isDone = false) (hmove : s.moveOf i = none)
    (hs : s.step (.poll i) = some s') : s.goOn i = some s' := by
  rw [Chain.step, if_neg (by rw [hdone]; exact Bool.false_ne_true), poll, hmove] at hs
  exact (Option.ite_none_right_eq_some.1 hs).2

/-- The process makes a move. -/
theorem Around.own (h : Around delays s i) {chan : Channels (Packet T)} (hactor : a.actor = some i)
    (hsend : a.sendsOn = none) (hstep : s.chan.step a = some chan)
    (prc : PktPrc T) : Around delays ({ s with chan }.setPrc i prc) i := by
  refine (h.step hstep ?_ ?_).setPrc prc
  · rintro p hip - hp
    exact Nat.ne_of_lt hip (Option.some.inj (hactor.symm.trans hp))
  · intro c _ hc
    rw [hsend] at hc
    cases hc

theorem setPrc_self (s : Chain T) (i : Pid) (prc : PktPrc T) : (s.setPrc i prc).prc i = prc :=
  Function.update_self _ _ _

end Chain

/-- The tick awaited lies ahead, and it is the one the packet is ready at. -/
theorem Packet.handleDelay_eq_some {T : Type} {pkt : Packet T} {now r : Tick}
    (h : pkt.handleDelay now = some r) : r = pkt.readyAt ∧ now < pkt.readyAt := by
  obtain ⟨htimed, heq⟩ := Option.ite_none_right_eq_some.1 h
  have hlt := (Bool.and_eq_true_iff.1 htimed).2
  exact ⟨(Option.some.inj heq).symm, of_decide_eq_true hlt⟩

theorem Packet.accountDelay_eq_some {T : Type} {pkt : Packet T} {mode : TimingMode} {now r : Tick}
    (h : (pkt.accountDelay mode now none).2 = some r) :
    r = (pkt.accountDelay mode now none).1.readyAt ∧
      now < (pkt.accountDelay mode now none).1.readyAt := by
  cases mode with
  | lt => cases h
  | «at» => exact handleDelay_eq_some h

namespace Chain
variable {T : Type} {delays : List Tick} {due : Tick} {s s' : Chain T} {t : Transit T} {i : Pid}
  {todo : List PktOp} {a : ChanAct (Packet T)}

namespace OnWay

/-- Between its moves the process does what `Transit` does. -/
theorem touch {op : PktOp} (h : OnWay due delays s t i (op :: todo)) (hfree : s.chan.Free i)
    {pkt : Packet T} (tick : Option Tick)
    (ht : t.step .poll = some (t.await pkt (todo ++ PktOp.ahead delays i) tick))
    (htick : ∀ r, tick = some r → r = pkt.readyAt ∧ t.now < pkt.readyAt)
    (hs' : s' = s.setPrc i { todo, pkt := some pkt, yielding := tick.isSome }) :
    ∃ t' i' todo', OnWay due delays s' t' i' todo' := by
  rw [hs']
  refine ⟨_, i, todo, h.around.setPrc _, h.onTime.step ht, h.mode, h.now, rfl,
    (List.suffix_cons op todo).trans h.suffix, ?_, h.arrived⟩
  cases htick' : tick with
  | none => exact .running (setPrc_self _ _ _) hfree rfl
  | some r =>
      obtain ⟨rfl, hlt⟩ := htick r htick'
      refine .yielding (setPrc_self _ _ _) hfree ?_ hlt
      show some (wakeTick t.now pkt.readyAt) = some pkt.readyAt
      rw [wakeTick, Nat.max_eq_right hlt]

/-- The endpoint returns the packet. -/
theorem poll_returns (h : OnWay due delays s t i []) (hprc : s.prc i = ⟨[], some t.pkt, false⟩)
    (hfree : s.chan.Free i) (hwake : t.wake = none) (hs : s.step (.poll i) = some s') :
    s'.arrived = some (t.pkt, due) ∧ ∀ p, (s'.prc p).isDone = true := by
  have hmove := moveOf_free hfree
  rw [hprc] at hmove
  have hgo := poll_goOn h.place.isDone hmove hs
  simp only [goOn, hprc, Option.ite_none_right_eq_some, Option.some.injEq] at hgo
  obtain ⟨rfl, rfl⟩ := hgo
  have hleft := h.left
  refine ⟨?_, fun p => ?_⟩
  · rw [h.around.stages, PktOp.ahead_last] at hleft
    rw [← h.now, h.onTime.now_eq ⟨hleft, hwake⟩]
  · show (Function.update s.prc (s.stages + 1) { todo := [] } p).isDone = true
    by_cases hp : p = s.stages + 1
    · rw [hp, Function.update_self]
      rfl
    · rw [Function.update_of_ne hp]
      exact h.around.done p (Nat.lt_or_gt_of_ne hp)

/-- The process puts the packet on the channel of the next one. -/
theorem poll_sends (h : OnWay due delays s t i (.send :: todo))
    (hprc : s.prc i = ⟨.send :: todo, some t.pkt, false⟩) (hfree : s.chan.Free i)
    (hwake : t.wake = none) (hs : s.step (.poll i) = some s') :
    ∃ t' i' todo', OnWay due delays s' t' i' todo' := by
  have hmove := moveOf_free hfree
  rw [hprc] at hmove
  obtain ⟨chan, hchan, rfl⟩ := poll_move h.place.isDone hmove hs
  obtain ⟨rfl, hi⟩ := PktOp.segment_send (h.around.stages ▸ h.around.within) h.suffix
  have hi : i ≤ s.stages := h.around.stages ▸ hi
  have hafter : (after (s.prc i) (chan.returned i)[(s.chan.returned i).length]?
      (.send i i t.pkt)) = { todo := [] } := by
    rw [hprc]
    rfl
  rw [hafter]
  have hdone : ({ todo := [] } : PktPrc T).isDone = true := rfl
  obtain ⟨haround, hidle, hqueue, hwaits⟩ := h.around.send hi hchan hdone
  obtain ⟨rest, hrecv⟩ := PktOp.segment_recv (Nat.succ_pos i) (h.around.stages ▸ haround.within)
  have ht : t.step .poll = some (t.await t.pkt (PktOp.ahead delays i) none) := by
    rw [Transit.step, if_pos hwake, Transit.poll, h.left]
    rfl
  rw [PktOp.ahead_succ (h.around.stages ▸ hi)] at ht
  have hnow := Channels.now_of_wait h.around.sound.inv hchan
    (Option.ite_none_right_eq_some.1 hchan).1.1
  exact ⟨_, i + 1, PktOp.segment delays (i + 1), haround, h.onTime.step ht, h.mode,
    h.now.trans hnow.symm, rfl, List.suffix_refl _,
    .coming (Nat.succ_pos i) hrecv hidle.prc hidle.call hqueue hwaits rfl, h.arrived⟩

theorem poll_running (h : OnWay due delays s t i todo) (hprc : s.prc i = ⟨todo, some t.pkt, false⟩)
    (hfree : s.chan.Free i) (hwake : t.wake = none) (hs : s.step (.poll i) = some s') :
    (∃ t' i' todo', OnWay due delays s' t' i' todo') ∨
      s'.arrived = some (t.pkt, due) ∧ ∀ p, (s'.prc p).isDone = true := by
  cases todo with
  | nil => exact Or.inr (h.poll_returns hprc hfree hwake hs)
  | cons op todo =>
      refine Or.inl ?_
      by_cases hsend : op = .send
      · rw [hsend] at h hprc
        exact h.poll_sends hprc hfree hwake hs
      have hmove := moveOf_free hfree
      rw [hprc] at hmove
      have hleft := h.left
      rw [List.cons_append] at hleft
      have hstep : ∀ {x}, t.poll = some x → t.step .poll = some x := by
        intro x hx
        rw [Transit.step, if_pos hwake]
        exact hx
      cases op with
      | send => exact absurd rfl hsend
      | recv =>
          have hgo := poll_goOn h.place.isDone hmove hs
          simp only [goOn, hprc] at hgo
          cases hgo
      | lock =>
          have hgo := poll_goOn h.place.isDone hmove hs
          simp only [goOn, hprc, Option.some.injEq] at hgo
          refine h.touch hfree none (hstep ?_) (by simp) hgo.symm
          rw [Transit.poll, hleft]
      | appendDelay delay =>
          have hgo := poll_goOn h.place.isDone hmove hs
          simp only [goOn, hprc, Option.some.injEq] at hgo
          refine h.touch hfree none (hstep ?_) (by simp) hgo.symm
          rw [Transit.poll, hleft]
      | accountDelay =>
          have hgo := poll_goOn h.place.isDone hmove hs
          simp only [goOn, hprc, Option.some.injEq] at hgo
          refine h.touch hfree _ (hstep ?_) ?_ hgo.symm
          · rw [Transit.poll, hleft, ← h.mode, ← h.now]
          · rw [← h.mode, ← h.now]
            exact fun r => Packet.accountDelay_eq_some
      | handleDelay =>
          have hgo := poll_goOn h.place.isDone hmove hs
          simp only [goOn, hprc, Option.some.injEq] at hgo
          refine h.touch hfree _ (hstep ?_) ?_ hgo.symm
          · rw [Transit.poll, hleft, ← h.now]
          · rw [← h.now]
            exact fun r => Packet.handleDelay_eq_some

/-- The next process takes the packet out of the channel. -/
theorem poll_coming {rest : List PktOp} (h : OnWay due delays s t i todo)
    (htodo : todo = .recv :: rest) (hprc : s.prc i = ⟨todo, none, false⟩)
    (hcall : s.chan.call i = some (.receiving (i - 1)))
    (hqueue : (s.chan.queue (i - 1)).items = [t.pkt]) (hwake : t.wake = none)
    (hs : s.step (.poll i) = some s') :
    ∃ t' i' todo', OnWay due delays s' t' i' todo' := by
  have hmove := moveOf_call hcall
  obtain ⟨chan, hchan, rfl⟩ := poll_move h.place.isDone hmove hs
  have haround := h.around.own rfl rfl hchan
  obtain ⟨hstage, hres⟩ := Option.ite_none_right_eq_some.1 hchan
  have hnow := Channels.now_of_wait h.around.sound.inv hchan hstage
  have ht : t.step .poll = some (t.await t.pkt (rest ++ PktOp.ahead delays i) none) := by
    rw [Transit.step, if_pos hwake, Transit.poll, h.left, htodo, List.cons_append]
  have hfuture : s.chan.kernel.future i = none := h.around.sound.calls.future i (by simp [hcall])
  unfold Channels.resume at hres
  rw [hcall] at hres
  simp only at hres
  split at hres
  · rename_i pkt q htry
    obtain ⟨kernel, hk, rfl⟩ := Option.map_eq_some_iff.1 hres
    obtain ⟨-, rfl⟩ := Kernel.unlock_eq hk
    obtain rfl : pkt = t.pkt := by
      have hitems := (BoundedQueue.tryRecv_eq_some htry).1
      rw [hqueue] at hitems
      exact (List.cons.inj hitems).1.symm
    have hreturned : (Function.update s.chan.returned i (s.chan.returned i ++ [t.pkt])
        i)[(s.chan.returned i).length]? = some t.pkt := by
      rw [Function.update_self, List.getElem?_concat_length]
    refine ⟨_, i, rest, haround _, h.onTime.step ht, h.mode, h.now.trans hnow.symm, rfl,
      (htodo ▸ List.suffix_cons PktOp.recv rest).trans h.suffix, .running ?_ ?_ rfl, h.arrived⟩
    · rw [setPrc_self, hprc, htodo]
      simp only [hreturned, after, List.tail_cons]
      rfl
    · refine ⟨?_, List.mem_cons_self, hfuture⟩
      show (Function.update s.chan.call i none i).isNone = true
      rw [Function.update_self]
      rfl
  · cases hres

/-- The process makes its `Delay`. -/
theorem poll_yielding (h : OnWay due delays s t i todo) (hprc : s.prc i = ⟨todo, some t.pkt, true⟩)
    (hfree : s.chan.Free i) (hwake : t.wake = some t.pkt.readyAt) (hlater : t.now < t.pkt.readyAt)
    (hs : s.step (.poll i) = some s') :
    ∃ t' i' todo', OnWay due delays s' t' i' todo' := by
  have hmove := moveOf_free hfree
  rw [hprc] at hmove
  obtain ⟨chan, hchan, rfl⟩ := poll_move h.place.isDone hmove hs
  have haround := h.around.own rfl rfl hchan
  obtain ⟨⟨hstage, -, hnone⟩, hmap⟩ := Option.ite_none_right_eq_some.1 hchan
  have hnow := Channels.now_of_wait h.around.sound.inv hchan hstage
  obtain ⟨kernel, hk, rfl⟩ := Option.map_eq_some_iff.1 hmap
  have hlt : s.chan.kernel.sys.now < t.pkt.readyAt := h.now ▸ hlater
  obtain ⟨-, ⟨hready, -⟩ | ⟨-, hsuspend⟩⟩ := Kernel.start_cases hk
  · exact absurd (Kernel.ready_delay_iff.1 hready) (Nat.not_le.2 hlt)
  · refine ⟨t, i, todo, haround _, h.onTime, h.mode, h.now.trans hnow.symm, h.left, h.suffix,
      .suspended ?_ (Option.isNone_iff_eq_none.1 hnone) ?_ hwake, h.arrived⟩
    · rw [setPrc_self, hprc]
      rfl
    · have honce := h.around.sound.inv.loop.counted.running_once hfree.2.1
      exact .of_suspend hsuspend honce.1 hlt hstage

/-- The process polls its `Delay` again. -/
theorem poll_woken (h : OnWay due delays s t i todo) (hprc : s.prc i = ⟨todo, some t.pkt, false⟩)
    (hcall : s.chan.call i = none) (hrun : i ∈ s.chan.kernel.sys.running)
    (hfuture : s.chan.kernel.future i = some (.delay t.pkt.readyAt))
    (hwake : t.wake = some t.pkt.readyAt)
    (hs : s.step (.poll i) = some s') : ∃ t' i' todo', OnWay due delays s' t' i' todo' := by
  have hmove := moveOf_future hcall hfuture
  obtain ⟨chan, hchan, rfl⟩ := poll_move h.place.isDone hmove hs
  have haround := h.around.own rfl rfl hchan
  obtain ⟨-, hmap⟩ := Option.ite_none_right_eq_some.1 hchan
  obtain ⟨kernel, hk, rfl⟩ := Option.map_eq_some_iff.1 hmap
  have hprc' : ∀ {chan : Channels (Packet T)} {x}, ({ s with chan }.setPrc i
      (after (s.prc i) x (.prc (.poll i)))).prc i = ⟨todo, some t.pkt, false⟩ := by
    intro chan x
    rw [setPrc_self, hprc]
    rfl
  obtain ⟨-, f, hf, ⟨hready, rfl⟩ | ⟨-, rfl⟩⟩ := Kernel.poll_cases hk
  · obtain rfl : f = .delay t.pkt.readyAt := Option.some.inj (hf.symm.trans hfuture)
    have hdue : t.pkt.readyAt ≤ t.now := h.now ▸ Kernel.ready_delay_iff.1 hready
    have ht : t.step .wake = some { t with wake := none } := by
      rw [Transit.step, hwake]
      exact if_pos hdue
    refine ⟨_, i, todo, haround _, h.onTime.step ht, h.mode, h.now, h.left, h.suffix,
      .running hprc' ⟨?_, hrun, Function.update_self _ _ _⟩ rfl, h.arrived⟩
    exact Option.isNone_iff_eq_none.2 hcall
  · exact ⟨t, i, todo, haround _, h.onTime, h.mode, h.now, h.left, h.suffix,
      .woken hprc' hcall hrun hfuture hwake, h.arrived⟩

/-- A step leaves the packet on its way, or the endpoint returns it when it is due. -/
theorem step (h : OnWay due delays s t i todo) {a : ChainAct T} (hlast : s.LastStop a)
    (hs : s.step a = some s') :
    (∃ t' i' todo', OnWay due delays s' t' i' todo') ∨
      s'.arrived = some (t.pkt, due) ∧ ∀ p, (s'.prc p).isDone = true := by
  cases a with
  | other a =>
      obtain ⟨hother, hmap⟩ := Option.ite_none_right_eq_some.1 hs
      obtain ⟨chan, hchan, rfl⟩ := Option.map_eq_some_iff.1 hmap
      obtain ⟨t', h', -⟩ := h.other hother hlast hchan
      exact Or.inl ⟨t', i, todo, h'⟩
  | poll p =>
      by_cases hp : p = i
      · obtain rfl := hp
        cases h.place with
        | coming _ htodo hprc hcall hqueue _ hwake =>
            exact Or.inl (h.poll_coming htodo hprc hcall hqueue hwake hs)
        | running hprc hfree hwake => exact h.poll_running hprc hfree hwake hs
        | yielding hprc hfree hwake hlater =>
            exact Or.inl (h.poll_yielding hprc hfree hwake hlater hs)
        | suspended hprc hcall hdelayed hwake =>
            have hmove := moveOf_future hcall hdelayed.future
            obtain ⟨chan, hchan, -⟩ := poll_move h.place.isDone hmove hs
            obtain ⟨kernel, hk, -⟩ :=
              Option.map_eq_some_iff.1 (Option.ite_none_right_eq_some.1 hchan).2
            exact absurd (Kernel.poll_cases hk).1 hdelayed.stopped
        | woken hprc hcall hrun hfuture hwake =>
            exact Or.inl (h.poll_woken hprc hcall hrun hfuture hwake hs)
      · rw [h.around.poll_ne hp] at hs
        cases hs

end OnWay

/-! ### Whole runs -/

/-- A state of the simulation in which a packet can be sent through the chain: the initiator runs,
the stages and the endpoint wait for a packet, and the channels between them are empty. -/
structure Ready (n : Nat) (chan : Channels (Packet T)) : Prop where
  reachable : ∃ now queue, Reachable Channels.step (Channels.init now queue) chan
  stage : chan.kernel.stage = .wait
  free : chan.Free 0
  idle : ∀ p, 0 < p → p ≤ n + 1 → chan.call p = some (.receiving (p - 1))
  empty : ∀ c ≤ n, (chan.queue c).items = []
  /-- No one is about to send on them. -/
  apart : ∀ p c pkt, c ≤ n → chan.call p ≠ some (.sending c pkt)

variable {chan : Channels (Packet T)} {mode : TimingMode} {uid : Nat} {payload : T}
  {options : PacketOptions}

theorem onWay_start (h : Ready delays.length chan) (htimed : options.timed = true) :
    OnWay (chan.kernel.sys.now + options.delay + delays.sum) delays
      (start mode chan uid payload options delays)
      (Transit.start mode chan.kernel.sys.now uid payload options delays) 0 PktOp.fwdPkt where
  around := by
    obtain ⟨now, queue, hreach⟩ := h.reachable
    refine ⟨rfl, Nat.zero_le _, Channels.sound_reachable hreach, ?_, ?_, fun c _ => h.empty c,
      h.apart⟩
    · rintro p (hp | hp)
      · cases hp
      · have hne : p ≠ 0 := Nat.ne_zero_of_lt hp
        simp [start, PktOp.segment_past hp, hne, PktPrc.isDone]
    · intro p hpos hp
      refine ⟨?_, h.idle p hpos hp⟩
      simp [start, Nat.ne_of_gt hpos]
  onTime := .start htimed
  mode := rfl
  now := rfl
  left := PktOp.chain_segment delays
  suffix := List.suffix_refl _
  place := .running rfl h.free rfl
  arrived := rfl

/-- In a run whose steps all meet the condition, the packet is on its way or the endpoint has
returned it when it was due. -/
theorem onWay_or_arrived {acts : List (ChainAct T)} (h : OnWay due delays s t i todo)
    (hrun : run step s acts = some s') (hlast : Along step LastStop s acts) :
    (∃ t' i' todo', OnWay due delays s' t' i' todo') ∨
      (∃ pkt, s'.arrived = some (pkt, due)) ∧ ∀ p, (s'.prc p).isDone = true := by
  refine run_inv_along (I := fun s => (∃ t i todo, OnWay due delays s t i todo) ∨
    (∃ pkt, s.arrived = some (pkt, due)) ∧ ∀ p, (s.prc p).isDone = true) ?_
    (Or.inl ⟨t, i, todo, h⟩) hlast hrun
  rintro s a s' (⟨t, i, todo, h⟩ | ⟨⟨pkt, harrived⟩, hdone⟩) hstop hs
  · exact (h.step hstop hs).imp_right fun ⟨harr, hd⟩ => ⟨⟨t.pkt, harr⟩, hd⟩
  · refine Or.inr ?_
    cases a with
    | poll p =>
        rw [step, if_pos (hdone p)] at hs
        cases hs
    | other a =>
        obtain ⟨chan, -, rfl⟩ := Option.map_eq_some_iff.1 (Option.ite_none_right_eq_some.1 hs).2
        exact ⟨⟨pkt, harrived⟩, hdone⟩

/-- The stage and the endpoint call `recv`. -/
def recvCalls : List (ChanAct (Packet Unit)) :=
  [.prc (.spawn 0), .prc (.spawn 1), .prc (.spawn 2), .recv 1 0, .recv 2 1]

/-- The stage and the endpoint are blocked, the initiator runs. -/
def oneStage (now : Tick) : Channels (Packet Unit) :=
  let init : Channels (Packet Unit) := .init now fun _ => .empty 1 Nat.one_pos
  (run Channels.step init recvCalls).getD init

theorem ready_oneStage (now : Tick) : Ready 1 (oneStage now) := by
  refine ⟨⟨now, fun _ => .empty 1 Nat.one_pos, recvCalls, rfl⟩, rfl,
    ⟨rfl, List.mem_singleton_self 0, rfl⟩, ?_, fun _ _ => rfl, ?_⟩
  · intro p hpos hp
    interval_cases p
    · rfl
    · rfl
  · intro p c pkt _ hcall
    replace hcall : Function.update (Function.update (fun _ => none) 1 (some (.receiving 0))) 2
        (some (.receiving 1)) p = some (PortCall.sending c pkt) := hcall
    by_cases h2 : p = 2
    · rw [h2, Function.update_self] at hcall
      cases hcall
    · by_cases h1 : p = 1
      · rw [h1, Function.update_of_ne (by decide), Function.update_self] at hcall
        cases hcall
      · rw [Function.update_of_ne h2, Function.update_of_ne h1] at hcall
        cases hcall

/-- The loop moves the tick to the end of the delay of process `p`. -/
def tickTo (t : Tick) (p : Pid) : List (ChainAct Unit) :=
  [.other .pollLoop, .other (.loop .drain), .other (.loop .drained), .other (.loop .updateTick),
    .other (.loop .clearEvents), .other (.loop (.serve (.wakeup t p))), .other (.loop .endWake)]

/-- Only the endpoint waits for the packet. -/
def ltPolledFirst : List (ChainAct Unit) := List.flatten
  [[.poll 0, .poll 0, .poll 0, .poll 1, .other (.resume 0), .other (.prc (.finish 0)), .poll 1,
      .poll 1, .poll 1, .poll 1, .poll 1, .poll 2, .other (.resume 1), .other (.recv 1 0), .poll 2,
      .poll 2],
    tickTo 9 2, [.poll 2, .poll 2]]

/-- The initiator and the stage wait for it too. -/
def atPolledFirst : List (ChainAct Unit) := List.flatten
  [[.poll 0, .poll 0, .poll 0], tickTo 5 0,
    [.poll 0, .poll 0, .poll 1, .other (.resume 0), .other (.prc (.finish 0)), .poll 1, .poll 1,
      .poll 1, .poll 1, .poll 1],
    tickTo 9 1,
    [.poll 1, .poll 1, .poll 2, .other (.resume 1), .other (.recv 1 0), .poll 2, .poll 2]]

/-- The initiator waits until tick 5 for something else, and the runtime polls the scheduler before
the stage that the packet was sent to: it arrives at tick 5 and not at tick 4. -/
def polledLate : List (ChainAct Unit) := List.flatten
  [[.poll 0, .poll 0, .poll 0, .other (.resume 0), .other (.prc (.delay 0 5))], tickTo 5 0,
    [.poll 1, .poll 1, .poll 1, .poll 1, .poll 1, .poll 1, .poll 2, .poll 2, .poll 2]]

end Chain

end Ra2m
