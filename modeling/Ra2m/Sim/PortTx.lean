/-
Packets forwarded through one port (`port/half_duplex.rs`, `mem/xbar.rs`).

A process appends the delay of its transfer to a packet and calls `fwd_pkt`: it waits for
the port, waits there until the packet is ready, and sends it while it still has the
port.  Any number of processes do so; which of those waiting obtains the port is left
open (`PortLock` has the queue of the mutex).  The packets are timed and the mode is the
approximately timed one.

Time moves only when no process can go on: the one that has the port is suspended on a
`Delay`, or finds the channel full, or there is none.  What was sent is kept in a log
that no step reads.
-/
import Ra2m.Sim.Transit
import Ra2m.Lib.BoundedQueue

namespace Ra2m

/-- Where a process is that has the port. -/
inductive TxStage where
  /-- It has the lock. -/
  | locked
  | asleep (wake : Tick)
  /-- The delay is accounted for, `send` is next. -/
  | sending
  /-- The channel was full. -/
  | blocked
  /-- The packet is sent, the lock not yet dropped. -/
  | sent
  deriving DecidableEq, Repr

/-- A call of `fwd_pkt`: the packet with the delay appended, and what it was before. -/
structure FwdCall (T : Type) where
  pkt : Packet T
  base : Tick
  delay : Tick

/-- The call that has the port. -/
structure TxHolder (T : Type) where
  call : FwdCall T
  obtained : Tick
  stage : TxStage

/-- A packet that has left, with its delay and the tick it left at. -/
structure Departure where
  delay : Tick
  left : Tick
  deriving DecidableEq, Repr

structure PortTx (T : Type) where
  now : Tick
  /-- The calls that wait for the port. -/
  waiting : List (FwdCall T) := []
  holder : Option (TxHolder T) := none
  channel : BoundedQueue (Packet T)
  /-- The packets that have left, the last one first. -/
  log : List Departure := []

inductive PortTxAct (T : Type) where
  /-- A process appends a delay to a packet and calls `fwd_pkt`. -/
  | forward (pkt : Packet T) (delay : Tick)
  /-- The `i`-th of the waiting calls gets the lock. -/
  | obtain (i : Nat)
  | accountDelay
  | wake
  | send
  /-- A blocked `send` goes on. -/
  | unblock
  | unlock
  /-- The far side takes a packet off the channel. -/
  | recv
  | advance (t : Tick)

namespace PortTx

variable {T : Type}

def init (now : Tick) (pktInflight : Nat) (pos : 0 < pktInflight) : PortTx T where
  now := now
  channel := .empty pktInflight pos

/-- `append_delay` and the call. -/
def fwdCall (pkt : Packet T) (delay : Tick) : FwdCall T where
  pkt := pkt.appendDelay delay
  base := pkt.readyAt
  delay := delay

/-- The call that has the port moves on. -/
def move (s : PortTx T) (h : TxHolder T) (stage : TxStage) : PortTx T :=
  { s with holder := some { h with stage } }

/-- The packet enters the channel. -/
def depart (s : PortTx T) (h : TxHolder T) (channel : BoundedQueue (Packet T)) : PortTx T :=
  { s.move h .sent with channel, log := ⟨h.call.delay, s.now⟩ :: s.log }

/-- No process can go on before tick `t`. -/
def canAdvance (s : PortTx T) (t : Tick) : Bool :=
  match s.holder with
  | none => s.waiting.isEmpty
  | some h =>
      match h.stage with
      | .asleep wake => decide (t ≤ wake)
      | .blocked => !s.channel.hasRoom
      | _ => false

def step (s : PortTx T) : PortTxAct T → Option (PortTx T)
  | .forward pkt delay =>
      if pkt.timed then some { s with waiting := s.waiting ++ [fwdCall pkt delay] } else none
  | .obtain i =>
      match s.holder, s.waiting[i]? with
      | none, some call =>
          some { s with waiting := s.waiting.eraseIdx i, holder := some ⟨call, s.now, .locked⟩ }
      | _, _ => none
  | .accountDelay =>
      match s.holder with
      | some h =>
          if h.stage = .locked then
            match h.call.pkt.accountDelay .at s.now none with
            | (_, some tick) => some (s.move h (.asleep (wakeTick s.now tick)))
            | (_, none) => some (s.move h .sending)
          else none
      | none => none
  | .wake =>
      match s.holder with
      | some h =>
          match h.stage with
          | .asleep wake => if wake ≤ s.now then some (s.move h .sending) else none
          | _ => none
      | none => none
  | .send =>
      match s.holder with
      | some h =>
          if h.stage = .sending then
            match s.channel.trySend h.call.pkt with
            | some channel => some (s.depart h channel)
            | none => some (s.move h .blocked)
          else none
      | none => none
  | .unblock =>
      match s.holder with
      | some h =>
          if h.stage = .blocked then (s.channel.trySend h.call.pkt).map (s.depart h) else none
      | none => none
  | .unlock =>
      match s.holder with
      | some h => if h.stage = .sent then some { s with holder := none } else none
      | none => none
  | .recv => s.channel.tryRecv.map fun (_, channel) => { s with channel }
  | .advance t => if s.now < t ∧ s.canAdvance t then some { s with now := t } else none

end PortTx

end Ra2m
