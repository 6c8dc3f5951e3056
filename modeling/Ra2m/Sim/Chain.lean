/-
A packet that goes through a chain of processes (`port/half_duplex.rs`, `port/packet.rs`,
`delay.rs`).

Process 0 has the packet and forwards it; every stage waits for it, appends its delay and
forwards it; the last process is the endpoint.  Process `p` has the slave endpoint of
channel `p - 1` and the master endpoint of channel `p`.  Beside them there may be any
other processes, and a process of the chain that is through with the packet goes on with
anything else; only the channels of the chain carry nothing but the packet, and its ports
are not locked by anyone else.

All of them move in a `Channels`, so the tick moves when the scheduler moves it.  A poll
of a process of the chain is split at its calls.
-/
import Ra2m.Sim.Channel
import Ra2m.Sim.Transit

namespace Ra2m

/-- What a process still does with the packet, and the packet when it has it. -/
structure PktPrc (T : Type) where
  todo : List PktOp
  pkt : Option (Packet T) := none
  /-- It has yielded in `handle_delay`, and makes its `Delay` when it comes back. -/
  yielding : Bool := false

namespace PktPrc

/-- The process is through with the packet. -/
def isDone {T : Type} (self : PktPrc T) : Bool := self.todo.isEmpty && self.pkt.isNone

end PktPrc

/-- What process `p` of the chain does. -/
def PktOp.segment (delays : List Tick) (p : Pid) : List PktOp := ((segments delays)[p]?).getD []

namespace ChanAct

variable {M : Type}

/-- The process whose move it is. -/
def actor : ChanAct M → Option Pid
  | prc a => a.actor
  | send p _ _ => some p
  | recv p _ => some p
  | resume p => some p
  | pollLoop => none
  | loop _ => none

/-- The channel a packet is sent on. -/
def sendsOn : ChanAct M → Option Nat
  | send _ c _ => some c
  | _ => none

end ChanAct

structure Chain (T : Type) where
  chan : Channels (Packet T)
  mode : TimingMode
  /-- The number of stages; the endpoint is the process after them. -/
  stages : Nat
  prc : Pid → PktPrc T
  /-- The packet the endpoint has returned, and the tick. -/
  arrived : Option (Packet T × Tick) := none

inductive ChainAct (T : Type) where
  /-- Poll a process that is not through with the packet. -/
  | poll (p : Pid)
  /-- Anything else. -/
  | other (a : ChanAct (Packet T))

namespace Chain

variable {T : Type}

/-- The packet is made, and handed to the first port of the chain. -/
def start (mode : TimingMode) (chan : Channels (Packet T)) (uid : Nat) (payload : T)
    (options : PacketOptions) (delays : List Tick) : Chain T where
  chan := chan
  mode := mode
  stages := delays.length
  prc p :=
    { todo := PktOp.segment delays p
      pkt := if p = 0 then some (.wrapPayload chan.kernel.sys.now uid payload options) else none }

/-- The move of the simulation a poll of the process makes; `none` when the poll only touches the
packet. -/
def moveOf (s : Chain T) (p : Pid) : Option (ChanAct (Packet T)) :=
  if (s.chan.call p).isSome then some (.resume p)
  else if (s.chan.kernel.future p).isSome then some (.prc (.poll p))
  else
    match s.prc p with
    | ⟨_, some pkt, true⟩ => some (.prc (.delay p pkt.readyAt))
    | ⟨.recv :: _, none, _⟩ => some (.recv p (p - 1))
    | ⟨.send :: _, some pkt, _⟩ => some (.send p p pkt)
    | _ => none

/-- What the move leaves to do; `received` is the packet that it has returned to the process. -/
def after (prc : PktPrc T) (received : Option (Packet T)) : ChanAct (Packet T) → PktPrc T
  | .send _ _ _ => { prc with todo := prc.todo.tail, pkt := none }
  | .resume _ =>
      match received with
      | some pkt => { prc with todo := prc.todo.tail, pkt := some pkt }
      | none => prc
  | .prc (.delay _ _) => { prc with yielding := false }
  | _ => prc

/-- Make a move for the process. -/
def move (s : Chain T) (p : Pid) (a : ChanAct (Packet T)) : Option (Chain T) :=
  (s.chan.step a).map fun chan => { s with
    chan
    prc := Function.update s.prc p
      (after (s.prc p) (chan.returned p)[(s.chan.returned p).length]? a) }

/-- What is left to do. -/
def setPrc (s : Chain T) (p : Pid) (prc : PktPrc T) : Chain T :=
  { s with prc := Function.update s.prc p prc }

/-- Go on with the packet up to the next move. -/
def goOn (s : Chain T) (p : Pid) : Option (Chain T) :=
  let now := s.chan.kernel.sys.now
  match s.prc p with
  | ⟨.lock :: todo, some pkt, _⟩ => some (s.setPrc p { todo, pkt := some pkt })
  | ⟨.appendDelay delay :: todo, some pkt, _⟩ =>
      some (s.setPrc p { todo, pkt := some (pkt.appendDelay delay) })
  | ⟨.accountDelay :: todo, some pkt, _⟩ =>
      let (pkt, tick) := pkt.accountDelay s.mode now none
      some (s.setPrc p { todo, pkt := some pkt, yielding := tick.isSome })
  | ⟨.handleDelay :: todo, some pkt, _⟩ =>
      some (s.setPrc p { todo, pkt := some pkt, yielding := (pkt.handleDelay now).isSome })
  | ⟨[], some pkt, _⟩ =>
      if p = s.stages + 1 then
        some { s.setPrc p { todo := [] } with arrived := some (pkt, now) }
      else none
  | _ => none

def poll (s : Chain T) (p : Pid) : Option (Chain T) :=
  match s.moveOf p with
  | some a => s.move p a
  | none => if s.chan.kernel.stage = .wait ∧ s.chan.Free p then s.goOn p else none

/-- The action is not one for the packet. -/
def isOther (s : Chain T) (a : ChanAct (Packet T)) : Bool :=
  a.actor.all (fun p => (s.prc p).isDone) && a.sendsOn.all (fun c => decide (s.stages < c))

/-- Take an action; `none` when it is not possible. -/
def step (s : Chain T) : ChainAct T → Option (Chain T)
  | .poll p => if (s.prc p).isDone = true then none else s.poll p
  | .other a =>
      if s.isOther a = true then (s.chan.step a).map fun chan => { s with chan } else none

end Chain

end Ra2m
