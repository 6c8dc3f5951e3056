/-
The delay of a packet on its way (`port/packet.rs`, `port/half_duplex.rs`, `time.rs`).

A packet carries the tick from which it counts as delivered.  In the loosely timed mode
the ports leave it at that, and only the endpoint waits; in the approximately timed mode
every port on the way waits first.

`Transit` is what the way of a lone packet is meant to be: what is done with it, one call
after another, while time moves only when the process that has it is suspended on a
`Delay`.  The scheduler knows nothing of packets; how far it keeps to this is a matter of
the processes, their channels and the order in which they are polled.
-/
import Ra2m.Sim.MemBus
import Ra2m.Sim.Scheduler
import Ra2m.Sim.Globals

namespace Ra2m

structure PacketOptions where
  timed : Bool := true
  sid : Option Nat := none
  delay : Tick := 0

namespace Packet

variable {T : Type}

/-- A new packet, made at tick `now` with the next uid. -/
def wrapPayload (now : Tick) (uid : Nat) (payload : T) (options : PacketOptions) : Packet T where
  timed := options.timed
  uid := uid
  sid := options.sid
  payload := payload
  readyAt := now + options.delay

/-- The tick `handle_delay` awaits, if it awaits one. -/
def handleDelay (self : Packet T) (now : Tick) : Option Tick :=
  if self.timed && self.readyAt > now then some self.readyAt else none

/-- The packet with its delay, and the tick `account_delay` awaits. -/
def accountDelay (self : Packet T) (mode : TimingMode) (now : Tick) (delay : Option Tick) :
    Packet T × Option Tick :=
  let self := match delay with
    | some delay => self.appendDelay delay
    | none => self
  match mode with
  | .lt => (self, none)
  | .at => (self, self.handleDelay now)

end Packet

/-- The tick at which the scheduler wakes a process that waits until `t` from tick `now` on. -/
def wakeTick (now t : Tick) : Tick := max (now + 1) t

/-- It is the tick of the task the process's order becomes. -/
theorem taskOf_waitUntil {W : Type} (now t : Tick) (w : W) :
    Scheduler.taskOf now (.waitUntil t w) = some (.wakeup (wakeTick now t) w) := rfl

/-! ### A packet alone -/

/-- What a process does with the packet it has, and what it awaits. -/
inductive PktOp where
  | lock
  | send
  | recv
  | appendDelay (delay : Tick)
  | accountDelay
  | handleDelay
  deriving DecidableEq, Repr

namespace PktOp

/-- `MasterPort::send_pkt` and `fwd_pkt`. -/
def fwdPkt : List PktOp := [lock, accountDelay, send]

/-- `SlavePort::wait_pkt`, blocked in `recv` until the packet comes. -/
def waitPkt : List PktOp := [recv, accountDelay]

/-- `SlavePort::wait_pkt_ep`, blocked in `recv` until the packet comes. -/
def waitPktEp : List PktOp := [recv, handleDelay]

/-- A stage that adds a delay and forwards the packet. -/
def stage (delay : Tick) : List PktOp := waitPkt ++ (appendDelay delay :: fwdPkt)

/-- What each process on the way does: the initiator, the stages and the endpoint. -/
def segments (delays : List Tick) : List (List PktOp) :=
  fwdPkt :: (delays.map stage ++ [waitPktEp])

/-- The way from the initiator through the stages to the endpoint. -/
def chain (delays : List Tick) : List PktOp := (segments delays).flatten

end PktOp

/-- A packet on its way, and what is still to be done with it. -/
structure Transit (T : Type) where
  mode : TimingMode
  now : Tick
  pkt : Packet T
  todo : List PktOp
  /-- The tick at which the process that has the packet is woken, while it is suspended. -/
  wake : Option Tick := none

inductive TransitAct where
  /-- Poll the process that has the packet, or is about to receive it. -/
  | poll
  | wake
  | advance (t : Tick)
  deriving DecidableEq

namespace Transit

variable {T : Type}

/-- The packet is made at tick `now` and handed to the first port of the chain. -/
def start (mode : TimingMode) (now : Tick) (uid : Nat) (payload : T) (options : PacketOptions)
    (delays : List Tick) : Transit T where
  mode := mode
  now := now
  pkt := .wrapPayload now uid payload options
  todo := PktOp.chain delays

/-- The endpoint has returned the packet. -/
def Returned (s : Transit T) : Prop := s.todo = [] ∧ s.wake = none

/-- Go on with the packet, once the tick to await has come if there is one. -/
def await (s : Transit T) (pkt : Packet T) (todo : List PktOp) (tick : Option Tick) : Transit T :=
  { s with pkt, todo, wake := tick.map (wakeTick s.now) }

/-- What the process does with the packet up to its next await. -/
def poll (s : Transit T) : Option (Transit T) :=
  match s.todo with
  | [] => none
  | .lock :: todo => some (s.await s.pkt todo none)
  | .send :: todo => some (s.await s.pkt todo none)
  | .recv :: todo => some (s.await s.pkt todo none)
  | .appendDelay delay :: todo => some (s.await (s.pkt.appendDelay delay) todo none)
  | .accountDelay :: todo =>
      let (pkt, tick) := s.pkt.accountDelay s.mode s.now none
      some (s.await pkt todo tick)
  | .handleDelay :: todo => some (s.await s.pkt todo (s.pkt.handleDelay s.now))

def step (s : Transit T) : TransitAct → Option (Transit T)
  | .poll => if s.wake = none then s.poll else none
  | .wake =>
      match s.wake with
      | some w => if w ≤ s.now then some { s with wake := none } else none
      | none => none
  | .advance t =>
      match s.wake with
      | some w => if s.now < t ∧ t ≤ w then some { s with now := t } else none
      | none => none

end Transit

end Ra2m
