/-
The dispatcher behind a port with sessions (`port/dispatch.rs`).

`poll_port` receives packet after packet and puts each into the queue of its session,
in the order of the uids; a process that calls `wait_pkt_burst` takes the first packets
of a queue.  Both hold the lock of the queue from the look at its length to the end of
what they do to it, so each is one step; one that finds no room, or too few packets,
waits on an event of the queue and looks again.

The events are those of the `EventKeeper`: a trigger is an order the scheduler serves
later, and time may advance in between.  Everything that happens is an action, in any
order.
-/
import Ra2m.Sim.Event
import Ra2m.Sim.MemBus
import Mathlib.Data.List.Sort

namespace Ra2m

variable {T : Type}

/-- The queue a packet is put into, the first one if it has no session. -/
def Packet.session (pkt : Packet T) : Nat := pkt.sid.getD 0

/-! ### One queue -/

structure Queue (T : Type) where
  depth : Nat
  ll : List (Packet T) := []

namespace Queue

/-- The list is split; what stays in it, and what is returned. -/
def splitOff {α : Type} (ll : List α) (pos : Nat) : List α × List α := (ll.take pos, ll.drop pos)

/-- Insert before the first packet with a larger uid, at the end if there is none. -/
def insertPkt (pkt : Packet T) (ll : List (Packet T)) : List (Packet T) :=
  ll.orderedInsert (fun pkt llcPkt => pkt.uid < llcPkt.uid) pkt

/-- `none` when the queue is full. -/
def enqueue (self : Queue T) (pkt : Packet T) : Option (Queue T) :=
  if self.ll.length < self.depth then some { self with ll := insertPkt pkt self.ll } else none

/-- Take the first `len` packets; `none` when there are fewer. -/
def dequeue (self : Queue T) (len : Nat) : Option (List (Packet T) × Queue T) :=
  if self.ll.length ≥ len then
    let (ll, tail) := splitOff self.ll len
    let (_, head) := splitOff ll 0
    some (head, { self with ll := tail })
  else none

def flush (self : Queue T) : Queue T := { self with ll := [] }

/-- The uid the keeper gives to `enqueue_{qid}`. -/
def enqEvt (qid : Nat) : Nat := 2 * qid

/-- The uid the keeper gives to `dequeue_{qid}`. -/
def deqEvt (qid : Nat) : Nat := 2 * qid + 1

end Queue

/-! ### The processes -/

inductive PollPort (T : Type) where
  /-- In `wait_pkt`. -/
  | receiving
  /-- About to look at the queue. -/
  | enqueuing (pkt : Packet T)
  /-- Waits on the dequeue event of the queue. -/
  | parked (pkt : Packet T)
  /-- There is no queue for the packet; the process ends there. -/
  | panicked (pkt : Packet T)

/-- The packet `poll_port` has in hand. -/
def PollPort.held : PollPort T → List (Packet T)
  | receiving => []
  | enqueuing pkt => [pkt]
  | parked pkt => [pkt]
  | panicked pkt => [pkt]

inductive WaitStage (T : Type) where
  | dequeuing
  /-- Waits on the enqueue event of the queue. -/
  | parked
  | returned (burst : List (Packet T))
  | panicked (p : Panic)

/-- A call of `wait_pkt_burst`. -/
structure WaitBurst (T : Type) where
  task : Nat
  sid : Nat
  nbPkt : Nat
  stage : WaitStage T

/-- The packets the call has returned. -/
def WaitBurst.burst (call : WaitBurst T) : List (Packet T) :=
  match call.stage with
  | .returned burst => burst
  | _ => []

/-! ### The dispatcher -/

structure Dispatch (T : Type) where
  /-- The name of the endpoint that is polled. -/
  rxName : String
  isSpawned : Bool := false
  queue : List (Queue T)
  /-- The task of `poll_port`. -/
  pollTask : Nat
  pollPort : PollPort T := .receiving
  /-- The calls of `wait_pkt_burst`, in the order they were made. -/
  calls : List (WaitBurst T) := []
  events : EventKeeper := {}
  /-- The events triggered but not yet served by the scheduler. -/
  orders : List Nat := []
  /-- The packets `poll_port` has received. -/
  received : List (Packet T) := []

inductive DispatchAct (T : Type) where
  | init
  /-- `wait_pkt` returns a packet to `poll_port`. -/
  | receive (pkt : Packet T)
  /-- `poll_port` looks at the queue. -/
  | enqueue
  | wakePoll
  | waitPktBurst (task sid nbPkt : Nat)
  /-- The `i`-th call looks at its queue. -/
  | dequeue (i : Nat)
  | wakeCall (i : Nat)
  /-- The scheduler serves a triggered event. -/
  | notify (evt : Nat)
  /-- Time advances. -/
  | clearEvents
  | flushAll

namespace Dispatch

def fromDepth (name : String) (pollTask : Nat) (depth : List Nat) : Dispatch T where
  rxName := s!"{name}.drx"
  queue := depth.map fun d => { depth := d }
  pollTask := pollTask

def width (self : Dispatch T) : Nat := self.queue.length

/-- The packets in the queues. -/
def queued (self : Dispatch T) : List (Packet T) := self.queue.flatMap Queue.ll

/-- The packets the calls have returned. -/
def handedOut (self : Dispatch T) : List (Packet T) := self.calls.flatMap WaitBurst.burst

/-- `poll_port` with a packet, up to its next await. -/
def pollEnqueue (self : Dispatch T) (pkt : Packet T) : Dispatch T :=
  match self.queue[pkt.session]? with
  | none => { self with pollPort := .panicked pkt }
  | some q =>
      match q.enqueue pkt with
      | none => { self with pollPort := .parked pkt }
      | some q =>
          { self with
            queue := self.queue.set pkt.session q
            pollPort := .receiving
            orders := self.orders ++ [Queue.enqEvt pkt.session] }

/-- A call of `wait_pkt_burst`, up to where it looks at the queue. -/
def callBurst (self : Dispatch T) (task sid nbPkt : Nat) : WaitBurst T :=
  { task, sid, nbPkt,
    stage :=
      if !self.isSpawned then .panicked
        ⟨"Attempt to access uninit Dispatch. Dispatch must be init to poll associated ep " ++
          self.rxName⟩
      else if self.width ≤ sid then .panicked
        ⟨s!"Attempt to access session {sid} from Dispatch[{self.width}]. Invalid sid requested"⟩
      else .dequeuing }

/-- The `i`-th call looks at its queue. -/
def callDequeue (self : Dispatch T) (i : Nat) (call : WaitBurst T) : Option (Dispatch T) :=
  match self.queue[call.sid]? with
  | none => none
  | some q =>
      match q.dequeue call.nbPkt with
      | none => some { self with calls := self.calls.set i { call with stage := .parked } }
      | some (head, q) =>
          some { self with
            queue := self.queue.set call.sid q
            calls := self.calls.set i { call with stage := .returned head }
            orders := self.orders ++ [Queue.deqEvt call.sid] }

/-- What an action does; `none` when the process concerned is not at that point. -/
def step (self : Dispatch T) : DispatchAct T → Option (Dispatch T)
  | .init => some { self with isSpawned := true }
  | .receive pkt =>
      match self.pollPort with
      | .receiving =>
          if self.isSpawned then
            some { self with pollPort := .enqueuing pkt, received := self.received ++ [pkt] }
          else none
      | _ => none
  | .enqueue =>
      match self.pollPort with
      | .enqueuing pkt => some (self.pollEnqueue pkt)
      | _ => none
  | .wakePoll =>
      match self.pollPort with
      | .parked pkt =>
          let (woken, events) := self.events.isTriggered (Queue.deqEvt pkt.session) self.pollTask
          if woken then some { self with pollPort := .enqueuing pkt, events } else none
      | _ => none
  | .waitPktBurst task sid nbPkt =>
      some { self with calls := self.calls ++ [self.callBurst task sid nbPkt] }
  | .dequeue i =>
      match self.calls[i]? with
      | some call =>
          match call.stage with
          | .dequeuing => self.callDequeue i call
          | _ => none
      | none => none
  | .wakeCall i =>
      match self.calls[i]? with
      | some call =>
          match call.stage with
          | .parked =>
              let (woken, events) := self.events.isTriggered (Queue.enqEvt call.sid) call.task
              if woken then
                some { self with
                  calls := self.calls.set i { call with stage := .dequeuing }, events }
              else none
          | _ => none
      | none => none
  | .notify evt =>
      if evt ∈ self.orders then
        some { self with orders := self.orders.erase evt, events := self.events.triggerEvent evt }
      else none
  | .clearEvents => some { self with events := self.events.clearTriggeredEvents }
  | .flushAll => some { self with queue := self.queue.map Queue.flush }

end Dispatch

end Ra2m
