/-
The processes that share one session queue, and the scheduler that wakes them
(`port/dispatch.rs`, `event.rs`).

A `Dispatch` leaves open when a process that waits on an event of its queue is let
through.  Here the loop of the scheduler decides: `Event::triggered` pushes an order
for the current tick, `Event::wait` is a future of the kernel, and any number of
processes enqueue and dequeue.

The lock of the list is released between the look at its length and the wait, so
another process can change the list in between; these are two actions.  A process
between them is alive, so the loop does not go through the orders of the delta-cycle
meanwhile.
-/
import Ra2m.Sim.Dispatch
import Ra2m.Sim.Kernel

namespace Ra2m

/-! ### The operations -/

inductive QueueOp (T : Type) where
  | enqueue (pkt : Packet T)
  | dequeue (len : Nat)

namespace QueueOp

variable {T : Type}

/-- What the operation returns and the queue it leaves; `none` when it has to wait. -/
def run (q : Queue T) : QueueOp T → Option (List (Packet T) × Queue T)
  | enqueue pkt => (q.enqueue pkt).map fun q => ([], q)
  | dequeue len => q.dequeue len

/-- The event it waits on. -/
def awaits (qid : Nat) : QueueOp T → Nat
  | enqueue _ => Queue.deqEvt qid
  | dequeue _ => Queue.enqEvt qid

/-- The event it triggers. -/
def triggers (qid : Nat) : QueueOp T → Nat
  | enqueue _ => Queue.enqEvt qid
  | dequeue _ => Queue.deqEvt qid

end QueueOp

/-- Where a process is in its operation. -/
inductive QueueCall (T : Type) where
  /-- In none; what the last one returned. -/
  | returned (head : List (Packet T))
  /-- It looks at the list next, or is suspended on the event until then. -/
  | looking (op : QueueOp T)
  /-- It has found no room, or too few packets, and is about to wait. -/
  | refused (op : QueueOp T)

namespace QueueCall

variable {T : Type}

def isReturned : QueueCall T → Bool
  | returned _ => true
  | _ => false

def isRefused : QueueCall T → Bool
  | refused _ => true
  | _ => false

end QueueCall

/-! ### The queue among its processes -/

structure QueueRun (T : Type) where
  kernel : Kernel
  qid : Nat
  queue : Queue T
  call : Pid → QueueCall T

inductive QueueAct (T : Type) where
  /-- A step of the loop, a poll, or a move of a process that is in no operation. -/
  | kernel (a : Act)
  | call (p : Pid) (op : QueueOp T)
  /-- Lock the list and look at its length. -/
  | look (p : Pid)
  /-- The first poll of `Event::wait`. -/
  | wait (p : Pid)
  /-- `flush_all` comes to the queue. -/
  | flush

namespace QueueRun

variable {T : Type}

def init (now : Tick) (qid depth : Nat) : QueueRun T where
  kernel := Kernel.init now
  qid := qid
  queue := { depth }
  call := fun _ => .returned []

/-- Whether no process is between its look and its wait. -/
def noneRefused (self : QueueRun T) : Bool :=
  self.kernel.sys.running.all fun p => !(self.call p).isRefused

/-- Whether the kernel can take the action. -/
def allows (self : QueueRun T) : Act → Bool
  | .drain => self.noneRefused
  | .drained => self.noneRefused
  | .poll _ => true
  | a =>
      match a.actor with
      | some p => (self.call p).isReturned
      | none => true

/-- The operation looks at the list; if it goes through, it triggers its event. -/
def look (self : QueueRun T) (p : Pid) (op : QueueOp T) : Option (QueueRun T) :=
  match op.run self.queue with
  | none => some { self with call := Function.update self.call p (.refused op) }
  | some (head, queue) =>
      (self.kernel.step (.notify self.kernel.sys.now (op.triggers self.qid))).map fun kernel =>
        { self with kernel, queue, call := Function.update self.call p (.returned head) }

/-- Take an action; `none` when it is not possible. -/
def step (self : QueueRun T) : QueueAct T → Option (QueueRun T)
  | .kernel a =>
      if self.allows a then (self.kernel.step a).map fun kernel => { self with kernel } else none
  | .call p op =>
      if self.kernel.Free p ∧ (self.call p).isReturned then
        some { self with call := Function.update self.call p (.looking op) }
      else none
  | .look p =>
      match self.call p with
      | .looking op => if self.kernel.Free p then self.look p op else none
      | _ => none
  | .wait p =>
      match self.call p with
      | .refused op =>
          (self.kernel.step (.wait p (op.awaits self.qid))).map fun kernel =>
            { self with kernel, call := Function.update self.call p (.looking op) }
      | _ => none
  | .flush => some { self with queue := self.queue.flush }

/-- The process is suspended in the operation and has not been woken. -/
def Waiting (self : QueueRun T) (p : Pid) (op : QueueOp T) : Prop :=
  self.call p = .looking op ∧ self.kernel.future p = some (.event (op.awaits self.qid)) ∧
    p ∉ self.kernel.sys.running

/-- The operation was refused: the process waits, or is about to. -/
def Refused (self : QueueRun T) (p : Pid) (op : QueueOp T) : Prop :=
  self.call p = .refused op ∨ self.Waiting p op

end QueueRun

end Ra2m
