/-
Processes that exchange packets (`port/half_duplex.rs`, `scheduler.rs`).

`MasterEndpoint::send` and `SlaveEndpoint::recv` first try the bounded channel between
them.  If the try succeeds the process yields once to the runtime and goes on.  If it
does not, the process leaves the scheduler's count of alive processes and blocks on the
channel; the runtime may poll it again once the channel has room, or a packet, and then
it counts an unlock event, comes back, and goes on.

The rest of the simulation is a `Kernel`.  A poll runs a task up to where it is
suspended, so the runtime polls the processes and the scheduler one after another in
any order: a process moves only while the loop is suspended at one of the three places
where `simulate` awaits, and `pollLoop` is the loop's poll up to the end of the
delta-cycle.  Both endpoints are borrowed by the call that uses them, so a channel has
one sender and one receiver at a time.
-/
import Ra2m.Sim.Kernel
import Ra2m.Lib.BoundedQueue

namespace Ra2m

/-- Where a process is in a call of `send` or `recv`. -/
inductive PortCall (M : Type) where
  /-- `try_send` succeeded, yields once. -/
  | sent (c : Nat)
  /-- The channel was full. -/
  | sending (c : Nat) (pkt : M)
  /-- `try_recv` succeeded, yields once. -/
  | received (c : Nat) (pkt : M)
  /-- The channel was empty. -/
  | receiving (c : Nat)

/-- Where `simulate` is suspended. -/
inductive WaitPoint where
  /-- Until no process is alive. -/
  | deltaCycle
  /-- Until `unlocked_prc` reaches the unlock events that were read. -/
  | unlocked (unlockEvt : Nat)
  /-- Until no process is alive again. -/
  | resolved
  deriving DecidableEq, Repr

structure Channels (M : Type) where
  kernel : Kernel
  unlockEvt : Nat
  waitPoint : WaitPoint
  queue : Nat → BoundedQueue M
  /-- The process that has borrowed the master endpoint of a channel. -/
  sender : Nat → Option Pid
  /-- The process that has borrowed the slave endpoint of a channel. -/
  receiver : Nat → Option Pid
  call : Pid → Option (PortCall M)
  /-- The packets `recv` has returned to a process. -/
  returned : Pid → List M

inductive ChanAct (M : Type) where
  /-- A move that is not a port call. -/
  | prc (a : Act)
  | send (p : Pid) (c : Nat) (pkt : M)
  | recv (p : Pid) (c : Nat)
  /-- Poll a process that is in a port call. -/
  | resume (p : Pid)
  /-- Poll the loop. -/
  | pollLoop
  /-- The rest of its poll, once the delta-cycle has ended. -/
  | loop (a : Act)

namespace Act

/-- A move of a process that is not in a port call. -/
def isPlain : Act → Bool
  | spawn _ => true
  | finish _ => true
  | wait _ _ => true
  | delay _ _ => true
  | notify _ _ => true
  | poll _ => true
  | _ => false

/-- A step of the loop after the end of the delta-cycle. -/
def isLoop : Act → Bool
  | drain => true
  | drained => true
  | again => true
  | updateTick => true
  | clearEvents => true
  | serve _ => true
  | endWake => true
  | _ => false

end Act

namespace Channels

variable {M : Type}

/-- Before any process is registered. -/
def init (now : Tick) (queue : Nat → BoundedQueue M) : Channels M where
  kernel := Kernel.init now
  unlockEvt := 0
  waitPoint := .deltaCycle
  queue := queue
  sender _ := none
  receiver _ := none
  call _ := none
  returned _ := []

def api (s : Channels M) : SchedulerAPI := s.kernel.sys.api

/-- The process runs and is not in the middle of anything. -/
def Free (s : Channels M) (p : Pid) : Prop := (s.call p).isNone = true ∧ s.kernel.Free p

instance (s : Channels M) (p : Pid) : Decidable (s.Free p) :=
  inferInstanceAs (Decidable (_ ∧ _))

/-- Call `send`, up to its first await. -/
def send (s : Channels M) (p : Pid) (c : Nat) (pkt : M) : Option (Channels M) :=
  match (s.queue c).trySend pkt with
  | some q =>
      some { s with
        queue := Function.update s.queue c q
        sender := Function.update s.sender c (some p)
        call := Function.update s.call p (some (.sent c)) }
  | none =>
      (s.kernel.step (.lock p)).map fun kernel => { s with
        kernel
        sender := Function.update s.sender c (some p)
        call := Function.update s.call p (some (.sending c pkt)) }

/-- Call `recv`, up to its first await. -/
def recv (s : Channels M) (p : Pid) (c : Nat) : Option (Channels M) :=
  match (s.queue c).tryRecv with
  | some (pkt, q) =>
      some { s with
        queue := Function.update s.queue c q
        receiver := Function.update s.receiver c (some p)
        call := Function.update s.call p (some (.received c pkt)) }
  | none =>
      (s.kernel.step (.lock p)).map fun kernel => { s with
        kernel
        receiver := Function.update s.receiver c (some p)
        call := Function.update s.call p (some (.receiving c)) }

/-- Poll a process in the middle of a port call; a blocked one only comes back when it is ready. -/
def resume (s : Channels M) (p : Pid) : Option (Channels M) :=
  match s.call p with
  | none => none
  | some (.sent c) =>
      some { s with
        sender := Function.update s.sender c none
        call := Function.update s.call p none }
  | some (.received c pkt) =>
      some { s with
        receiver := Function.update s.receiver c none
        call := Function.update s.call p none
        returned := Function.update s.returned p (s.returned p ++ [pkt]) }
  | some (.sending c pkt) =>
      match (s.queue c).trySend pkt with
      | some q =>
          (s.kernel.step (.unlock p)).map fun kernel => { s with
            kernel
            unlockEvt := s.unlockEvt + 1
            queue := Function.update s.queue c q
            sender := Function.update s.sender c none
            call := Function.update s.call p none }
      | none => none
  | some (.receiving c) =>
      match (s.queue c).tryRecv with
      | some (pkt, q) =>
          (s.kernel.step (.unlock p)).map fun kernel => { s with
            kernel
            unlockEvt := s.unlockEvt + 1
            queue := Function.update s.queue c q
            receiver := Function.update s.receiver c none
            call := Function.update s.call p none
            returned := Function.update s.returned p (s.returned p ++ [pkt]) }
      | none => none

/-- The delta-cycle is over: clear both counters and go on to the orders. -/
def endCycle (s : Channels M) : Option (Channels M) :=
  (s.kernel.step .cycleEnded).map fun kernel => { s with
    kernel := { kernel with sys := { kernel.sys with
      api := { kernel.sys.api with unlockedPrc := 0 } } }
    unlockEvt := 0
    waitPoint := .deltaCycle }

/-- Wait for the unlocked processes to come to rest. -/
def waitResolved (s : Channels M) : Option (Channels M) :=
  if s.api.deltaCycleEnded then s.endCycle else some { s with waitPoint := .resolved }

/-- Wait for the unlocked processes to be rescheduled. -/
def waitUnlocked (s : Channels M) (unlockEvt : Nat) : Option (Channels M) :=
  if s.api.unlockedPrc < unlockEvt then some { s with waitPoint := .unlocked unlockEvt }
  else s.waitResolved

/-- Wait for the end of the delta-cycle, and then for what was unlocked in it. -/
def waitDeltaCycle (s : Channels M) : Option (Channels M) :=
  if s.api.deltaCycleEnded then
    if 0 < s.unlockEvt then s.waitUnlocked s.unlockEvt else s.endCycle
  else some { s with waitPoint := .deltaCycle }

def pollLoop (s : Channels M) : Option (Channels M) :=
  match s.waitPoint with
  | .deltaCycle => s.waitDeltaCycle
  | .unlocked unlockEvt => s.waitUnlocked unlockEvt
  | .resolved => s.waitResolved

/-- Take an action; `none` when it is not possible. -/
def step (s : Channels M) : ChanAct M → Option (Channels M)
  | .prc a =>
      if s.kernel.stage = .wait ∧ a.isPlain = true ∧ (a.actor.bind s.call).isNone = true then
        (s.kernel.step a).map fun kernel => { s with kernel }
      else none
  | .send p c pkt =>
      if s.kernel.stage = .wait ∧ s.Free p ∧ s.sender c = none then s.send p c pkt else none
  | .recv p c =>
      if s.kernel.stage = .wait ∧ s.Free p ∧ s.receiver c = none then s.recv p c else none
  | .resume p => if s.kernel.stage = .wait then s.resume p else none
  | .pollLoop => if s.kernel.stage = .wait then s.pollLoop else none
  | .loop a =>
      if a.isLoop = true then (s.kernel.step a).map fun kernel => { s with kernel } else none

/-- The process is blocked on a channel and the channel has what it waits for. -/
def canGoOn (s : Channels M) (p : Pid) : Bool :=
  match s.call p with
  | some (.sending c _) => (s.queue c).hasRoom
  | some (.receiving c) => (s.queue c).hasItem
  | _ => false

end Channels

end Ra2m
