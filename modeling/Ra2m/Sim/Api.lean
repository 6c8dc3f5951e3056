/-
The scheduler API and the loop, one call at a time (`scheduler.rs`).

`SchedulerAPI` holds the counters the processes and the scheduler share.  A
`System` puts them beside the state of the loop and takes one call after another:
a call of the API by a process, or a step of the loop.  A process is named by its
task id, which is also its waker.

Beside the counters the system keeps what they are meant to count: the processes
registered, those that run and those that are locked.  `running` holds a process
from the moment its waker is called; `alivePrc` learns of it only at the end of the
wake loop, when `wokenPrc` is added.

Any process may call at any time its part allows, also between two steps of the
loop.  The capacity of the order queue is left out: a push beyond it panics.
-/
import Ra2m.Sim.Scheduler
import Ra2m.Lib.Runs

namespace Ra2m

/-- A task id. -/
abbrev Pid := Nat

structure SchedulerAPI where
  /-- Available processes. -/
  hwPrc : Nat := 0
  /-- Alive processes. -/
  alivePrc : Int := 0
  /-- Processes locked during the delta-cycle. -/
  lockedPrc : Nat := 0
  /-- Processes unlocked during the delta-cycle. -/
  unlockedPrc : Nat := 0
  orderQ : List (Order Pid) := []

namespace SchedulerAPI

/-- Whether the process that pushes the order halts. -/
def haltPrc : Order Pid → Bool
  | .waitUntil _ _ => true
  | .notifyAt _ _ => false
  | .exit _ => false
  | _ => true

def pushOrder (self : SchedulerAPI) (order : Order Pid) : SchedulerAPI :=
  let self := { self with orderQ := self.orderQ ++ [order] }
  if haltPrc order then { self with alivePrc := self.alivePrc - 1 } else self

def registerNewPrc (self : SchedulerAPI) : SchedulerAPI :=
  { self with hwPrc := self.hwPrc + 1, alivePrc := self.alivePrc + 1 }

def unregisterPrc (self : SchedulerAPI) : SchedulerAPI :=
  { self with hwPrc := self.hwPrc - 1, alivePrc := self.alivePrc - 1 }

def lockPrc (self : SchedulerAPI) : SchedulerAPI :=
  { self with lockedPrc := self.lockedPrc + 1, alivePrc := self.alivePrc - 1 }

def unlockPrc (self : SchedulerAPI) : SchedulerAPI :=
  { self with
    alivePrc := self.alivePrc + 1
    lockedPrc := self.lockedPrc - 1
    unlockedPrc := self.unlockedPrc + 1 }

def deltaCycleEnded (self : SchedulerAPI) : Bool := 0 == self.alivePrc

@[simp] theorem pushOrder_orderQ (self : SchedulerAPI) (order : Order Pid) :
    (self.pushOrder order).orderQ = self.orderQ ++ [order] := by
  unfold pushOrder
  split
  · rfl
  · rfl

end SchedulerAPI

structure System where
  api : SchedulerAPI
  sched : Scheduler Pid
  keeper : EventKeeper
  now : Tick
  /-- The count of the wake loop, while it runs. -/
  wokenPrc : Option Nat
  registered : List Pid
  running : List Pid
  locked : List Pid

/-- A call of the API or a step of the loop. -/
inductive Call where
  | register (p : Pid)
  | unregister (p : Pid)
  | waitUntil (p : Pid) (t : Tick)
  | waitOn (p : Pid) (evt : Nat)
  | notifyAt (t : Tick) (evt : Nat)
  | lock (p : Pid)
  | unlock (p : Pid)
  /-- Take one order off the queue. -/
  | drain
  /-- Move the time to the next tick. -/
  | updateTick
  /-- Forget the events of the last delta-cycle; the wake loop starts. -/
  | clearEvents
  /-- Pop a task that is due and serve it. -/
  | serve (x : Task Pid)
  /-- Leave the wake loop and add up what it woke. -/
  | endWake
  deriving DecidableEq

namespace System

/-- A system before any process is registered. -/
def init (now : Tick) : System where
  api := {}
  sched := Scheduler.new
  keeper := {}
  now := now
  wokenPrc := none
  registered := []
  running := []
  locked := []

/-- The scheduler, the events and the wakers called when the task is popped and served. -/
def served (self : System) (x : Task Pid) : Scheduler.Batch Pid :=
  Scheduler.wakeTask
    ⟨{ self.sched with waitOnTick := self.sched.waitOnTick.erase x }, self.keeper, []⟩ x

/-- Take a call; `none` when it is not the caller's to make. -/
def step (self : System) : Call → Option System
  | .register p =>
      if p ∉ self.registered then
        some { self with
          api := self.api.registerNewPrc
          registered := p :: self.registered, running := p :: self.running }
      else none
  | .unregister p =>
      if p ∈ self.running then
        some { self with
          api := self.api.unregisterPrc
          registered := self.registered.erase p, running := self.running.erase p }
      else none
  | .waitUntil p t =>
      if p ∈ self.running then
        some { self with
          api := self.api.pushOrder (.waitUntil t p), running := self.running.erase p }
      else none
  | .waitOn p evt =>
      if p ∈ self.running then
        some { self with
          api := self.api.pushOrder (.waitOn evt p), running := self.running.erase p }
      else none
  | .notifyAt t evt => some { self with api := self.api.pushOrder (.notifyAt t evt) }
  | .lock p =>
      if p ∈ self.running then
        some { self with
          api := self.api.lockPrc
          running := self.running.erase p, locked := p :: self.locked }
      else none
  | .unlock p =>
      if p ∈ self.locked then
        some { self with
          api := self.api.unlockPrc
          locked := self.locked.erase p, running := p :: self.running }
      else none
  | .drain =>
      match self.api.orderQ with
      | [] => none
      | order :: rest =>
          some { self with
            api := { self.api with orderQ := rest }, sched := self.sched.recv self.now order }
  | .updateTick =>
      match MinHeap.peek Task.tick self.sched.waitOnTick with
      | some nextTick => some { self with now := nextTick }
      | none => none
  | .clearEvents =>
      if self.wokenPrc = none then
        some { self with keeper := self.keeper.clearTriggeredEvents, wokenPrc := some 0 }
      else none
  | .serve x =>
      match self.wokenPrc with
      | some n =>
          if x ∈ self.sched.waitOnTick ∧ x.tick ≤ self.now then
            let b := self.served x
            let woken := b.wakes.flatMap Prod.snd
            some { self with
              sched := b.sched, keeper := b.keeper
              wokenPrc := some (n + woken.length), running := woken ++ self.running }
          else none
      | none => none
  | .endWake =>
      match self.wokenPrc with
      | some n =>
          if ∀ x ∈ self.sched.waitOnTick, self.now < x.tick then
            some { self with
              api := { self.api with alivePrc := self.api.alivePrc + n }, wokenPrc := none }
          else none
      | none => none

/-! ### Where a process can be -/

/-- The process an order halts. -/
def haltedBy : Order Pid → Option Pid
  | .waitUntil _ p => some p
  | .waitOn _ p => some p
  | _ => none

/-- The processes with a blocking order in the queue. -/
def queued (self : System) : List Pid := self.api.orderQ.filterMap haltedBy

/-- The processes with a wakeup in the heap. -/
def sleeping (self : System) : List Pid := self.sched.waitOnTick.filterMap Task.waker?

/-- The processes waiting on an event. -/
def waiting (self : System) : List Pid := self.sched.waitOnEvent.entries.flatMap Prod.snd

/-! ### Where the scheduler's operations put a process -/

theorem pushOrder_queued (self : System) (order : Order Pid) :
    queued { self with api := self.api.pushOrder order } =
      self.queued ++ (haltedBy order).toList := by
  unfold queued
  rw [SchedulerAPI.pushOrder_orderQ, List.filterMap_append]
  rfl

/-- The waiters of an event, and those of the others. -/
theorem waiting_perm (self : System) (evt : Nat) :
    self.waiting.Perm (self.sched.waiters evt ++
      (self.sched.waitOnEvent.erase evt).entries.flatMap Prod.snd) := by
  unfold waiting Scheduler.waiters
  cases hfind : self.sched.waitOnEvent.find? evt with
  | none =>
      rw [SortedMap.erase_of_find?_none _ hfind]
      exact List.Perm.refl _
  | some ws => exact (self.sched.waitOnEvent.entries_perm_erase hfind).flatMap_right Prod.snd

/-- An order that is drained takes its process to the heap or to the event map. -/
theorem recv_perm (self : System) (cur : Tick) (order : Order Pid) :
    (sleeping { self with sched := self.sched.recv cur order } ++
        waiting { self with sched := self.sched.recv cur order }).Perm
      ((haltedBy order).toList ++ (self.sleeping ++ self.waiting)) := by
  cases order with
  | waitUntil t p =>
      show ((self.sched.waitOnTick ++ [Task.wakeup (max (cur + 1) t) p]).filterMap Task.waker? ++
        self.waiting).Perm (p :: (self.sleeping ++ self.waiting))
      rw [List.filterMap_append, List.append_assoc]
      exact List.perm_middle
  | notifyAt t evt =>
      show ((self.sched.waitOnTick ++ [Task.notify (max (cur + 1) t) evt]).filterMap Task.waker? ++
        self.waiting).Perm (self.sleeping ++ self.waiting)
      rw [List.filterMap_append]
      show ((self.sleeping ++ []) ++ self.waiting).Perm (self.sleeping ++ self.waiting)
      rw [List.append_nil]
  | exit kind => exact List.Perm.refl _
  | waitOn evt p =>
      rw [Scheduler.recv_waitOn]
      show (self.sleeping ++ (self.sched.waitOnEvent.insert evt
        (self.sched.waiters evt ++ [p])).entries.flatMap Prod.snd).Perm
          (p :: (self.sleeping ++ self.waiting))
      refine List.Perm.trans (List.Perm.append_left _ ?_) List.perm_middle
      refine ((self.sched.waitOnEvent.entries_insert_perm evt _).flatMap_right Prod.snd).trans ?_
      rw [List.flatMap_cons]
      have hold : (self.sched.waiters evt ++
          (self.sched.waitOnEvent.erase evt).entries.flatMap Prod.snd).Perm self.waiting :=
        (waiting_perm self evt).symm
      rw [List.append_assoc]
      exact List.perm_middle.trans (hold.cons p)

/-- Serving a task takes the processes it wakes from the heap or from the event map. -/
theorem served_perm (self : System) {x : Task Pid} (hx : x ∈ self.sched.waitOnTick) :
    (self.sleeping ++ self.waiting).Perm ((self.served x).wakes.flatMap Prod.snd ++
      (sleeping { self with sched := (self.served x).sched } ++
        waiting { self with sched := (self.served x).sched })) := by
  have hheap : self.sleeping.Perm
      (x.waker?.toList ++ (self.sched.waitOnTick.erase x).filterMap Task.waker?) := by
    have hp := (List.perm_cons_erase hx).filterMap Task.waker?
    rw [List.filterMap_cons] at hp
    cases hw : x.waker? with
    | none =>
        rw [hw] at hp
        exact hp
    | some w =>
        rw [hw] at hp
        exact hp
  cases x with
  | wakeup t p => exact (hheap.append_right self.waiting)
  | notify t evt =>
      unfold served
      rw [Scheduler.wakeTask_notify]
      show (self.sleeping ++ self.waiting).Perm ((self.sched.waiters evt ++ []) ++
        ((self.sched.waitOnTick.erase (.notify t evt)).filterMap Task.waker? ++
          (self.sched.waitOnEvent.erase evt).entries.flatMap Prod.snd))
      rw [List.append_nil]
      refine (hheap.append (waiting_perm self evt)).trans ?_
      exact (List.perm_append_comm_assoc _ _ _)

end System

end Ra2m
