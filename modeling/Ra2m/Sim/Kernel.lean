/-
Processes, their futures and the loop together (`scheduler.rs`, `event.rs`, `delay.rs`).

`System` takes any call at any time.  A `Kernel` adds who makes which call: the
scheduler goes through the stages of its loop, and a process that has pushed a
`WaitOn` or a `WaitUntil` is suspended on the future that pushed it until its waker
is called; then its next move is to poll that future again.  A process awaits one
future at a time.

What a process does up to the next call is one action, and so is what the loop does
for one task: the process a task wakes can run before the next task is popped, and
the places left out in between are no different from those before or after.  The
resolution of locks only holds the loop back at the end of the delta-cycle and is
left out here, so a process can come back from a lock at any stage.
-/
import Ra2m.Sim.Api
import Mathlib.Logic.Function.Basic

namespace Ra2m

/-- What a suspended process awaits. -/
inductive Future where
  | event (evt : Nat)
  | delay (wakeAt : Tick)
  deriving DecidableEq, Repr

/-- Where the loop of `simulate` is. -/
inductive Stage where
  /-- Wait for the end of the delta-cycle. -/
  | wait
  /-- Drain the order queue. -/
  | drain
  /-- The queue was found empty. -/
  | advance
  /-- The time has moved, the events of the last delta-cycle are still there. -/
  | clear
  /-- The wake loop. -/
  | wake
  deriving DecidableEq, Repr

structure Kernel where
  sys : System
  stage : Stage
  /-- The future a process is suspended on. -/
  future : Pid → Option Future

/-- A move of a process, or a step of the loop. -/
inductive Act where
  | spawn (p : Pid)
  | finish (p : Pid)
  /-- The first poll of `Event::wait`. -/
  | wait (p : Pid) (evt : Nat)
  /-- The first poll of a `Delay`. -/
  | delay (p : Pid) (wakeAt : Tick)
  | notify (t : Tick) (evt : Nat)
  | lock (p : Pid)
  | unlock (p : Pid)
  /-- Poll the future the process is suspended on. -/
  | poll (p : Pid)
  | cycleEnded
  | drain
  | drained
  /-- `simulate` returns, and is called again. -/
  | again
  | updateTick
  | clearEvents
  | serve (x : Task Pid)
  | endWake
  deriving DecidableEq

namespace Act

/-- The process whose move it is. -/
def actor : Act → Option Pid
  | spawn p => some p
  | finish p => some p
  | wait p _ => some p
  | delay p _ => some p
  | lock p => some p
  | unlock p => some p
  | poll p => some p
  | _ => none

/-- A move of a process, a notification included. -/
def isMove : Act → Bool
  | notify _ _ => true
  | a => a.actor.isSome

end Act

namespace Kernel

def init (now : Tick) : Kernel := ⟨System.init now, .wait, fun _ => none⟩

/-- The process runs and is not in the middle of a future. -/
def Free (k : Kernel) (p : Pid) : Prop := p ∈ k.sys.running ∧ k.future p = none

instance (k : Kernel) (p : Pid) : Decidable (k.Free p) :=
  inferInstanceAs (Decidable (p ∈ k.sys.running ∧ k.future p = none))

/-- Make a call of the API and leave the rest. -/
def call (k : Kernel) (c : Call) : Option Kernel :=
  (k.sys.step c).map fun sys => { k with sys }

/-- Push the order of a future that is not ready, and suspend the process on it. -/
def suspend (k : Kernel) (p : Pid) (f : Future) : Option Kernel :=
  let c := match f with
    | .event evt => Call.waitOn p evt
    | .delay wakeAt => Call.waitUntil p wakeAt
  (k.sys.step c).map fun sys => { k with sys, future := Function.update k.future p (some f) }

/-- Whether a poll of the future returns `Ready`, and the events after it. -/
def ready (k : Kernel) (p : Pid) : Future → Bool × EventKeeper
  | .event evt => k.sys.keeper.isTriggered evt p
  | .delay wakeAt => (decide (wakeAt ≤ k.sys.now), k.sys.keeper)

/-- The process goes on after a poll that returned `Ready`. -/
def resume (k : Kernel) (p : Pid) (keeper : EventKeeper) : Kernel :=
  { k with sys := { k.sys with keeper }, future := Function.update k.future p none }

/-- The first poll of a future. -/
def start (k : Kernel) (p : Pid) (f : Future) : Option Kernel :=
  if k.Free p then
    if (k.ready p f).1 then some (k.resume p (k.ready p f).2) else k.suspend p f
  else none

/-- Take an action; `none` when it is not possible. -/
def step (k : Kernel) : Act → Option Kernel
  | .spawn p => (k.call (.register p)).map fun k =>
    { k with future := Function.update k.future p none }
  | .finish p => if k.Free p then k.call (.unregister p) else none
  | .wait p evt => k.start p (.event evt)
  | .delay p wakeAt => k.start p (.delay wakeAt)
  | .notify t evt => k.call (.notifyAt t evt)
  | .lock p => if k.Free p then k.call (.lock p) else none
  | .unlock p => k.call (.unlock p)
  | .poll p =>
      if p ∈ k.sys.running then
        match k.future p with
        | some f => if (k.ready p f).1 then some (k.resume p (k.ready p f).2) else some k
        | none => none
      else none
  | .cycleEnded =>
      if k.stage = .wait ∧ k.sys.api.deltaCycleEnded then some { k with stage := .drain } else none
  | .drain => if k.stage = .drain then k.call .drain else none
  | .drained =>
      if k.stage = .drain ∧ k.sys.api.orderQ = [] then some { k with stage := .advance } else none
  | .again => if k.stage = .advance then some { k with stage := .wait } else none
  | .updateTick =>
      if k.stage = .advance then
        (k.call .updateTick).map fun k => { k with stage := .clear }
      else none
  | .clearEvents =>
      if k.stage = .clear then
        (k.call .clearEvents).map fun k => { k with stage := .wake }
      else none
  | .serve x => if k.stage = .wake then k.call (.serve x) else none
  | .endWake =>
      if k.stage = .wake then
        (k.call .endWake).map fun k => { k with stage := .wait }
      else none

/-- The wakers an action calls. -/
def wokenBy (k : Kernel) : Act → List Pid
  | .serve x => k.sys.sched.called x
  | _ => []

end Kernel

end Ra2m
