/-
The global state of the simulation (`time.rs`, `event.rs`, `scheduler.rs`, `lib.rs`).

The time, the events and the counters of the scheduler are three values of the
process, each created when it is first used and kept from then on.
`initSimulation` sets them up for a simulation: it resets the time and some of the
counters, and leaves the rest as it finds it.

What an earlier simulation did is a run of `GlobalAct`s: the calls its processes and
its loop made, in any order they can make them in.
-/
import Ra2m.Sim.Api

namespace Ra2m

inductive TimingMode where
  | lt
  | at
  deriving DecidableEq, Repr

structure TimeKeeper where
  tick : Tick := 0
  /-- Femtoseconds. -/
  timescale : Nat := 1
  timingMode : TimingMode := .lt
  deriving DecidableEq, Repr

/-- The events of the delta-cycle, and the uids given to event names. -/
structure EventStore extends EventKeeper where
  nxtEventUid : Nat := 0
  nameUid : List (String × Nat) := []

/-- The whole of `SchedulerAPI`: its counters, the capacity of its queue, the waker of the loop, and
the shutdown request of the user. -/
structure SharedApi extends SchedulerAPI where
  unlockEvt : Nat := 0
  capacity : Nat
  waker : Option Nat := none
  forceEarlyExit : Bool := false

structure Globals where
  timeKeeper : Option TimeKeeper := none
  eventKeeper : Option EventStore := none
  schedulerApi : Option SharedApi := none

/-- The arguments of `init_simulation`. -/
structure InitArgs where
  startTick : Tick
  timescale : Nat
  timingMode : TimingMode
  maxHwProcess : Nat
  deriving DecidableEq

namespace TimeKeeper

def reset (_self : Option TimeKeeper) (tick : Tick) (timescale : Nat) (timingMode : TimingMode) :
    TimeKeeper := ⟨tick, timescale, timingMode⟩

end TimeKeeper

namespace SharedApi

/-- `ArrayQueue::new` takes no capacity of zero. -/
def new (maxHwProcess : Nat) : Exec SharedApi :=
  if maxHwProcess = 0 then .error ⟨"capacity must be non-zero"⟩
  else .ok { capacity := maxHwProcess }

def reset (self : Option SharedApi) (maxHwProcess : Nat) : Exec SharedApi := do
  let api ← match self with
    | some api => .ok api
    | none => new maxHwProcess
  let api := { api with alivePrc := 0, orderQ := [] }
  if maxHwProcess ≤ api.capacity then .ok { api with waker := none }
  else .error ⟨"assertion failed: capacity >= max_hw_process"⟩

end SharedApi

namespace EventStore

/-- The uid of a name, a new one if it has none. -/
def eventUid (self : EventStore) (name : String) : Nat × EventStore :=
  match self.nameUid.find? fun e => e.1 = name with
  | some (_, uid) => (uid, self)
  | none =>
      (self.nxtEventUid, { self with
        nxtEventUid := self.nxtEventUid + 1
        nameUid := self.nameUid ++ [(name, self.nxtEventUid)] })

end EventStore

/-- Set the global state up for a simulation. -/
def initSimulation (args : InitArgs) (g : Globals) : Exec (Scheduler Pid × Globals) := do
  let timeKeeper :=
    TimeKeeper.reset g.timeKeeper args.startTick args.timescale args.timingMode
  let api ← SharedApi.reset g.schedulerApi args.maxHwProcess
  .ok (Scheduler.new, { g with timeKeeper := some timeKeeper, schedulerApi := some api })

inductive GlobalAct where
  | init (args : InitArgs)
  | registerNewPrc
  | unregisterPrc
  | lockPrc
  | unlockPrc
  | unlockEvt
  | pushOrder (order : Order Pid)
  | popOrder
  | registerWaker (waker : Nat)
  | takeWaker
  | clearUnlockEvt
  | clearUnlockedPrc
  /-- Add the processes the wake loop woke to those alive. -/
  | addAlive (wokenPrc : Nat)
  /-- The user asks for an early exit. -/
  | forceEarlyExit
  | updateTick (tick : Tick)
  | eventUid (name : String)
  | clearTriggeredEvents
  | triggerEvent (uid : Nat)
  | isTriggered (uid taskId : Nat)
  deriving DecidableEq

namespace Globals

/-- Do something to the counters, once they are there. -/
def onApi (g : Globals) (f : SharedApi → Option SharedApi) : Option Globals :=
  match g.schedulerApi with
  | some api => (f api).map fun api => { g with schedulerApi := some api }
  | none => none

/-- Do something to the events of the delta-cycle. -/
def onEvents (g : Globals) (f : EventKeeper → EventKeeper) : Globals :=
  { g with
    eventKeeper := g.eventKeeper.map fun store =>
      { store with toEventKeeper := f store.toEventKeeper } }

/-- Make a call; `none` when it cannot be made, or panics. -/
def step (g : Globals) : GlobalAct → Option Globals
  | .init args =>
      match initSimulation args g with
      | .ok (_, g) => some g
      | .error _ => none
  | .registerNewPrc =>
      g.onApi fun api => some { api with toSchedulerAPI := api.toSchedulerAPI.registerNewPrc }
  | .unregisterPrc => g.onApi fun api =>
      if 0 < api.hwPrc then some { api with toSchedulerAPI := api.toSchedulerAPI.unregisterPrc }
      else none
  | .lockPrc => g.onApi fun api => some { api with toSchedulerAPI := api.toSchedulerAPI.lockPrc }
  | .unlockPrc => g.onApi fun api =>
      if 0 < api.lockedPrc then some { api with toSchedulerAPI := api.toSchedulerAPI.unlockPrc }
      else none
  | .unlockEvt => g.onApi fun api => some { api with unlockEvt := api.unlockEvt + 1 }
  | .pushOrder order => g.onApi fun api =>
      if api.orderQ.length < api.capacity then
        some { api with toSchedulerAPI := api.toSchedulerAPI.pushOrder order }
      else none
  | .popOrder => g.onApi fun api => some { api with orderQ := api.orderQ.tail }
  | .registerWaker waker => g.onApi fun api => some { api with waker := some waker }
  | .takeWaker => g.onApi fun api => some { api with waker := none }
  | .clearUnlockEvt => g.onApi fun api => some { api with unlockEvt := 0 }
  | .clearUnlockedPrc => g.onApi fun api => some { api with unlockedPrc := 0 }
  | .addAlive wokenPrc => g.onApi fun api => some { api with alivePrc := api.alivePrc + wokenPrc }
  | .forceEarlyExit => g.onApi fun api => some { api with forceEarlyExit := true }
  | .updateTick tick =>
      match g.timeKeeper with
      | some timeKeeper => some { g with timeKeeper := some { timeKeeper with tick } }
      | none => none
  | .eventUid name =>
      some { g with eventKeeper := some ((g.eventKeeper.getD {}).eventUid name).2 }
  | .clearTriggeredEvents => some (g.onEvents EventKeeper.clearTriggeredEvents)
  | .triggerEvent uid =>
      match g.eventKeeper with
      | some _ => some (g.onEvents fun keeper => keeper.triggerEvent uid)
      | none => none
  | .isTriggered uid taskId => some (g.onEvents fun keeper => (keeper.isTriggered uid taskId).2)

/-- What the processes and the loop of a simulation see; the capacity of the queue is what the
`expect` of `push_order` goes by. -/
structure Observed where
  timeKeeper : Option TimeKeeper
  hwPrc : Nat
  alivePrc : Int
  lockedPrc : Nat
  unlockedPrc : Nat
  unlockEvt : Nat
  orderQ : List (Order Pid)
  capacity : Nat
  waker : Option Nat
  forceEarlyExit : Bool
  triggeredEvents : List Nat
  wokenProcess : List Nat

/-- The events of the delta-cycle; none before there is a store. -/
def keeper (g : Globals) : EventKeeper := (g.eventKeeper.map EventStore.toEventKeeper).getD {}

def observe (g : Globals) : Option Observed :=
  g.schedulerApi.map fun api =>
    { timeKeeper := g.timeKeeper, hwPrc := api.hwPrc, alivePrc := api.alivePrc
      lockedPrc := api.lockedPrc, unlockedPrc := api.unlockedPrc, unlockEvt := api.unlockEvt
      orderQ := api.orderQ, capacity := api.capacity, waker := api.waker
      forceEarlyExit := api.forceEarlyExit
      triggeredEvents := g.keeper.triggeredEvents, wokenProcess := g.keeper.wokenProcess }

end Globals

end Ra2m
