/-
Where the orders come from, and when they are checked (`scheduler.rs`, `event.rs`, `delay.rs`).

A process forms an order from the tick it reads, and hands it to `push_order`, which
reads the tick again: a debug assertion compares the two, and another one does so when
the scheduler drains the queue.  The reads are steps of their own, and so is each step of
the `Kernel` in between.

Every process runs the code of some component, and a component has only a few places
that form an order.  `issues` lists them as the components' sources have them; when a
process gets to one of them, and with which packet or event, is left open.  An `Agent` is
a process outside the components that drives them.
-/
import Ra2m.Sim.Delay
import Ra2m.Sim.Kernel

namespace Ra2m

/-- A place in the code that forms an order. -/
inductive Site where
  /-- `Delay::wait_for`. -/
  | waitFor (delay : Tick)
  /-- `Delay::wait_until`. -/
  | waitUntil (tick : Tick)
  /-- `Packet::handle_delay`, also from `account_delay`. -/
  | handleDelay (timed : Bool) (readyAt : Tick)
  /-- `Event::wait`. -/
  | wait (evt : Nat)
  /-- `Event::triggered`. -/
  | triggered (evt : Nat) (tick : Option Tick)
  deriving DecidableEq

/-- The code a process runs. -/
inductive PrcCode where
  | xbarLookup
  | xbarForward
  | xbarBackward
  | npRamRegister
  | npRamResponse
  | dmaRequest
  | dmaForward
  | ndmaRequest
  | ndmaIngress
  | ndmaMem
  | ndmaEgress
  | dispatchPoll
  | dispatchUser
  | agent
  deriving DecidableEq

namespace PrcCode

/-- Moves packets through ports. -/
def onPort : Site → Bool
  | .handleDelay _ _ => true
  | _ => false

/-- Waits on events and moves packets through ports. -/
def onEvent : Site → Bool
  | .wait _ => true
  | site => onPort site

/-- Notifies at the current tick as well. -/
def notifies : Site → Bool
  | .triggered _ none => true
  | site => onEvent site

/-- The places where the code forms orders, at most. -/
def issues : PrcCode → Site → Bool
  | xbarLookup, .triggered _ tick => tick == some 10
  | xbarLookup, _ => false
  | xbarForward, site => onEvent site
  | xbarBackward, site => onEvent site
  | npRamRegister, site => onPort site
  | npRamResponse, site => onPort site
  | dmaRequest, site => onEvent site
  | dmaForward, site => onPort site
  | ndmaRequest, site => onEvent site
  | ndmaIngress, site => onEvent site
  | ndmaMem, site => notifies site
  | ndmaEgress, site => notifies site
  | dispatchPoll, site => notifies site
  | dispatchUser, site => notifies site
  | agent, .waitFor _ => true
  | agent, .waitUntil _ => true
  | agent, site => notifies site

end PrcCode

/-- How far a process is with an order. -/
inductive Forming where
  | none
  /-- In `handle_delay`, behind the comparison, yields once. -/
  | yielding (readyAt : Tick)
  /-- The `Delay` is made and not polled yet. -/
  | delaying (d : Delay)
  /-- On its way into `push_order`. -/
  | pushing (order : Order Pid)
  deriving DecidableEq

/-- The tick an order names. -/
def Order.tick? {W : Type} : Order W → Option Tick
  | .waitUntil t _ => some t
  | .notifyAt t _ => some t
  | _ => none

/-- The debug assertions: the order does not lie before the tick `curTick`. -/
def Order.inTime {W : Type} (curTick : Tick) (order : Order W) : Bool :=
  order.tick?.all fun t => decide (curTick ≤ t)

structure OrderFlow where
  kernel : Kernel
  forming : Pid → Forming
  /-- A debug assertion has failed. -/
  failed : Bool

namespace OrderFlow

inductive Act where
  | enter (p : Pid) (site : Site)
  | yielded (p : Pid)
  | pollDelay (p : Pid)
  | push (p : Pid)
  /-- Any other step of a process or of the loop. -/
  | other (a : Ra2m.Act)
  deriving DecidableEq

def init (startTick : Tick) : OrderFlow := ⟨Kernel.init startTick, fun _ => .none, false⟩

def now (s : OrderFlow) : Tick := s.kernel.sys.now

def put (s : OrderFlow) (p : Pid) (x : Forming) : OrderFlow :=
  { s with forming := Function.update s.forming p x }

/-- Run into a place that forms an order. -/
def enter (s : OrderFlow) (p : Pid) : Site → OrderFlow
  | .waitFor delay => s.put p (.delaying (.waitFor s.now delay))
  | .waitUntil tick => s.put p (.delaying (.waitUntil s.now tick))
  | .handleDelay timed readyAt =>
      if timed && decide (s.now < readyAt) then s.put p (.yielding readyAt) else s
  | .wait evt =>
      if (s.kernel.ready p (.event evt)).1 then
        { s with kernel := s.kernel.resume p (s.kernel.ready p (.event evt)).2 }
      else s.put p (.pushing (.waitOn evt p))
  | .triggered evt tick => s.put p (.pushing (.notifyAt (tick.getD s.now) evt))

/-- What the kernel does with an order that passes the assertion. -/
def send (k : Kernel) : Order Pid → Option Kernel
  | .waitUntil t p => k.suspend p (.delay t)
  | .waitOn evt p => k.suspend p (.event evt)
  | .notifyAt t evt => k.call (.notifyAt t evt)
  | .exit _ => none

/-- The kernel steps taken as they are; those that form an order go through `enter`. -/
def plain : Ra2m.Act → Bool
  | .wait _ _ => false
  | .delay _ _ => false
  | .notify _ _ => false
  | _ => true

/-- Nobody is in the middle of an order whose move it is. -/
def idle (s : OrderFlow) (a : Ra2m.Act) : Bool :=
  a.actor.all fun p => decide (s.forming p = .none)

/-- The head of the queue passes the assertion of the drain. -/
def headInTime (s : OrderFlow) : Bool :=
  s.kernel.sys.api.orderQ.head?.all (Order.inTime s.now)

/-- Take an action; `none` when it is not possible, or when the program has stopped. -/
def step (code : Pid → PrcCode) (s : OrderFlow) (a : Act) : Option OrderFlow :=
  if s.failed then none
  else
    match a with
    | .enter p site =>
        if s.kernel.Free p ∧ s.forming p = .none ∧ (code p).issues site then some (s.enter p site)
        else none
    | .yielded p =>
        match s.forming p with
        | .yielding readyAt => some (s.put p (.delaying (.waitUntil s.now readyAt)))
        | _ => none
    | .pollDelay p =>
        match s.forming p with
        | .delaying d =>
            match d.poll s.now p with
            | .ok (⟨.pending, order :: _⟩, _) => some (s.put p (.pushing order))
            | .ok _ => some (s.put p .none)
            | .error _ => none
        | _ => none
    | .push p =>
        match s.forming p with
        | .pushing order =>
            if order.inTime s.now then
              (send s.kernel order).map fun kernel => { s.put p .none with kernel }
            else some { s with failed := true }
        | _ => none
    | .other a =>
        if plain a ∧ s.idle a then
          if a = .drain ∧ s.headInTime = false then some { s with failed := true }
          else (s.kernel.step a).map fun kernel => { s with kernel }
        else none

end OrderFlow

end Ra2m
