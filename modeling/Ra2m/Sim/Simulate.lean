/-
A call of `simulate`, with the processes it wakes (`scheduler.rs`).

`TurnStep` is one turn of the loop on the orders it drains.  A `World` has what the
turns of a call share with the processes: the counters and the order queue, the events
of the delta-cycle, and the state of the processes themselves.  `React` says what the
processes do when they are woken, up to where all of them wait again: from the tick,
the wakers called and what they can see, to what they leave.  `simulate` takes its next
turn in a world where no process is alive and the unlock events are resolved.

A call whose processes never come to rest does not return, and has no `Simulated`.
-/
import Ra2m.Sim.Globals

namespace Ra2m

open Scheduler

structure World (P : Type) where
  sim : Sim Pid
  api : SharedApi
  keeper : EventKeeper := {}
  prcs : P

/-- What the processes do when they are woken. -/
abbrev React (P : Type) :=
  Tick → List Pid → P → SharedApi → EventKeeper → P × SharedApi × EventKeeper

namespace SharedApi

/-- The delta-cycle has ended, and every process unlocked in it has come back. -/
def Resolved (self : SharedApi) : Prop :=
  self.deltaCycleEnded = true ∧ self.unlockEvt ≤ self.unlockedPrc

/-- The orders left behind the first `Exit`. -/
def afterExit (orders : List (Order Pid)) : List (Order Pid) :=
  orders.drop ((beforeExit orders).length + 1)

/-- Clear the unlock counters and drain the queue. -/
def drained (self : SharedApi) : SharedApi :=
  { self with unlockEvt := 0, unlockedPrc := 0, orderQ := afterExit self.orderQ }

end SharedApi

namespace World

variable {P : Type}

/-- The loop has taken a turn. -/
def turned (self : World P) (sim : Sim Pid) : World P := { self with sim, api := self.api.drained }

/-- The processes woken in a delta-cycle react. -/
def woke (self : World P) (react : React P) (c : Cycle Pid) : World P :=
  let api := { self.api with alivePrc := self.api.alivePrc + c.woken.length }
  let (prcs, api, keeper) := react c.tick c.woken self.prcs api ⟨c.triggered, []⟩
  { self with api, keeper, prcs }

end World

/-- A call of `simulate` that returns: its delta-cycles, and how it ends. -/
inductive Simulated {P : Type} (react : React P) (duration : Tick) :
    World P → List (Cycle Pid) → ExitKind → World P → Prop
  | stop {w : World P} {kind : ExitKind} {sim : Sim Pid} (hresolved : w.api.Resolved)
      (hturn : TurnStep duration w.sim w.api.orderQ w.api.forceEarlyExit (.stop kind) sim) :
      Simulated react duration w [] kind (w.turned sim)
  | turn {w w' : World P} {c : Cycle Pid} {sim : Sim Pid} {cs : List (Cycle Pid)} {kind : ExitKind}
      (hresolved : w.api.Resolved)
      (hturn : TurnStep duration w.sim w.api.orderQ w.api.forceEarlyExit (.enter c) sim)
      (hrest : Simulated react duration ((w.turned sim).woke react c) cs kind w') :
      Simulated react duration w (c :: cs) kind w'

end Ra2m
