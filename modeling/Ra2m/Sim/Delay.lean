/-
Waiting for simulated time (`delay.rs`).

A `Delay` keeps the tick it was made at and the tick it waits for.  A poll returns
`Ready` from that tick on; before, it pushes a `WaitUntil` order once and checks that
it is polled in the tick the delay was made at.  A process may poll a future more often
than its waker is called, as `select` and `join` do with the futures they hold.
-/
import Ra2m.Sim.Scheduler

namespace Ra2m

structure Delay where
  wakeAt : Tick
  forgedAt : Tick
  orderPushed : Bool := false
  deriving DecidableEq

inductive Poll where
  | ready
  | pending
  deriving DecidableEq

/-- What a poll returns, and the orders it pushes. -/
structure Polled (W : Type) where
  poll : Poll
  orders : List (Order W)
  deriving DecidableEq

namespace Delay

variable {W : Type}

/-- The delay made at tick `now`. -/
def waitFor (now delay : Tick) : Delay where
  wakeAt := now + delay
  forgedAt := now

/-- The delay made at tick `now`. -/
def waitUntil (now tick : Tick) : Delay where
  wakeAt := tick
  forgedAt := now

/-- A poll at tick `ltick`. -/
def poll (self : Delay) (ltick : Tick) (waker : W) : Exec (Polled W × Delay) :=
  if self.wakeAt ≤ ltick then .ok (⟨.ready, []⟩, self)
  else if ltick = self.forgedAt then
    if self.orderPushed then .ok (⟨.pending, []⟩, self)
    else .ok (⟨.pending, [.waitUntil self.wakeAt waker]⟩, { self with orderPushed := true })
  else .error ⟨s!"Delay not directly awaited: await@{ltick} forged@{self.forgedAt}"⟩

/-- The polls of a list, each with its tick and its waker, one after another. -/
def pollAll (self : Delay) : List (Tick × W) → Exec (List (Polled W))
  | [] => .ok []
  | (ltick, waker) :: rest => do
      let (polled, self) ← self.poll ltick waker
      let polleds ← self.pollAll rest
      .ok (polled :: polleds)

end Delay

end Ra2m
