/-
The scheduler loop (`scheduler.rs`).

A delta-cycle ends when no process is alive.  The scheduler then drains the orders
the processes left in the queue, looks at the least tick in its heap, moves the time
there, and pops and serves every task of that tick: a `Wakeup` wakes its process, a
`Notify` fires its event and wakes the processes waiting on it.  Nothing the
processes do in between reaches the heap or the event map except through the queue,
so a run of `simulate` is a sequence of turns, each with the orders it drains.

A waker is a value of `W`.  The heap orders its tasks by tick only; which of several
tasks of one tick it pops first is left open by `PopUpTo`.
-/
import Ra2m.Lib.SortedMap
import Ra2m.Lib.MinHeap
import Ra2m.Sim.Addr
import Ra2m.Sim.Event

namespace Ra2m

inductive ExitKind where
  | noHwPrc
  | endOfTick
  | prcExit
  deriving DecidableEq, Repr

/-- An order sent by a process to the scheduler. -/
inductive Order (W : Type) where
  | waitUntil (t : Tick) (w : W)
  | waitOn (evt : Nat) (w : W)
  | notifyAt (t : Tick) (evt : Nat)
  | exit (kind : ExitKind)
  deriving DecidableEq, Repr

/-- A task to be served at a given tick. -/
inductive Task (W : Type) where
  | wakeup (t : Tick) (w : W)
  | notify (t : Tick) (evt : Nat)
  deriving DecidableEq, Repr

namespace Task

variable {W : Type}

def tick : Task W → Tick
  | wakeup t _ => t
  | notify t _ => t

/-- The process a task wakes by itself. -/
def waker? : Task W → Option W
  | wakeup _ w => some w
  | notify _ _ => none

/-- The event a task fires. -/
def event? : Task W → Option Nat
  | wakeup _ _ => none
  | notify _ evt => some evt

end Task

structure Scheduler (W : Type) where
  waitOnTick : List (Task W)
  waitOnEvent : SortedMap Nat (List W)

namespace Scheduler

variable {W : Type}

def new : Scheduler W := ⟨[], SortedMap.empty⟩

/-- The wakers registered for an event. -/
def waiters (self : Scheduler W) (evt : Nat) : List W := (self.waitOnEvent.find? evt).getD []

/-- The task an order drained at tick `cur` becomes: never one of the current tick. -/
def taskOf (cur : Tick) : Order W → Option (Task W)
  | .waitUntil t w => some (.wakeup (max (cur + 1) t) w)
  | .notifyAt t evt => some (.notify (max (cur + 1) t) evt)
  | .waitOn _ _ => none
  | .exit _ => none

/-- Put an order drained at tick `cur` where it belongs. -/
def recv (cur : Tick) (self : Scheduler W) : Order W → Scheduler W
  | .waitUntil t w =>
      { self with waitOnTick := self.waitOnTick ++ [.wakeup (max (cur + 1) t) w] }
  | .notifyAt t evt =>
      { self with waitOnTick := self.waitOnTick ++ [.notify (max (cur + 1) t) evt] }
  | .waitOn evt w =>
      match self.waitOnEvent.find? evt with
      | some wakerVec =>
          { self with waitOnEvent := self.waitOnEvent.insert evt (wakerVec ++ [w]) }
      | none => { self with waitOnEvent := self.waitOnEvent.insert evt [w] }
  | .exit _ => self

/-- Drain the order queue, up to the first `Exit`. -/
def drain (cur : Tick) (self : Scheduler W) : List (Order W) → Scheduler W × Option ExitKind
  | [] => (self, none)
  | .exit kind :: _ => (self, some kind)
  | order :: rest => drain cur (self.recv cur order) rest

/-- The orders `drain` takes off the queue. -/
def beforeExit (orders : List (Order W)) : List (Order W) :=
  orders.takeWhile fun order => match order with
    | .exit _ => false
    | _ => true

/-- What the wake loop works on: the scheduler, the fired events, and the tasks served so far, each
with the wakers it called. -/
structure Batch (W : Type) where
  sched : Scheduler W
  keeper : EventKeeper := {}
  wakes : List (Task W × List W) := []

/-- Serve one task. -/
def wakeTask (b : Batch W) (task : Task W) : Batch W :=
  match task with
  | .wakeup _ w => { b with wakes := b.wakes ++ [(task, [w])] }
  | .notify _ evt =>
      let keeper := b.keeper.triggerEvent evt
      match b.sched.waitOnEvent.find? evt with
      | some wakerVec =>
          { sched := { b.sched with waitOnEvent := b.sched.waitOnEvent.erase evt },
            keeper, wakes := b.wakes ++ [(task, wakerVec)] }
      | none => { b with keeper, wakes := b.wakes ++ [(task, [])] }

end Scheduler

/-! ### Runs -/

/-- A delta-cycle that was entered: its tick, the tasks served with the wakers each called, and the
events that fired. -/
structure Cycle (W : Type) where
  tick : Tick
  wakes : List (Task W × List W)
  triggered : List Nat

namespace Cycle

variable {W : Type}

def popped (c : Cycle W) : List (Task W) := c.wakes.map Prod.fst

def woken (c : Cycle W) : List W := c.wakes.flatMap Prod.snd

end Cycle

inductive Outcome (W : Type) where
  | enter (cycle : Cycle W)
  | stop (kind : ExitKind)

/-- The state of the loop between delta-cycles. -/
structure Sim (W : Type) where
  now : Tick
  sched : Scheduler W

open Scheduler

/-- One turn of the loop on the orders in the queue. -/
inductive TurnStep {W : Type} (duration : Tick) (sim : Sim W) (orders : List (Order W))
    (earlyExit : Bool) : Outcome W → Sim W → Prop
  | exit {s : Scheduler W} {kind : ExitKind}
      (hdrain : sim.sched.drain sim.now orders = (s, some kind)) :
      TurnStep duration sim orders earlyExit (.stop kind) ⟨sim.now, s⟩
  | noHwPrc {s : Scheduler W} (hdrain : sim.sched.drain sim.now orders = (s, none))
      (hpeek : MinHeap.peek Task.tick s.waitOnTick = none) :
      TurnStep duration sim orders earlyExit (.stop .noHwPrc) ⟨sim.now, s⟩
  | endOfTick {s : Scheduler W} {nextTick : Tick}
      (hdrain : sim.sched.drain sim.now orders = (s, none))
      (hpeek : MinHeap.peek Task.tick s.waitOnTick = some nextTick) (hend : duration < nextTick) :
      TurnStep duration sim orders earlyExit (.stop .endOfTick) ⟨sim.now, s⟩
  | earlyExit {s : Scheduler W} {nextTick : Tick}
      (hdrain : sim.sched.drain sim.now orders = (s, none))
      (hpeek : MinHeap.peek Task.tick s.waitOnTick = some nextTick) (hin : nextTick ≤ duration)
      (hearly : earlyExit = true) :
      TurnStep duration sim orders earlyExit (.stop .endOfTick) ⟨sim.now, s⟩
  | enter {s : Scheduler W} {nextTick : Tick} {popped rest : List (Task W)} {b : Batch W}
      (hdrain : sim.sched.drain sim.now orders = (s, none))
      (hpeek : MinHeap.peek Task.tick s.waitOnTick = some nextTick) (hin : nextTick ≤ duration)
      (hearly : earlyExit = false)
      (hpop : MinHeap.PopUpTo Task.tick nextTick s.waitOnTick popped rest)
      (hwake : popped.foldl wakeTask { sched := { s with waitOnTick := rest } } = b) :
      TurnStep duration sim orders earlyExit
        (.enter ⟨nextTick, b.wakes, b.keeper.triggeredEvents⟩) ⟨nextTick, b.sched⟩

/-- A turn that was made: the tick and the orders it drained, and its outcome. -/
structure Turn (W : Type) where
  now : Tick
  orders : List (Order W)
  earlyExit : Bool := false
  outcome : Outcome W

/-- A run of `simulate`, or the beginning of one. -/
inductive Simulate {W : Type} (duration : Tick) : Sim W → List (Turn W) → Sim W → Prop
  | start (sim : Sim W) : Simulate duration sim [] sim
  | stop {sim sim' : Sim W} {orders : List (Order W)} {earlyExit : Bool} {kind : ExitKind}
      (hturn : TurnStep duration sim orders earlyExit (.stop kind) sim') :
      Simulate duration sim [⟨sim.now, orders, earlyExit, .stop kind⟩] sim'
  | turn {sim sim₁ sim' : Sim W} {orders : List (Order W)} {earlyExit : Bool} {c : Cycle W}
      {turns : List (Turn W)}
      (hturn : TurnStep duration sim orders earlyExit (.enter c) sim₁)
      (hrest : Simulate duration sim₁ turns sim') :
      Simulate duration sim (⟨sim.now, orders, earlyExit, .enter c⟩ :: turns) sim'

/-- The states a `simulate` call can start from: a new scheduler, or what an earlier call left. -/
inductive Started {W : Type} : Sim W → Prop
  | new (now : Tick) : Started ⟨now, Scheduler.new⟩
  | again {duration : Tick} {sim sim' : Sim W} {turns : List (Turn W)} (h : Started sim)
      (hrun : Simulate duration sim turns sim') : Started sim'

/-- The delta-cycles of a run. -/
def cycles {W : Type} (turns : List (Turn W)) : List (Cycle W) :=
  turns.filterMap fun t => match t.outcome with
    | .enter c => some c
    | .stop _ => none

/-- The tasks the orders of a run become. -/
def scheduled {W : Type} (turns : List (Turn W)) : List (Task W) :=
  turns.flatMap fun t => (beforeExit t.orders).filterMap (taskOf t.now)

namespace Scheduler

variable {W : Type}

/-! ### What draining does -/

/-- The process an order makes wait on an event. -/
def waiterOf (evt : Nat) : Order W → Option W
  | .waitOn evt' w => if evt' = evt then some w else none
  | _ => none

theorem recv_waitOn (cur : Tick) (self : Scheduler W) (evt : Nat) (w : W) :
    self.recv cur (.waitOn evt w) =
      { self with waitOnEvent := self.waitOnEvent.insert evt (self.waiters evt ++ [w]) } := by
  unfold waiters
  show (match self.waitOnEvent.find? evt with
    | some wakerVec =>
        { self with waitOnEvent := self.waitOnEvent.insert evt (wakerVec ++ [w]) }
    | none => { self with waitOnEvent := self.waitOnEvent.insert evt [w] }) = _
  cases self.waitOnEvent.find? evt with
  | none => rfl
  | some ws => rfl

theorem recv_waitOnTick (cur : Tick) (self : Scheduler W) (order : Order W) :
    (self.recv cur order).waitOnTick = self.waitOnTick ++ (taskOf cur order).toList := by
  cases order with
  | waitUntil t w => rfl
  | notifyAt t evt => rfl
  | exit kind => exact (List.append_nil _).symm
  | waitOn evt w =>
      rw [recv_waitOn]
      exact (List.append_nil _).symm

theorem recv_waiters (cur : Tick) (self : Scheduler W) (order : Order W) (evt : Nat) :
    (self.recv cur order).waiters evt = self.waiters evt ++ (waiterOf evt order).toList := by
  cases order with
  | waitUntil t w => exact (List.append_nil _).symm
  | notifyAt t e => exact (List.append_nil _).symm
  | exit kind => exact (List.append_nil _).symm
  | waitOn e w =>
      rw [recv_waitOn, waiterOf]
      show (SortedMap.find? _ evt).getD [] = _
      rw [SortedMap.find?_insert]
      by_cases he : e = evt
      · rw [if_pos he, if_pos he, he]
        rfl
      · rw [if_neg he, if_neg he]
        exact (List.append_nil _).symm

/-- Draining puts the orders before the first `Exit` where they belong, one after another. -/
theorem drain_fst (cur : Tick) (self : Scheduler W) (orders : List (Order W)) :
    (self.drain cur orders).1 = (beforeExit orders).foldl (recv cur) self := by
  induction orders generalizing self with
  | nil => rfl
  | cons order rest ih =>
      cases order with
      | exit kind => rfl
      | waitUntil t w => exact ih _
      | notifyAt t evt => exact ih _
      | waitOn evt w => exact ih _

/-- Draining ends early exactly when there is an `Exit`. -/
theorem drain_snd_eq_none_iff (cur : Tick) (self : Scheduler W) (orders : List (Order W)) :
    (self.drain cur orders).2 = none ↔ ∀ kind, .exit kind ∉ orders := by
  induction orders generalizing self with
  | nil => simp [drain]
  | cons order rest ih =>
      cases order with
      | exit kind =>
          refine iff_of_false (fun h => by cases h) fun h => h kind List.mem_cons_self
      | waitUntil t w => simp [drain, ih]
      | notifyAt t evt => simp [drain, ih]
      | waitOn evt w => simp [drain, ih]

private theorem toList_append_filterMap {α β : Type} (f : α → Option β) (a : α) (l : List α) :
    (f a).toList ++ l.filterMap f = (a :: l).filterMap f := by
  rw [List.filterMap_cons]
  cases f a with
  | none => rfl
  | some b => rfl

theorem foldl_recv (cur : Tick) (self : Scheduler W) (orders : List (Order W)) (evt : Nat) :
    (orders.foldl (recv cur) self).waitOnTick =
        self.waitOnTick ++ orders.filterMap (taskOf cur) ∧
      (orders.foldl (recv cur) self).waiters evt =
        self.waiters evt ++ orders.filterMap (waiterOf evt) := by
  induction orders generalizing self with
  | nil => exact ⟨(List.append_nil _).symm, (List.append_nil _).symm⟩
  | cons order rest ih =>
      obtain ⟨hheap, hwait⟩ := ih (self.recv cur order)
      refine ⟨?_, ?_⟩
      · rw [List.foldl_cons, hheap, recv_waitOnTick, List.append_assoc, toList_append_filterMap]
      · rw [List.foldl_cons, hwait, recv_waiters, List.append_assoc, toList_append_filterMap]

/-- Draining appends the tasks of its orders to the heap. -/
theorem drain_waitOnTick (cur : Tick) (self : Scheduler W) (orders : List (Order W)) :
    (self.drain cur orders).1.waitOnTick =
      self.waitOnTick ++ (beforeExit orders).filterMap (taskOf cur) := by
  rw [drain_fst]
  exact (foldl_recv cur self (beforeExit orders) 0).1

/-- Draining appends the waiters of its orders to those of each event. -/
theorem drain_waiters (cur : Tick) (self : Scheduler W) (orders : List (Order W)) (evt : Nat) :
    (self.drain cur orders).1.waiters evt =
      self.waiters evt ++ (beforeExit orders).filterMap (waiterOf evt) := by
  rw [drain_fst]
  exact (foldl_recv cur self (beforeExit orders) evt).2

theorem taskOf_tick {cur : Tick} {order : Order W} {x : Task W} (h : taskOf cur order = some x) :
    cur < x.tick := by
  cases order with
  | waitUntil t w | notifyAt t evt =>
      obtain rfl := Option.some.inj h
      exact Nat.lt_of_lt_of_le (Nat.lt_succ_self cur) (le_max_left _ _)
  | waitOn evt w => cases h
  | exit kind => cases h

/-! ### What the wake loop does -/

/-- The wakers a task calls in a scheduler: its own, or those of its event. -/
def called (self : Scheduler W) : Task W → List W
  | .wakeup _ w => [w]
  | .notify _ evt => self.waiters evt

theorem wakeTask_notify (b : Batch W) (t : Tick) (evt : Nat) :
    wakeTask b (.notify t evt) =
      { sched := { b.sched with waitOnEvent := b.sched.waitOnEvent.erase evt },
        keeper := b.keeper.triggerEvent evt,
        wakes := b.wakes ++ [(.notify t evt, b.sched.waiters evt)] } := by
  unfold wakeTask waiters
  simp only
  cases hfind : b.sched.waitOnEvent.find? evt with
  | none =>
      rw [SortedMap.erase_of_find?_none _ hfind]
      rfl
  | some ws => rfl

/-- Serving a task records it with the wakers it calls. -/
theorem wakeTask_wakes (b : Batch W) (x : Task W) :
    (wakeTask b x).wakes = b.wakes ++ [(x, b.sched.called x)] := by
  cases x with
  | wakeup t w => rfl
  | notify t evt =>
      rw [wakeTask_notify]
      rfl

theorem wakeTask_waitOnTick (b : Batch W) (x : Task W) :
    (wakeTask b x).sched.waitOnTick = b.sched.waitOnTick := by
  cases x with
  | wakeup t w => rfl
  | notify t evt => rw [wakeTask_notify]

theorem wakeTask_triggered (b : Batch W) (x : Task W) :
    (wakeTask b x).keeper.triggeredEvents =
      b.keeper.triggeredEvents ++ x.event?.toList := by
  cases x with
  | wakeup t w => exact (List.append_nil _).symm
  | notify t evt =>
      rw [wakeTask_notify]
      rfl

/-- A fired event has no waiters left. -/
theorem wakeTask_waiters (b : Batch W) (x : Task W) (evt : Nat) :
    (wakeTask b x).sched.waiters evt =
      if x.event? = some evt then [] else b.sched.waiters evt := by
  cases x with
  | wakeup t w => rfl
  | notify t e =>
      rw [wakeTask_notify]
      show ((b.sched.waitOnEvent.erase e).find? evt).getD [] =
        if some e = some evt then [] else b.sched.waiters evt
      rw [SortedMap.find?_erase]
      by_cases he : e = evt
      · rw [if_pos he, if_pos (congrArg some he)]
        rfl
      · rw [if_neg he, if_neg fun h => he (Option.some.inj h)]
        rfl

/-- What the wake loop leaves after the tasks `xs`. -/
theorem foldl_wakeTask (b : Batch W) (xs : List (Task W)) :
    (xs.foldl wakeTask b).sched.waitOnTick = b.sched.waitOnTick ∧
      (xs.foldl wakeTask b).keeper.triggeredEvents =
        b.keeper.triggeredEvents ++ xs.filterMap Task.event? ∧
      ∃ ys : List (Task W × List W), (xs.foldl wakeTask b).wakes = b.wakes ++ ys ∧
        ys.map Prod.fst = xs ∧ ∀ y ∈ ys, ∀ w, y.1.waker? = some w → y.2 = [w] := by
  induction xs generalizing b with
  | nil => exact ⟨rfl, (List.append_nil _).symm, [], (List.append_nil _).symm, rfl, by simp⟩
  | cons x xs ih =>
      obtain ⟨hheap, htrig, ys, hwakes, hfst, hown⟩ := ih (wakeTask b x)
      refine ⟨?_, ?_, (x, b.sched.called x) :: ys, ?_, ?_, ?_⟩
      · rw [List.foldl_cons, hheap, wakeTask_waitOnTick]
      · rw [List.foldl_cons, htrig, wakeTask_triggered, List.append_assoc, List.filterMap_cons]
        cases x.event? with
        | none => rfl
        | some e => rfl
      · rw [List.foldl_cons, hwakes, wakeTask_wakes, List.append_assoc]
        rfl
      · rw [List.map_cons, hfst]
      · intro y hy w hw
        rcases List.mem_cons.1 hy with rfl | hy
        · cases x with
          | wakeup t w' =>
              obtain rfl := Option.some.inj hw
              rfl
          | notify t e => cases hw
        · exact hown y hy w hw

/-- After the tasks `xs` exactly the fired events have lost their waiters. -/
theorem foldl_waiters (b : Batch W) (xs : List (Task W)) (evt : Nat) :
    (xs.foldl wakeTask b).sched.waiters evt =
      if evt ∈ xs.filterMap Task.event? then [] else b.sched.waiters evt := by
  induction xs generalizing b with
  | nil => rfl
  | cons x xs ih =>
      rw [List.foldl_cons, ih, wakeTask_waiters, List.filterMap_cons]
      cases x.event? with
      | none => rfl
      | some e =>
          by_cases hmem : evt ∈ xs.filterMap Task.event?
          · rw [if_pos hmem, if_pos (List.mem_cons_of_mem e hmem)]
          · by_cases he : e = evt
            · rw [if_neg hmem, if_pos (congrArg some he), if_pos (he ▸ List.mem_cons_self)]
            · rw [if_neg hmem, if_neg fun h => he (Option.some.inj h), if_neg]
              exact fun h => (List.mem_cons.1 h).elim (fun h => he h.symm) hmem

end Scheduler

end Ra2m
