/-
Processes that contend for a port (`port/mod.rs`, `scheduler.rs`).

A process that finds the port locked leaves the scheduler's count of alive
processes, announces itself in the counter of the `PortMutex` and blocks on the inner
mutex.  The guard's `Drop` looks at that counter, counts an unlock event when
someone is announced, and only then lets go of the inner mutex, which hands it to the
first in its queue.  The scheduler ends a delta-cycle when no process is alive; if it
reads unlock events then, it waits for as many processes to come back, and again for
no process to be alive, before it clears both counters and moves on.

Every access to a counter is a step of its own, so a run is any interleaving of these
accesses.  The inner mutex is first in, first out, and is handed over on release.  A
process is alive or halted as `SchedulerAPI` has it; what else it does is left out.
-/
import Ra2m.Lib.Runs
import Ra2m.Lib.Tally

namespace Ra2m

/-- Where a process is in `PortMutex::lock`, with the guard, or in the guard's `Drop`. -/
inductive LockStage where
  /-- Without the guard, alive. -/
  | run
  /-- Without the guard, halted. -/
  | sleep
  /-- `try_lock` succeeded, yields once. -/
  | yielding
  /-- `try_lock` failed. -/
  | refused
  /-- After `lock_prc`. -/
  | locked
  /-- Counted in the waiters. -/
  | announced
  /-- In the queue of the inner mutex. -/
  | queued
  /-- The inner mutex is its own, it has not come back yet. -/
  | granted
  /-- Alive again in `unlock_prc`, not counted as unlocked yet. -/
  | rising
  /-- After `unlock_prc`. -/
  | resumed
  /-- With the guard, alive. -/
  | holds
  /-- With the guard, halted. -/
  | holdsSleep
  /-- In `Drop`, saw waiters. -/
  | sawWaiters
  /-- In `Drop`, about to release the inner mutex; whether it counted an unlock event. -/
  | releasing (counted : Bool)
  deriving DecidableEq, Repr

namespace LockStage

/-- Counted in `alive_prc`. -/
def alive : LockStage → Bool
  | run => true
  | yielding => true
  | refused => true
  | rising => true
  | resumed => true
  | holds => true
  | sawWaiters => true
  | releasing _ => true
  | _ => false

/-- Granted the port, and still in `lock`. -/
def inLock : LockStage → Bool
  | yielding => true
  | granted => true
  | rising => true
  | resumed => true
  | _ => false

/-- Part of a hand-over that has not been counted as unlocked. -/
def inHandOver : LockStage → Bool
  | granted => true
  | rising => true
  | releasing true => true
  | _ => false

end LockStage

/-- Where the scheduler is. -/
inductive LoopStage where
  /-- Wait for `alive_prc` to be 0. -/
  | wait
  /-- Read `unlock_evt`. -/
  | sample
  /-- Wait for `unlocked_prc` to reach what was read. -/
  | settle (unlockEvt : Nat)
  /-- Wait for `alive_prc` to be 0 again. -/
  | waitAgain
  /-- Clear `unlock_evt`. -/
  | clearEvt
  /-- Clear `unlocked_prc`. -/
  | clearPrc
  /-- Drain the orders and advance the tick. -/
  | drain
  /-- Wake processes, counting them on the side. -/
  | wake (wokenPrc : Nat)
  deriving DecidableEq, Repr

structure PortLock (n : Nat) where
  stage : Fin n → LockStage
  /-- The inner mutex. -/
  held : Bool
  queue : List (Fin n)
  /-- The counter of the `PortMutex`. -/
  waiters : Nat
  alivePrc : Int
  lockedPrc : Nat
  unlockedPrc : Nat
  unlockEvt : Nat
  loop : LoopStage

namespace PortLock

inductive Act (n : Nat) where
  | tryLock (p : Fin n)
  | yielded (p : Fin n)
  | lockPrc (p : Fin n)
  | announce (p : Fin n)
  | acquire (p : Fin n)
  | rise (p : Fin n)
  | countUnlocked (p : Fin n)
  | retire (p : Fin n)
  | halt (p : Fin n)
  | loadWaiters (p : Fin n)
  | unlockEvt (p : Fin n)
  | release (p : Fin n)
  | cycleEnded
  | sample
  | settled
  | endedAgain
  | clearEvt
  | clearPrc
  | advance
  | wakePrc (p : Fin n)
  | endWake
  deriving DecidableEq

variable {n : Nat}

/-- All processes run and the port is free. -/
def init (n : Nat) : PortLock n where
  stage _ := .run
  held := false
  queue := []
  waiters := 0
  alivePrc := n
  lockedPrc := 0
  unlockedPrc := 0
  unlockEvt := 0
  loop := .wait

def move (s : PortLock n) (p : Fin n) (x : LockStage) : PortLock n :=
  { s with stage := Function.update s.stage p x }

def deltaCycleEnded (s : PortLock n) : Bool := 0 == s.alivePrc

/-- Let go of the inner mutex: it goes to the first in the queue. -/
def handOver (s : PortLock n) : PortLock n :=
  match s.queue with
  | [] => { s with held := false }
  | q :: rest => { s.move q .granted with queue := rest }

/-- Take an action; `none` when it is not possible. -/
def step (s : PortLock n) : Act n → Option (PortLock n)
  | .tryLock p =>
      if s.stage p = .run then
        if s.held then some (s.move p .refused) else some { s.move p .yielding with held := true }
      else none
  | .yielded p => if s.stage p = .yielding then some (s.move p .holds) else none
  | .lockPrc p =>
      if s.stage p = .refused then
        some { s.move p .locked with lockedPrc := s.lockedPrc + 1, alivePrc := s.alivePrc - 1 }
      else none
  | .announce p =>
      if s.stage p = .locked then some { s.move p .announced with waiters := s.waiters + 1 }
      else none
  | .acquire p =>
      if s.stage p = .announced then
        if s.held then some { s.move p .queued with queue := s.queue ++ [p] }
        else some { s.move p .granted with held := true }
      else none
  | .rise p =>
      if s.stage p = .granted then some { s.move p .rising with alivePrc := s.alivePrc + 1 }
      else none
  | .countUnlocked p =>
      if s.stage p = .rising then
        some { s.move p .resumed with
          lockedPrc := s.lockedPrc - 1, unlockedPrc := s.unlockedPrc + 1 }
      else none
  | .retire p =>
      if s.stage p = .resumed then some { s.move p .holds with waiters := s.waiters - 1 } else none
  | .halt p =>
      if s.stage p = .run then some { s.move p .sleep with alivePrc := s.alivePrc - 1 }
      else if s.stage p = .holds then
        some { s.move p .holdsSleep with alivePrc := s.alivePrc - 1 }
      else none
  | .loadWaiters p =>
      if s.stage p = .holds then
        if 0 < s.waiters then some (s.move p .sawWaiters) else some (s.move p (.releasing false))
      else none
  | .unlockEvt p =>
      if s.stage p = .sawWaiters then
        some { s.move p (.releasing true) with unlockEvt := s.unlockEvt + 1 }
      else none
  | .release p =>
      if s.stage p = .releasing true ∨ s.stage p = .releasing false then
        some (s.move p .run).handOver
      else none
  | .cycleEnded =>
      if s.loop = .wait ∧ s.deltaCycleEnded then some { s with loop := .sample } else none
  | .sample =>
      if s.loop = .sample then
        if 0 < s.unlockEvt then some { s with loop := .settle s.unlockEvt }
        else some { s with loop := .clearEvt }
      else none
  | .settled =>
      match s.loop with
      | .settle unlockEvt =>
          if unlockEvt ≤ s.unlockedPrc then some { s with loop := .waitAgain } else none
      | _ => none
  | .endedAgain =>
      if s.loop = .waitAgain ∧ s.deltaCycleEnded then some { s with loop := .clearEvt } else none
  | .clearEvt =>
      if s.loop = .clearEvt then some { s with loop := .clearPrc, unlockEvt := 0 } else none
  | .clearPrc =>
      if s.loop = .clearPrc then some { s with loop := .drain, unlockedPrc := 0 } else none
  | .advance => if s.loop = .drain then some { s with loop := .wake 0 } else none
  | .wakePrc p =>
      match s.loop with
      | .wake wokenPrc =>
          if s.stage p = .sleep then some { s.move p .run with loop := .wake (wokenPrc + 1) }
          else if s.stage p = .holdsSleep then
            some { s.move p .holds with loop := .wake (wokenPrc + 1) }
          else none
      | _ => none
  | .endWake =>
      match s.loop with
      | .wake wokenPrc => some { s with loop := .wait, alivePrc := s.alivePrc + wokenPrc }
      | _ => none

end PortLock

end Ra2m
