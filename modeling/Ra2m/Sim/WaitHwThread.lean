/-
The wait for the end of a delta-cycle (`scheduler.rs`).

`WaitHwThread::poll` looks at the count of alive processes and, if there are any, stores
its waker.  A process that halts takes itself off the count; if it was the last one it
takes the waker out of its cell and calls it.  Either side does this in two accesses, and
the other side can come in between.

Each access is a step of its own.  A process that waits for a lock or a channel is let go
on by another one that is alive; which lock it is does not matter here.  What the
processes order and which of them the scheduler wakes is left open, and so are the
counters of locked and unlocked processes, which the wait does not look at.
-/
import Ra2m.Lib.Runs
import Ra2m.Lib.Tally

namespace Ra2m

/-- Where a process is, as `alive_prc` counts it. -/
inductive PrcPlace where
  /-- Not registered. -/
  | gone
  | alive
  /-- After an order that halts it. -/
  | halted
  /-- After `lock_prc`. -/
  | locked
  /-- What it was locked for is its own, it has not come back yet. -/
  | granted
  deriving DecidableEq, Repr

/-- How far a process is with waking the scheduler. -/
inductive Waking where
  | no
  /-- Saw that it was the last one. -/
  | take
  /-- Holds the waker. -/
  | call
  deriving DecidableEq, Repr

/-- Where the scheduler is. -/
inductive WaitHwStage where
  /-- Not in a wait. -/
  | outside
  /-- About to load `alive_prc`. -/
  | poll
  /-- Loaded a count that was not 0. -/
  | loaded
  /-- The poll was pending. -/
  | asleep
  /-- Wakes processes, counting them on the side. -/
  | wake (wokenPrc : Nat)
  deriving DecidableEq, Repr

structure WaitHw (n : Nat) where
  place : Fin n → PrcPlace
  waking : Fin n → Waking
  alivePrc : Int
  /-- There is a waker in the cell. -/
  waker : Bool
  /-- The waker was called since the scheduler was last polled. -/
  notified : Bool
  stage : WaitHwStage

namespace WaitHw

inductive Act (n : Nat) where
  | registerNewPrc (p : Fin n)
  | unregisterPrc (p : Fin n)
  | pushOrder (p : Fin n)
  /-- `free`: what the process was refused has been let go of in the meantime. -/
  | lockPrc (p : Fin n) (free : Bool)
  /-- A process lets another one go on. -/
  | release (p q : Fin n)
  | unlockPrc (p : Fin n)
  | takeWaker (p : Fin n)
  | wakeByRef (p : Fin n)
  | startWait
  | load
  | registerWaker
  | rouse
  | timeout
  | advance
  | wakePrc (p : Fin n)
  | endWake
  deriving DecidableEq

variable {n : Nat}

/-- No process is registered and no wait has begun. -/
def init (n : Nat) : WaitHw n where
  place _ := .gone
  waking _ := .no
  alivePrc := 0
  waker := false
  notified := false
  stage := .outside

def move (s : WaitHw n) (p : Fin n) (x : PrcPlace) : WaitHw n :=
  { s with place := Function.update s.place p x }

def setWaking (s : WaitHw n) (p : Fin n) (x : Waking) : WaitHw n :=
  { s with waking := Function.update s.waking p x }

/-- Add to `alive_prc`; a process that saw `last` before has to wake the scheduler. -/
def fetchAdd (s : WaitHw n) (p : Fin n) (d last : Int) : WaitHw n :=
  { s.setWaking p (if s.alivePrc = last then .take else .no) with alivePrc := s.alivePrc + d }

def deltaCycleEnded (s : WaitHw n) : Bool := 0 == s.alivePrc

/-- A process can go on by itself. -/
def Free (s : WaitHw n) (p : Fin n) (x : PrcPlace) : Prop := s.place p = x ∧ s.waking p = .no

instance (s : WaitHw n) (p : Fin n) (x : PrcPlace) : Decidable (s.Free p x) :=
  inferInstanceAs (Decidable (_ ∧ _))

/-- Take an action; `none` when it is not possible. -/
def step (s : WaitHw n) : Act n → Option (WaitHw n)
  | .registerNewPrc p =>
      if s.Free p .gone then some { s.move p .alive with alivePrc := s.alivePrc + 1 } else none
  | .unregisterPrc p =>
      if s.Free p .alive then some ((s.move p .gone).fetchAdd p (-1) 1) else none
  | .pushOrder p => if s.Free p .alive then some ((s.move p .halted).fetchAdd p (-1) 1) else none
  | .lockPrc p free =>
      if s.Free p .alive then
        some ((s.move p (if free then .granted else .locked)).fetchAdd p (-1) 1)
      else none
  | .release p q =>
      if s.Free p .alive ∧ s.place q = .locked then some (s.move q .granted) else none
  | .unlockPrc p => if s.Free p .granted then some ((s.move p .alive).fetchAdd p 1 (-1)) else none
  | .takeWaker p =>
      if s.waking p = .take then
        if s.waker then some { s.setWaking p .call with waker := false }
        else some (s.setWaking p .no)
      else none
  | .wakeByRef p =>
      if s.waking p = .call then some { s.setWaking p .no with notified := true } else none
  | .startWait => if s.stage = .outside then some { s with stage := .poll } else none
  | .load =>
      if s.stage = .poll then
        if s.deltaCycleEnded then some { s with stage := .outside }
        else some { s with stage := .loaded }
      else none
  | .registerWaker =>
      if s.stage = .loaded then some { s with stage := .asleep, waker := true } else none
  | .rouse =>
      if s.stage = .asleep ∧ s.notified then some { s with stage := .poll, notified := false }
      else none
  | .timeout =>
      if s.stage = .asleep then some { s with stage := .poll, notified := false } else none
  | .advance => if s.stage = .outside then some { s with stage := .wake 0 } else none
  | .wakePrc p =>
      match s.stage with
      | .wake wokenPrc =>
          if s.place p = .halted then some { s.move p .alive with stage := .wake (wokenPrc + 1) }
          else none
      | _ => none
  | .endWake =>
      match s.stage with
      | .wake wokenPrc => some { s with stage := .poll, alivePrc := s.alivePrc + wokenPrc }
      | _ => none

end WaitHw

end Ra2m
