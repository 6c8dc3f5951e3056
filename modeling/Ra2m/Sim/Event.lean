/-
The events fired in the current delta-cycle (`event.rs`).

`EventKeeper` lists the events triggered since the last time advance, and the
processes that have already been let through by one of them: a process can be
woken by an event only once in a delta-cycle.  Events are the uids the keeper gives
to their names, processes are task ids.
-/
import Mathlib.Tactic.Common

namespace Ra2m

structure EventKeeper where
  triggeredEvents : List Nat := []
  wokenProcess : List Nat := []
  deriving DecidableEq, Repr

namespace EventKeeper

/-- Forget the fired events; done on every time advance. -/
def clearTriggeredEvents (_self : EventKeeper) : EventKeeper := {}

def triggerEvent (self : EventKeeper) (eventUid : Nat) : EventKeeper :=
  { self with triggeredEvents := self.triggeredEvents ++ [eventUid] }

/-- Whether a fired event lets the process through; it then counts as woken. -/
def isTriggered (self : EventKeeper) (eventUid taskId : Nat) : Bool × EventKeeper :=
  if eventUid ∈ self.triggeredEvents then
    if taskId ∈ self.wokenProcess then (false, self)
    else (true, { self with wokenProcess := self.wokenProcess ++ [taskId] })
  else (false, self)

@[simp] theorem triggerEvent_triggeredEvents (k : EventKeeper) (e : Nat) :
    (k.triggerEvent e).triggeredEvents = k.triggeredEvents ++ [e] := rfl
@[simp] theorem triggerEvent_wokenProcess (k : EventKeeper) (e : Nat) :
    (k.triggerEvent e).wokenProcess = k.wokenProcess := rfl

/-- A process passes exactly when the event has fired and it has not passed before. -/
theorem isTriggered_eq_true_iff {k : EventKeeper} {e p : Nat} :
    (k.isTriggered e p).1 = true ↔ e ∈ k.triggeredEvents ∧ p ∉ k.wokenProcess := by
  unfold isTriggered
  by_cases he : e ∈ k.triggeredEvents
  · by_cases hp : p ∈ k.wokenProcess
    · simp [he, hp]
    · simp [he, hp]
  · simp [he]

theorem isTriggered_triggeredEvents (k : EventKeeper) (e p : Nat) :
    (k.isTriggered e p).2.triggeredEvents = k.triggeredEvents := by
  unfold isTriggered
  split
  · split
    · rfl
    · rfl
  · rfl

/-- A process that passes is the only one that becomes woken; one that does not leaves the keeper
alone. -/
theorem isTriggered_wokenProcess (k : EventKeeper) (e p : Nat) :
    (k.isTriggered e p).2.wokenProcess =
      if (k.isTriggered e p).1 then k.wokenProcess ++ [p] else k.wokenProcess := by
  unfold isTriggered
  split
  · split
    · rfl
    · rfl
  · rfl

end EventKeeper

end Ra2m
