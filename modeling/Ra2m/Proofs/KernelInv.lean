/-
What holds between a process, its future and the loop.

A move of a process touches the process alone: every other one stays where it is,
and the scheduler, the time and the fired events stay as they are
(`process_frame`).  So an invariant about each process needs a look at the one that
moves, and at the eight steps of the loop.

`Inv` is that invariant.  Its core is `passing`: a process whose waker was called
for an event finds the event fired and itself not yet let through, until it polls.
-/
import Ra2m.Sim.Kernel
import Ra2m.Proofs.Conservation

namespace Ra2m

/-! ### What serving a task leaves -/

namespace System

theorem served_waitOnTick (s : System) (x : Task Pid) :
    (s.served x).sched.waitOnTick = s.sched.waitOnTick.erase x :=
  Scheduler.wakeTask_waitOnTick _ x

theorem served_waiters (s : System) (x : Task Pid) (evt : Nat) :
    (s.served x).sched.waiters evt = if x.event? = some evt then [] else s.sched.waiters evt :=
  Scheduler.wakeTask_waiters _ x evt

/-- Serving a task wakes the processes it calls. -/
theorem served_called (s : System) (x : Task Pid) :
    (s.served x).wakes.flatMap Prod.snd = s.sched.called x := by
  unfold served
  rw [Scheduler.wakeTask_wakes, List.nil_append, List.flatMap_singleton]
  cases x with
  | wakeup t w => rfl
  | notify t e => rfl

theorem served_triggered (s : System) (x : Task Pid) :
    (s.served x).keeper.triggeredEvents = s.keeper.triggeredEvents ++ x.event?.toList :=
  Scheduler.wakeTask_triggered _ x

theorem served_wokenProcess (s : System) (x : Task Pid) :
    (s.served x).keeper.wokenProcess = s.keeper.wokenProcess := by
  cases x with
  | wakeup t w => rfl
  | notify t e =>
      unfold served
      rw [Scheduler.wakeTask_notify]
      rfl

end System

/-- The stages in which every task of the current tick has been served. -/
def Stage.settled : Stage → Bool
  | clear => false
  | wake => false
  | _ => true

namespace Kernel

variable {k k' : Kernel} {a : Act}

/-! ### The moves of a process -/

/-- The loop is where it was; the queue may have grown. -/
structure SameLoop (k k' : Kernel) : Prop where
  stage : k'.stage = k.stage
  sched : k'.sys.sched = k.sys.sched
  now : k'.sys.now = k.sys.now
  wokenPrc : k'.sys.wokenPrc = k.sys.wokenPrc
  triggered : k'.sys.keeper.triggeredEvents = k.sys.keeper.triggeredEvents
  orders : ∃ new, k'.sys.api.orderQ = k.sys.api.orderQ ++ new

/-- The process is where it was. -/
structure SamePrc (q : Pid) (k k' : Kernel) : Prop where
  running : q ∈ k'.sys.running ↔ q ∈ k.sys.running
  locked : q ∈ k'.sys.locked ↔ q ∈ k.sys.locked
  queued : ∀ o, System.haltedBy o = some q → (o ∈ k'.sys.api.orderQ ↔ o ∈ k.sys.api.orderQ)
  future : k'.future q = k.future q
  woken : q ∈ k'.sys.keeper.wokenProcess ↔ q ∈ k.sys.keeper.wokenProcess

theorem SameLoop.refl (k : Kernel) : SameLoop k k :=
  ⟨rfl, rfl, rfl, rfl, rfl, [], (List.append_nil _).symm⟩

theorem SamePrc.refl (q : Pid) (k : Kernel) : SamePrc q k k :=
  ⟨Iff.rfl, Iff.rfl, fun _ _ => Iff.rfl, rfl, Iff.rfl⟩

private theorem ready_keeper (k : Kernel) (p : Pid) (f : Future) :
    (k.ready p f).2.triggeredEvents = k.sys.keeper.triggeredEvents ∧
      ∀ q, q ≠ p → (q ∈ (k.ready p f).2.wokenProcess ↔ q ∈ k.sys.keeper.wokenProcess) := by
  cases f with
  | delay t => exact ⟨rfl, fun _ _ => Iff.rfl⟩
  | event e =>
      refine ⟨EventKeeper.isTriggered_triggeredEvents _ _ _, ?_⟩
      intro q hq
      show q ∈ (k.sys.keeper.isTriggered e p).2.wokenProcess ↔ _
      rw [EventKeeper.isTriggered_wokenProcess]
      split
      · simp [hq]
      · rfl

private theorem resume_frame (k : Kernel) (p : Pid) (f : Future) :
    SameLoop k (k.resume p (k.ready p f).2) ∧
      ∀ q, q ≠ p → SamePrc q k (k.resume p (k.ready p f).2) := by
  obtain ⟨htrig, hwoken⟩ := ready_keeper k p f
  refine ⟨⟨rfl, rfl, rfl, rfl, htrig, [], (List.append_nil _).symm⟩, ?_⟩
  intro q hq
  exact ⟨Iff.rfl, Iff.rfl, fun _ _ => Iff.rfl, Function.update_of_ne hq _ _, hwoken q hq⟩

/-- The order a future pushes when it is not ready. -/
def order (p : Pid) : Future → Order Pid
  | .event evt => .waitOn evt p
  | .delay wakeAt => .waitUntil wakeAt p

theorem haltedBy_order (p : Pid) (f : Future) : System.haltedBy (order p f) = some p := by
  cases f with
  | event evt => rfl
  | delay wakeAt => rfl

theorem suspend_eq {p : Pid} {f : Future} (h : k.suspend p f = some k') :
    p ∈ k.sys.running ∧ k' =
      { sys := { k.sys with
          api := k.sys.api.pushOrder (order p f), running := k.sys.running.erase p }
        stage := k.stage
        future := Function.update k.future p (some f) } := by
  unfold suspend at h
  obtain ⟨s, hs, rfl⟩ := Option.map_eq_some_iff.1 h
  cases f with
  | event evt | delay wakeAt =>
      simp only [System.step, Option.ite_none_right_eq_some, Option.some.injEq] at hs
      obtain ⟨hp, rfl⟩ := hs
      exact ⟨hp, rfl⟩

/-- Suspending a process touches that process alone. -/
theorem suspend_frame {p : Pid} {f : Future} (h : k.suspend p f = some k') :
    SameLoop k k' ∧ ∀ q, q ≠ p → SamePrc q k k' := by
  obtain ⟨-, rfl⟩ := suspend_eq h
  refine ⟨⟨rfl, rfl, rfl, rfl, rfl, _, SchedulerAPI.pushOrder_orderQ _ _⟩, ?_⟩
  intro q hq
  refine ⟨List.mem_erase_of_ne hq, Iff.rfl, ?_, Function.update_of_ne hq _ _, Iff.rfl⟩
  intro o ho
  show o ∈ (k.sys.api.pushOrder (order p f)).orderQ ↔ _
  rw [SchedulerAPI.pushOrder_orderQ, List.mem_append, List.mem_singleton]
  refine or_iff_left fun heq => hq ?_
  rw [heq, haltedBy_order] at ho
  exact (Option.some.inj ho).symm

/-- The first poll of a future lets the process through or suspends it. -/
theorem start_cases {p : Pid} {f : Future} (h : k.start p f = some k') :
    k.Free p ∧ ((k.ready p f).1 = true ∧ k' = k.resume p (k.ready p f).2 ∨
      (k.ready p f).1 = false ∧ k.suspend p f = some k') := by
  unfold start at h
  simp only [Option.ite_none_right_eq_some] at h
  obtain ⟨hfree, h⟩ := h
  refine ⟨hfree, ?_⟩
  by_cases hready : (k.ready p f).1 = true
  · rw [if_pos hready] at h
    exact Or.inl ⟨hready, (Option.some.inj h).symm⟩
  · rw [if_neg hready] at h
    exact Or.inr ⟨by simpa using hready, h⟩

/-- A later poll lets the process through or leaves everything as it was. -/
theorem poll_cases {p : Pid} (h : k.step (.poll p) = some k') :
    p ∈ k.sys.running ∧ ∃ f, k.future p = some f ∧
      ((k.ready p f).1 = true ∧ k' = k.resume p (k.ready p f).2 ∨
        (k.ready p f).1 = false ∧ k' = k) := by
  simp only [step, Option.ite_none_right_eq_some] at h
  obtain ⟨hp, h⟩ := h
  refine ⟨hp, ?_⟩
  split at h
  · rename_i f hf
    refine ⟨f, hf, ?_⟩
    by_cases hready : (k.ready p f).1 = true
    · rw [if_pos hready] at h
      exact Or.inl ⟨hready, (Option.some.inj h).symm⟩
    · rw [if_neg hready] at h
      exact Or.inr ⟨by simpa using hready, (Option.some.inj h).symm⟩
  · cases h

/-- The first poll touches the process alone. -/
theorem start_frame {p : Pid} {f : Future} (h : k.start p f = some k') :
    SameLoop k k' ∧ ∀ q, q ≠ p → SamePrc q k k' := by
  obtain ⟨-, ⟨-, rfl⟩ | ⟨-, hs⟩⟩ := start_cases h
  · exact resume_frame k p f
  · exact suspend_frame hs

/-- A move of a process touches that process alone. -/
theorem process_frame (h : k.step a = some k') (ha : a.isMove = true) :
    SameLoop k k' ∧ ∀ q, a.actor ≠ some q → SamePrc q k k' := by
  have hne : ∀ {p q : Pid}, some p ≠ some q → q ≠ p := fun h hq => h (congrArg some hq.symm)
  cases a with
  | spawn p =>
      simp only [step, call, System.step, Option.map_eq_some_iff, Option.ite_none_right_eq_some,
        Option.some.injEq] at h
      obtain ⟨-, ⟨-, ⟨-, rfl⟩, rfl⟩, rfl⟩ := h
      refine ⟨⟨rfl, rfl, rfl, rfl, rfl, [], (List.append_nil _).symm⟩, ?_⟩
      intro q hq
      exact ⟨List.mem_cons.trans (or_iff_right (hne hq)), Iff.rfl, fun _ _ => Iff.rfl,
        Function.update_of_ne (hne hq) _ _, Iff.rfl⟩
  | finish p =>
      simp only [step, call, System.step, Option.map_eq_some_iff, Option.ite_none_right_eq_some,
        Option.some.injEq] at h
      obtain ⟨-, -, ⟨-, rfl⟩, rfl⟩ := h
      refine ⟨⟨rfl, rfl, rfl, rfl, rfl, [], (List.append_nil _).symm⟩, ?_⟩
      intro q hq
      exact ⟨List.mem_erase_of_ne (hne hq), Iff.rfl, fun _ _ => Iff.rfl, rfl, Iff.rfl⟩
  | wait p evt | delay p wakeAt =>
      obtain ⟨hloop, hprc⟩ := start_frame h
      exact ⟨hloop, fun q hq => hprc q (hne hq)⟩
  | notify t evt =>
      simp only [step, call, System.step, Option.map_eq_some_iff, Option.some.injEq] at h
      obtain ⟨-, rfl, rfl⟩ := h
      refine ⟨⟨rfl, rfl, rfl, rfl, rfl, _, SchedulerAPI.pushOrder_orderQ _ _⟩, ?_⟩
      intro q _
      refine ⟨Iff.rfl, Iff.rfl, ?_, rfl, Iff.rfl⟩
      intro o ho
      show o ∈ (k.sys.api.pushOrder (.notifyAt t evt)).orderQ ↔ _
      rw [SchedulerAPI.pushOrder_orderQ, List.mem_append, List.mem_singleton]
      refine or_iff_left ?_
      intro heq
      rw [heq] at ho
      cases ho
  | lock p =>
      simp only [step, call, System.step, Option.map_eq_some_iff, Option.ite_none_right_eq_some,
        Option.some.injEq] at h
      obtain ⟨-, -, ⟨-, rfl⟩, rfl⟩ := h
      refine ⟨⟨rfl, rfl, rfl, rfl, rfl, [], (List.append_nil _).symm⟩, ?_⟩
      intro q hq
      exact ⟨List.mem_erase_of_ne (hne hq), List.mem_cons.trans (or_iff_right (hne hq)),
        fun _ _ => Iff.rfl, rfl, Iff.rfl⟩
  | unlock p =>
      simp only [step, call, System.step, Option.map_eq_some_iff, Option.ite_none_right_eq_some,
        Option.some.injEq] at h
      obtain ⟨-, ⟨-, rfl⟩, rfl⟩ := h
      refine ⟨⟨rfl, rfl, rfl, rfl, rfl, [], (List.append_nil _).symm⟩, ?_⟩
      intro q hq
      exact ⟨List.mem_cons.trans (or_iff_right (hne hq)), List.mem_erase_of_ne (hne hq),
        fun _ _ => Iff.rfl, rfl, Iff.rfl⟩
  | poll p =>
      obtain ⟨-, f, -, ⟨-, rfl⟩ | ⟨-, rfl⟩⟩ := poll_cases h
      · obtain ⟨hloop, hprc⟩ := resume_frame k p f
        exact ⟨hloop, fun q hq => hprc q (hne hq)⟩
      · exact ⟨SameLoop.refl _, fun q _ => SamePrc.refl q _⟩
  | _ => cases ha

/-- A process that moves polls its future, is free, comes back from a lock or is new. -/
theorem actor_cases {p : Pid} (hstep : k.step a = some k') (ha : a.actor = some p) :
    (a = .poll p ∧ p ∈ k.sys.running) ∨ k.Free p ∨ p ∈ k.sys.locked ∨ p ∉ k.sys.registered := by
  cases a with
  | spawn q =>
      obtain rfl := Option.some.inj ha
      simp only [step, call, System.step, Option.map_eq_some_iff,
        Option.ite_none_right_eq_some] at hstep
      obtain ⟨-, ⟨-, ⟨hnew, -⟩, -⟩, -⟩ := hstep
      exact Or.inr (Or.inr (Or.inr hnew))
  | finish q | lock q =>
      obtain rfl := Option.some.inj ha
      exact Or.inr (Or.inl (Option.ite_none_right_eq_some.1 hstep).1)
  | wait q e | delay q t =>
      obtain rfl := Option.some.inj ha
      exact Or.inr (Or.inl (start_cases hstep).1)
  | unlock q =>
      obtain rfl := Option.some.inj ha
      simp only [step, call, System.step, Option.map_eq_some_iff,
        Option.ite_none_right_eq_some] at hstep
      obtain ⟨-, ⟨hlock, -⟩, -⟩ := hstep
      exact Or.inr (Or.inr (Or.inl hlock))
  | poll q =>
      obtain rfl := Option.some.inj ha
      exact Or.inl ⟨rfl, (poll_cases hstep).1⟩
  | _ => cases ha

/-! ### The steps of the loop -/

theorem step_drain (h : k.step .drain = some k') :
    k.stage = .drain ∧ ∃ o rest, k.sys.api.orderQ = o :: rest ∧ k' =
      { k with sys := { k.sys with
          api := { k.sys.api with orderQ := rest }, sched := k.sys.sched.recv k.sys.now o } } := by
  simp only [step, call, Option.ite_none_right_eq_some, Option.map_eq_some_iff] at h
  obtain ⟨hstage, s, hs, rfl⟩ := h
  refine ⟨hstage, ?_⟩
  simp only [System.step] at hs
  split at hs
  · cases hs
  · rename_i o rest hqueue
    obtain rfl := Option.some.inj hs
    exact ⟨o, rest, hqueue, rfl⟩

theorem step_updateTick (h : k.step .updateTick = some k') :
    k.stage = .advance ∧ ∃ nextTick,
      MinHeap.peek Task.tick k.sys.sched.waitOnTick = some nextTick ∧
      k' = { k with sys := { k.sys with now := nextTick }, stage := .clear } := by
  simp only [step, call, Option.ite_none_right_eq_some, Option.map_eq_some_iff] at h
  obtain ⟨hstage, -, ⟨s, hs, rfl⟩, rfl⟩ := h
  refine ⟨hstage, ?_⟩
  simp only [System.step] at hs
  split at hs
  · rename_i nextTick hpeek
    obtain rfl := Option.some.inj hs
    exact ⟨nextTick, hpeek, rfl⟩
  · cases hs

theorem step_clearEvents (h : k.step .clearEvents = some k') :
    k.stage = .clear ∧ k' =
      { k with
        sys := { k.sys with keeper := k.sys.keeper.clearTriggeredEvents, wokenPrc := some 0 }
        stage := .wake } := by
  simp only [step, call, System.step, Option.ite_none_right_eq_some, Option.map_eq_some_iff,
    Option.some.injEq] at h
  obtain ⟨hstage, -, ⟨s, ⟨-, rfl⟩, rfl⟩, rfl⟩ := h
  exact ⟨hstage, rfl⟩

theorem step_serve {x : Task Pid} (h : k.step (.serve x) = some k') :
    k.stage = .wake ∧ x ∈ k.sys.sched.waitOnTick ∧ x.tick ≤ k.sys.now ∧ ∃ n, k' =
      { k with sys := { k.sys with
          sched := (k.sys.served x).sched
          keeper := (k.sys.served x).keeper
          wokenPrc := some n
          running := k.sys.sched.called x ++ k.sys.running } } := by
  simp only [step, call, Option.ite_none_right_eq_some, Option.map_eq_some_iff] at h
  obtain ⟨hstage, s, hs, rfl⟩ := h
  refine ⟨hstage, ?_⟩
  simp only [System.step, System.served_called] at hs
  split at hs
  · simp only [Option.ite_none_right_eq_some, Option.some.injEq] at hs
    obtain ⟨⟨hx, hdue⟩, rfl⟩ := hs
    exact ⟨hx, hdue, _, rfl⟩
  · cases hs

theorem step_endWake (h : k.step .endWake = some k') :
    k.stage = .wake ∧ (∀ x ∈ k.sys.sched.waitOnTick, k.sys.now < x.tick) ∧ ∃ api, k' =
      { k with
        sys := { k.sys with api, wokenPrc := none }
        stage := .wait } ∧ api.orderQ = k.sys.api.orderQ := by
  simp only [step, call, Option.ite_none_right_eq_some, Option.map_eq_some_iff] at h
  obtain ⟨hstage, -, ⟨s, hs, rfl⟩, rfl⟩ := h
  refine ⟨hstage, ?_⟩
  simp only [System.step] at hs
  split at hs
  · simp only [Option.ite_none_right_eq_some, Option.some.injEq] at hs
    obtain ⟨hall, rfl⟩ := hs
    exact ⟨hall, _, rfl, rfl⟩
  · cases hs

/-- A step of the loop that only moves to the next stage; it leaves the first one when the
delta-cycle has ended. -/
theorem step_stage (h : k.step a = some k') (ha : a = .cycleEnded ∨ a = .drained ∨ a = .again) :
    k.stage.settled = true ∧ (k.stage = .wait → k.sys.api.deltaCycleEnded = true) ∧
      ∃ s : Stage, s.settled = true ∧ k' = { k with stage := s } := by
  rcases ha with rfl | rfl | rfl
  · simp only [step, Option.ite_none_right_eq_some, Option.some.injEq] at h
    obtain ⟨⟨hstage, hended⟩, rfl⟩ := h
    rw [hstage]
    exact ⟨rfl, fun _ => hended, _, rfl, rfl⟩
  · simp only [step, Option.ite_none_right_eq_some, Option.some.injEq] at h
    obtain ⟨⟨hstage, -⟩, rfl⟩ := h
    rw [hstage]
    exact ⟨rfl, Stage.noConfusion, _, rfl, rfl⟩
  · simp only [step, Option.ite_none_right_eq_some, Option.some.injEq] at h
    obtain ⟨hstage, rfl⟩ := h
    rw [hstage]
    exact ⟨rfl, Stage.noConfusion, _, rfl, rfl⟩

/-- What a step of the loop can do. -/
theorem step_loop (h : k.step a = some k') (ha : a.isMove ≠ true) :
    ((a = .cycleEnded ∨ a = .drained ∨ a = .again) ∧ k.stage.settled = true ∧
        (k.stage = .wait → k.sys.api.deltaCycleEnded = true) ∧
        ∃ s : Stage, s.settled = true ∧ k' = { k with stage := s }) ∨
      (a = .drain ∧ k.stage = .drain ∧ ∃ o rest, k.sys.api.orderQ = o :: rest ∧ k' =
        { k with sys := { k.sys with
            api := { k.sys.api with orderQ := rest }
            sched := k.sys.sched.recv k.sys.now o } }) ∨
      (a = .updateTick ∧ k.stage = .advance ∧ ∃ nextTick,
        MinHeap.peek Task.tick k.sys.sched.waitOnTick = some nextTick ∧
        k' = { k with sys := { k.sys with now := nextTick }, stage := .clear }) ∨
      (a = .clearEvents ∧ k.stage = .clear ∧ k' =
        { k with
          sys := { k.sys with keeper := k.sys.keeper.clearTriggeredEvents, wokenPrc := some 0 }
          stage := .wake }) ∨
      (∃ x, a = .serve x ∧ k.stage = .wake ∧ x ∈ k.sys.sched.waitOnTick ∧ x.tick ≤ k.sys.now ∧
        ∃ n, k' = { k with sys := { k.sys with
          sched := (k.sys.served x).sched
          keeper := (k.sys.served x).keeper
          wokenPrc := some n
          running := k.sys.sched.called x ++ k.sys.running } }) ∨
      (a = .endWake ∧ k.stage = .wake ∧ (∀ x ∈ k.sys.sched.waitOnTick, k.sys.now < x.tick) ∧
        ∃ api, k' = { k with sys := { k.sys with api, wokenPrc := none }, stage := .wait } ∧
          api.orderQ = k.sys.api.orderQ) := by
  cases a with
  | cycleEnded => exact Or.inl ⟨Or.inl rfl, step_stage h (Or.inl rfl)⟩
  | drained => exact Or.inl ⟨Or.inr (Or.inl rfl), step_stage h (Or.inr (Or.inl rfl))⟩
  | again => exact Or.inl ⟨Or.inr (Or.inr rfl), step_stage h (Or.inr (Or.inr rfl))⟩
  | drain => exact Or.inr (Or.inl ⟨rfl, step_drain h⟩)
  | updateTick => exact Or.inr (Or.inr (Or.inl ⟨rfl, step_updateTick h⟩))
  | clearEvents => exact Or.inr (Or.inr (Or.inr (Or.inl ⟨rfl, step_clearEvents h⟩)))
  | serve x => exact Or.inr (Or.inr (Or.inr (Or.inr (Or.inl ⟨x, rfl, step_serve h⟩))))
  | endWake => exact Or.inr (Or.inr (Or.inr (Or.inr (Or.inr ⟨rfl, step_endWake h⟩))))
  | spawn p => exact absurd rfl ha
  | finish p => exact absurd rfl ha
  | wait p e => exact absurd rfl ha
  | delay p t => exact absurd rfl ha
  | notify t e => exact absurd rfl ha
  | lock p => exact absurd rfl ha
  | unlock p => exact absurd rfl ha
  | poll p => exact absurd rfl ha

/-! ### The invariant -/

/-- What holds of the loop. -/
structure LoopInv (k : Kernel) : Prop where
  counted : k.sys.Counted
  woken : k.sys.wokenPrc = none ↔ k.stage ≠ .wake
  /-- No task is overdue, and none is due outside the wake loop. -/
  ahead : ∀ x ∈ k.sys.sched.waitOnTick, k.sys.now ≤ x.tick ∧
    (k.stage.settled = true → k.sys.now < x.tick)

/-- What holds of the process `q`. -/
structure PrcInv (q : Pid) (k : Kernel) : Prop where
  queued : ∀ o ∈ k.sys.api.orderQ, System.haltedBy o = some q →
    ∃ f, k.future q = some f ∧ o = order q f
  sleeping : ∀ t, Task.wakeup t q ∈ k.sys.sched.waitOnTick →
    ∃ t', t' ≤ t ∧ k.future q = some (.delay t')
  waiting : ∀ e, q ∈ k.sys.sched.waiters e → k.future q = some (.event e)
  locked : q ∈ k.sys.locked → k.future q = none
  /-- A process whose waker was called polls before the delta-cycle ends. -/
  resuming : q ∈ k.sys.running → ∀ f, k.future q = some f → k.stage = .wait ∨ k.stage = .wake
  /-- And its poll returns `Ready`. -/
  passing : q ∈ k.sys.running → ∀ f, k.future q = some f → (k.ready q f).1 = true
  fresh : k.stage = .wake → ∀ e, q ∈ k.sys.sched.waiters e → q ∉ k.sys.keeper.wokenProcess

structure Inv (k : Kernel) : Prop where
  loop : LoopInv k
  prc : ∀ q, PrcInv q k

theorem inv_init (now : Tick) : Inv (init now) where
  loop := by
    refine ⟨System.counted_init now, iff_of_true rfl ?_, ?_⟩
    · exact Stage.noConfusion
    · intro x hx
      cases hx
  prc q := by
    refine ⟨?_, ?_, ?_, fun _ => rfl, ?_, ?_, ?_⟩
    · intro o ho
      cases ho
    · intro t ht
      cases ht
    · intro e he
      cases he
    · intro hr
      cases hr
    · intro hr
      cases hr
    · intro _ e he
      cases he

private theorem call_sys {c : Call} (h : k.call c = some k') : k.sys.step c = some k'.sys := by
  obtain ⟨s, hs, rfl⟩ := Option.map_eq_some_iff.1 h
  exact hs

/-- An action makes one call, or none: then it touches the fired events at most. -/
theorem step_sys (h : k.step a = some k') :
    (∃ keeper, k'.sys = { k.sys with keeper := keeper }) ∨ ∃ c, k.sys.step c = some k'.sys := by
  have hstart : ∀ p f, k.start p f = some k' →
      (∃ keeper, k'.sys = { k.sys with keeper := keeper }) ∨
        ∃ c, k.sys.step c = some k'.sys := by
    intro p f hs
    obtain ⟨-, ⟨-, rfl⟩ | ⟨-, hs⟩⟩ := start_cases hs
    · exact Or.inl ⟨_, rfl⟩
    · unfold suspend at hs
      obtain ⟨s, hs, hk⟩ := Option.map_eq_some_iff.1 hs
      exact Or.inr ⟨_, hs.trans (congrArg (fun k => some k.sys) hk)⟩
  cases a with
  | wait p e => exact hstart _ _ h
  | delay p t => exact hstart _ _ h
  | poll p =>
      obtain ⟨-, f, -, ⟨-, rfl⟩ | ⟨-, rfl⟩⟩ := poll_cases h
      · exact Or.inl ⟨_, rfl⟩
      · exact Or.inl ⟨_, rfl⟩
  | cycleEnded =>
      obtain ⟨-, -, s, -, rfl⟩ := step_stage h (Or.inl rfl)
      exact Or.inl ⟨_, rfl⟩
  | drained =>
      obtain ⟨-, -, s, -, rfl⟩ := step_stage h (Or.inr (Or.inl rfl))
      exact Or.inl ⟨_, rfl⟩
  | again =>
      obtain ⟨-, -, s, -, rfl⟩ := step_stage h (Or.inr (Or.inr rfl))
      exact Or.inl ⟨_, rfl⟩
  | spawn p =>
      obtain ⟨k₁, hcall, rfl⟩ := Option.map_eq_some_iff.1 h
      have hsys := call_sys hcall
      exact Or.inr ⟨_, hsys⟩
  | finish p => exact Or.inr ⟨_, call_sys (Option.ite_none_right_eq_some.1 h).2⟩
  | notify t e => exact Or.inr ⟨_, call_sys h⟩
  | lock p => exact Or.inr ⟨_, call_sys (Option.ite_none_right_eq_some.1 h).2⟩
  | unlock p => exact Or.inr ⟨_, call_sys h⟩
  | drain => exact Or.inr ⟨_, call_sys (Option.ite_none_right_eq_some.1 h).2⟩
  | serve x => exact Or.inr ⟨_, call_sys (Option.ite_none_right_eq_some.1 h).2⟩
  | updateTick | clearEvents | endWake =>
      obtain ⟨k₁, hcall, rfl⟩ := Option.map_eq_some_iff.1 (Option.ite_none_right_eq_some.1 h).2
      have hsys := call_sys hcall
      exact Or.inr ⟨_, hsys⟩

theorem counted_step (h : k.step a = some k') (hc : k.sys.Counted) : k'.sys.Counted := by
  rcases step_sys h with ⟨keeper, hs⟩ | ⟨c, hc'⟩
  · rw [hs]
    exact ⟨hc.nodup, hc.hwPrc, hc.alivePrc, hc.lockedPrc, hc.places⟩
  · exact System.counted_step hc hc'

/-! ### The loop keeps its part -/

theorem settled_ne_wake {s : Stage} (h : s.settled = true) : s ≠ .wake := by
  intro hs
  rw [hs] at h
  cases h

theorem LoopInv.of_same (h : LoopInv k) (hloop : SameLoop k k') (hc : k'.sys.Counted) :
    LoopInv k' := by
  refine ⟨hc, ?_, ?_⟩
  · rw [hloop.wokenPrc, hloop.stage]
    exact h.woken
  · rw [hloop.sched, hloop.now, hloop.stage]
    exact h.ahead

theorem loopInv_step (h : LoopInv k) (hstep : k.step a = some k') : LoopInv k' := by
  have hc := counted_step hstep h.counted
  by_cases hmove : a.isMove = true
  · exact h.of_same (process_frame hstep hmove).1 hc
  · rcases step_loop hstep hmove with ⟨-, hs, -, s, hs', rfl⟩ | ⟨-, hstage, o, rest, -, rfl⟩ |
      ⟨-, hstage, nextTick, hpeek, rfl⟩ | ⟨-, hstage, rfl⟩ | ⟨x, -, hstage, hx, hdue, n, rfl⟩ |
      ⟨-, hstage, hall, api, rfl, -⟩
    · refine ⟨hc, iff_of_true (h.woken.2 (settled_ne_wake hs)) (settled_ne_wake hs'), ?_⟩
      exact fun x hx => ⟨(h.ahead x hx).1, fun _ => (h.ahead x hx).2 hs⟩
    · refine ⟨hc, h.woken, ?_⟩
      intro x hx
      have hx : x ∈ (k.sys.sched.recv k.sys.now o).waitOnTick := hx
      rw [Scheduler.recv_waitOnTick, List.mem_append] at hx
      rcases hx with hx | hx
      · exact h.ahead x hx
      · have hlater := Scheduler.taskOf_tick (Option.mem_toList.1 hx)
        exact ⟨le_of_lt hlater, fun _ => hlater⟩
    · have hleast := (MinHeap.peek_eq_some_iff.1 hpeek).2
      have hne : k.stage ≠ .wake := by
        rw [hstage]
        exact Stage.noConfusion
      refine ⟨hc, iff_of_true (h.woken.2 hne) Stage.noConfusion, fun x hx => ⟨hleast x hx, ?_⟩⟩
      intro hs
      cases hs
    · refine ⟨hc, iff_of_false (Option.some_ne_none 0) fun hs => hs rfl, fun x hx => ⟨?_, ?_⟩⟩
      · exact (h.ahead x hx).1
      · intro hs
        cases hs
    · refine ⟨hc, iff_of_false (Option.some_ne_none n) fun hs => hs hstage, ?_⟩
      intro y hy
      have hy : y ∈ (k.sys.served x).sched.waitOnTick := hy
      rw [System.served_waitOnTick] at hy
      exact h.ahead y (List.mem_of_mem_erase hy)
    · refine ⟨hc, iff_of_true rfl Stage.noConfusion, ?_⟩
      intro x hx
      exact ⟨le_of_lt (hall x hx), fun _ => hall x hx⟩

/-! ### Every process keeps its part -/

theorem ready_event_iff {p : Pid} {e : Nat} :
    (k.ready p (.event e)).1 = true ↔
      e ∈ k.sys.keeper.triggeredEvents ∧ p ∉ k.sys.keeper.wokenProcess :=
  EventKeeper.isTriggered_eq_true_iff

theorem ready_delay_iff {p : Pid} {t : Tick} :
    (k.ready p (.delay t)).1 = true ↔ t ≤ k.sys.now :=
  decide_eq_true_iff

/-- Readiness depends on the loop and on whether the process has been let through. -/
private theorem ready_congr {q : Pid} (hl : SameLoop k k') (hs : SamePrc q k k') (f : Future) :
    (k'.ready q f).1 = true ↔ (k.ready q f).1 = true := by
  cases f with
  | event e => rw [ready_event_iff, ready_event_iff, hl.triggered, hs.woken]
  | delay t => rw [ready_delay_iff, ready_delay_iff, hl.now]

theorem PrcInv.of_same {q : Pid} (h : PrcInv q k) (hl : SameLoop k k') (hs : SamePrc q k k') :
    PrcInv q k' where
  queued o ho hby := by
    rw [hs.future]
    exact h.queued o ((hs.queued o hby).1 ho) hby
  sleeping t ht := by
    rw [hl.sched] at ht
    rw [hs.future]
    exact h.sleeping t ht
  waiting e he := by
    rw [hl.sched] at he
    rw [hs.future]
    exact h.waiting e he
  locked hq := by
    rw [hs.future]
    exact h.locked (hs.locked.1 hq)
  resuming hq f hf := by
    rw [hl.stage]
    exact h.resuming (hs.running.1 hq) f (hs.future ▸ hf)
  passing hq f hf := (ready_congr hl hs f).2 (h.passing (hs.running.1 hq) f (hs.future ▸ hf))
  fresh hstage e he := by
    rw [hl.sched] at he
    rw [hs.woken]
    exact h.fresh (hl.stage ▸ hstage) e he

theorem mem_sleeping {s : System} {t : Tick} {q : Pid}
    (h : Task.wakeup t q ∈ s.sched.waitOnTick) : q ∈ s.sleeping :=
  List.mem_filterMap.2 ⟨_, h, rfl⟩

theorem mem_queued {s : System} {o : Order Pid} {q : Pid} (h : o ∈ s.api.orderQ)
    (hby : System.haltedBy o = some q) : q ∈ s.queued :=
  List.mem_filterMap.2 ⟨o, h, hby⟩

/-- A process with no future and nothing pending. -/
private theorem PrcInv.of_free {q : Pid} (hc : k.sys.Counted) (hf : k.future q = none)
    (hq : q ∈ k.sys.running ∨ q ∈ k.sys.locked ∨ q ∉ k.sys.registered) : PrcInv q k := by
  obtain ⟨hqueued, hsleeping, hwaiting⟩ := hc.apart hq
  refine ⟨?_, ?_, ?_, fun _ => hf, ?_, ?_, ?_⟩
  · intro o ho hby
    exact absurd (mem_queued ho hby) hqueued
  · intro t ht
    exact absurd (mem_sleeping ht) hsleeping
  · intro e he
    exact absurd (System.mem_waiting_of_waiters he) hwaiting
  · intro _ f hf'
    rw [hf] at hf'
    cases hf'
  · intro _ f hf'
    rw [hf] at hf'
    cases hf'
  · intro _ e he
    exact absurd (System.mem_waiting_of_waiters he) hwaiting

/-- A process that has just been suspended. -/
private theorem PrcInv.of_suspend {q : Pid} {f : Future} (hc : k.sys.Counted)
    (h : k.suspend q f = some k') : PrcInv q k' := by
  obtain ⟨hrun, rfl⟩ := suspend_eq h
  obtain ⟨hqueued, hsleeping, hwaiting⟩ := hc.apart (Or.inl hrun)
  obtain ⟨honce, hlocked, -⟩ := hc.running_once hrun
  have hfut : Function.update k.future q (some f) q = some f := Function.update_self _ _ _
  refine ⟨?_, ?_, ?_, ?_, ?_, ?_, ?_⟩
  · intro o ho hby
    have ho : o ∈ (k.sys.api.pushOrder (order q f)).orderQ := ho
    rw [SchedulerAPI.pushOrder_orderQ, List.mem_append, List.mem_singleton] at ho
    rcases ho with ho | rfl
    · exact absurd (mem_queued ho hby) hqueued
    · exact ⟨f, hfut, rfl⟩
  · intro t ht
    exact absurd (mem_sleeping ht) hsleeping
  · intro e he
    exact absurd (System.mem_waiting_of_waiters he) hwaiting
  · intro hq
    exact absurd hq hlocked
  · intro hq
    exact absurd hq honce
  · intro hq
    exact absurd hq honce
  · intro _ e he
    exact absurd (System.mem_waiting_of_waiters he) hwaiting

/-- What its own move does to a process: it is left without a future, suspended on one, or polls
in vain. -/
theorem own_step {q : Pid} (hstep : k.step a = some k') (hq : a.actor = some q) (h : Inv k) :
    (k'.future q = none ∧
        (q ∈ k'.sys.running ∨ q ∈ k'.sys.locked ∨ q ∉ k'.sys.registered)) ∨
      k' = k ∨ ∃ f, k.Free q ∧ (k.ready q f).1 = false ∧ k.suspend q f = some k' := by
  have hstart : ∀ f, k.start q f = some k' →
      (k'.future q = none ∧
        (q ∈ k'.sys.running ∨ q ∈ k'.sys.locked ∨ q ∉ k'.sys.registered)) ∨
      k' = k ∨ ∃ f, k.Free q ∧ (k.ready q f).1 = false ∧ k.suspend q f = some k' := by
    intro f hs
    obtain ⟨hfree, ⟨-, rfl⟩ | ⟨hready, hs⟩⟩ := start_cases hs
    · exact Or.inl ⟨Function.update_self _ _ _, Or.inl hfree.1⟩
    · exact Or.inr (Or.inr ⟨f, hfree, hready, hs⟩)
  cases a with
  | spawn p =>
      obtain rfl := Option.some.inj hq
      simp only [step, call, System.step, Option.map_eq_some_iff, Option.ite_none_right_eq_some,
        Option.some.injEq] at hstep
      obtain ⟨-, ⟨-, ⟨-, rfl⟩, rfl⟩, rfl⟩ := hstep
      exact Or.inl ⟨Function.update_self _ _ _, Or.inl List.mem_cons_self⟩
  | finish p =>
      obtain rfl := Option.some.inj hq
      simp only [step, call, System.step, Option.map_eq_some_iff, Option.ite_none_right_eq_some,
        Option.some.injEq] at hstep
      obtain ⟨hfree, -, ⟨-, rfl⟩, rfl⟩ := hstep
      exact Or.inl ⟨hfree.2, Or.inr (Or.inr (h.loop.counted.nodup.not_mem_erase))⟩
  | wait p e | delay p t =>
      obtain rfl := Option.some.inj hq
      exact hstart _ hstep
  | lock p =>
      obtain rfl := Option.some.inj hq
      simp only [step, call, System.step, Option.map_eq_some_iff, Option.ite_none_right_eq_some,
        Option.some.injEq] at hstep
      obtain ⟨hfree, -, ⟨-, rfl⟩, rfl⟩ := hstep
      exact Or.inl ⟨hfree.2, Or.inr (Or.inl List.mem_cons_self)⟩
  | unlock p =>
      obtain rfl := Option.some.inj hq
      simp only [step, call, System.step, Option.map_eq_some_iff, Option.ite_none_right_eq_some,
        Option.some.injEq] at hstep
      obtain ⟨-, ⟨hlocked, rfl⟩, rfl⟩ := hstep
      exact Or.inl ⟨(h.prc p).locked hlocked, Or.inl List.mem_cons_self⟩
  | poll p =>
      obtain rfl := Option.some.inj hq
      obtain ⟨hrun, f, -, ⟨-, rfl⟩ | ⟨-, rfl⟩⟩ := poll_cases hstep
      · exact Or.inl ⟨Function.update_self _ _ _, Or.inl hrun⟩
      · exact Or.inr (Or.inl rfl)
  | _ => cases hq

private theorem PrcInv.sleeping_of_drained {q : Pid} (h : PrcInv q k) {o : Order Pid}
    (ho : o ∈ k.sys.api.orderQ) {t : Tick}
    (ht : Scheduler.taskOf k.sys.now o = some (.wakeup t q)) :
    ∃ t', t' ≤ t ∧ k.future q = some (.delay t') := by
  cases o with
  | waitUntil t' p =>
      obtain ⟨rfl, rfl⟩ := Task.wakeup.inj (Option.some.inj ht)
      obtain ⟨f, hf, horder⟩ := h.queued _ ho rfl
      cases f with
      | event e => cases horder
      | delay wakeAt =>
          obtain ⟨rfl, -⟩ := Order.waitUntil.inj horder
          exact ⟨t', le_max_right _ _, hf⟩
  | notifyAt t' e => cases ht
  | waitOn e p => cases ht
  | exit kind => cases ht

private theorem PrcInv.waiting_of_drained {q : Pid} (h : PrcInv q k) {o : Order Pid}
    (ho : o ∈ k.sys.api.orderQ) {e : Nat} (he : Scheduler.waiterOf e o = some q) :
    k.future q = some (.event e) := by
  cases o with
  | waitOn e' p =>
      simp only [Scheduler.waiterOf, Option.ite_none_right_eq_some, Option.some.injEq] at he
      obtain ⟨rfl, rfl⟩ := he
      obtain ⟨f, hf, horder⟩ := h.queued _ ho rfl
      cases f with
      | event e =>
          obtain ⟨rfl, -⟩ := Order.waitOn.inj horder
          exact hf
      | delay wakeAt => cases horder
  | waitUntil t' p => cases he
  | notifyAt t' e' => cases he
  | exit kind => cases he

/-- Serving a task takes readiness from no process. -/
private theorem ready_of_served {q : Pid} {x : Task Pid} {f : Future} {api : SchedulerAPI}
    {n : Option Nat} {r l w : List Pid}
    (h : (k.ready q f).1 = true) :
    (ready ⟨⟨api, (k.sys.served x).sched, (k.sys.served x).keeper, k.sys.now, n, r, l, w⟩, k.stage,
      k.future⟩ q f).1 = true := by
  cases f with
  | event e =>
      rw [ready_event_iff] at h ⊢
      show e ∈ (k.sys.served x).keeper.triggeredEvents ∧ q ∉ (k.sys.served x).keeper.wokenProcess
      rw [System.served_triggered, System.served_wokenProcess]
      exact ⟨List.mem_append_left _ h.1, h.2⟩
  | delay t =>
      rw [ready_delay_iff] at h ⊢
      exact h

/-- A process whose waker is called finds its future ready. -/
private theorem PrcInv.ready_of_called {q : Pid} (h : PrcInv q k) {x : Task Pid} {f : Future}
    {api : SchedulerAPI} {n : Option Nat} {r l w : List Pid} (hstage : k.stage = .wake)
    (hx : x ∈ k.sys.sched.waitOnTick) (hdue : x.tick ≤ k.sys.now)
    (hcalled : q ∈ k.sys.sched.called x) (hf : k.future q = some f) :
    (ready ⟨⟨api, (k.sys.served x).sched, (k.sys.served x).keeper, k.sys.now, n, r, l, w⟩, k.stage,
      k.future⟩ q f).1 = true := by
  cases x with
  | wakeup t p =>
      obtain rfl := List.mem_singleton.1 hcalled
      obtain ⟨t', hle, hdelay⟩ := h.sleeping t hx
      obtain rfl := Option.some.inj (hf.symm.trans hdelay)
      rw [ready_delay_iff]
      exact le_trans hle hdue
  | notify t e =>
      obtain rfl := Option.some.inj (hf.symm.trans (h.waiting e hcalled))
      rw [ready_event_iff]
      show e ∈ (k.sys.served (.notify t e)).keeper.triggeredEvents ∧
        q ∉ (k.sys.served (.notify t e)).keeper.wokenProcess
      rw [System.served_triggered, System.served_wokenProcess]
      exact ⟨List.mem_append_right _ List.mem_cons_self, h.fresh hstage e hcalled⟩

theorem prcInv_step {q : Pid} (h : Inv k) (hstep : k.step a = some k') : PrcInv q k' := by
  have hq := h.prc q
  have hc := counted_step hstep h.loop.counted
  by_cases hmove : a.isMove = true
  · obtain ⟨hloop, hprc⟩ := process_frame hstep hmove
    by_cases hactor : a.actor = some q
    · rcases own_step hstep hactor h with ⟨hf, hp⟩ | rfl | ⟨f, -, -, hs⟩
      · exact PrcInv.of_free hc hf hp
      · exact hq
      · exact PrcInv.of_suspend h.loop.counted hs
    · exact hq.of_same hloop (hprc q hactor)
  · rcases step_loop hstep hmove with ⟨-, hs, hended, s, hs', rfl⟩ |
      ⟨-, hstage, o, rest, hqueue, rfl⟩ | ⟨-, hstage, nextTick, hpeek, rfl⟩ | ⟨-, hstage, rfl⟩ |
      ⟨x, -, hstage, hx, hdue, n, rfl⟩ | ⟨-, hstage, hall, api, rfl, hapi⟩
    · refine ⟨hq.queued, hq.sleeping, hq.waiting, hq.locked, fun hrun f hf => ?_, hq.passing, ?_⟩
      · -- the delta-cycle has ended, so no process runs
        have hwait : k.stage = .wait :=
          (hq.resuming hrun f hf).resolve_right (settled_ne_wake hs)
        have hnone := h.loop.counted.ended (h.loop.woken.2 (settled_ne_wake hs)) (hended hwait)
        have hrun : q ∈ k.sys.running := hrun
        rw [hnone] at hrun
        cases hrun
      · exact fun hs => absurd hs (settled_ne_wake hs')
    · have hmem : ∀ o' ∈ rest, o' ∈ k.sys.api.orderQ := by
        intro o' ho'
        rw [hqueue]
        exact List.mem_cons_of_mem o ho'
      have ho : o ∈ k.sys.api.orderQ := by
        rw [hqueue]
        exact List.mem_cons_self
      refine ⟨fun o' ho' => hq.queued o' (hmem o' ho'), ?_, ?_, hq.locked,
        hq.resuming, hq.passing, ?_⟩
      · intro t ht
        have ht : Task.wakeup t q ∈ (k.sys.sched.recv k.sys.now o).waitOnTick := ht
        rw [Scheduler.recv_waitOnTick, List.mem_append] at ht
        rcases ht with ht | ht
        · exact hq.sleeping t ht
        · exact hq.sleeping_of_drained ho (Option.mem_toList.1 ht)
      · intro e he
        have he : q ∈ (k.sys.sched.recv k.sys.now o).waiters e := he
        rw [Scheduler.recv_waiters, List.mem_append] at he
        rcases he with he | he
        · exact hq.waiting e he
        · exact hq.waiting_of_drained ho (Option.mem_toList.1 he)
      · intro hs
        have hs : k.stage = .wake := hs
        rw [hstage] at hs
        cases hs
    · refine ⟨hq.queued, hq.sleeping, hq.waiting, hq.locked, ?_, ?_, ?_⟩
      · intro hrun f hf
        exact absurd (hq.resuming hrun f hf) (by rw [hstage]; decide)
      · intro hrun f hf
        exact absurd (hq.resuming hrun f hf) (by rw [hstage]; decide)
      · intro hs
        cases hs
    · refine ⟨hq.queued, hq.sleeping, hq.waiting, hq.locked, fun _ _ _ => Or.inr rfl, ?_, ?_⟩
      · intro hrun f hf
        exact absurd (hq.resuming hrun f hf) (by rw [hstage]; decide)
      · intro _ e he hw
        cases hw
    · have hwaiters : ∀ e, q ∈ (k.sys.served x).sched.waiters e → q ∈ k.sys.sched.waiters e := by
        intro e he
        rw [System.served_waiters] at he
        split at he
        · cases he
        · exact he
      refine ⟨hq.queued, ?_, fun e he => hq.waiting e (hwaiters e he), hq.locked,
        fun _ _ _ => Or.inr hstage, ?_, ?_⟩
      · intro t ht
        have ht : Task.wakeup t q ∈ (k.sys.served x).sched.waitOnTick := ht
        rw [System.served_waitOnTick] at ht
        exact hq.sleeping t (List.mem_of_mem_erase ht)
      · intro hrun f hf
        have hrun : q ∈ k.sys.sched.called x ++ k.sys.running := hrun
        have hf : k.future q = some f := hf
        rcases List.mem_append.1 hrun with hcalled | hrun
        · exact hq.ready_of_called hstage hx hdue hcalled hf
        · exact ready_of_served (hq.passing hrun f hf)
      · intro _ e he
        show q ∉ (k.sys.served x).keeper.wokenProcess
        rw [System.served_wokenProcess]
        exact hq.fresh hstage e (hwaiters e he)
    · refine ⟨?_, hq.sleeping, hq.waiting, hq.locked, fun _ _ _ => Or.inl rfl, hq.passing, ?_⟩
      · intro o ho
        exact hq.queued o (hapi ▸ ho)
      · intro hs
        cases hs

theorem inv_step (h : Inv k) (hstep : k.step a = some k') : Inv k' :=
  ⟨loopInv_step h.loop hstep, fun _ => prcInv_step h hstep⟩

/-- The invariant holds in every state that can be reached. -/
theorem inv_reachable {now : Tick} (h : Runs.Reachable step (init now) k) : Inv k :=
  h.inv (fun _ _ _ hi hs => inv_step hi hs) (inv_init now)

end Kernel

end Ra2m
