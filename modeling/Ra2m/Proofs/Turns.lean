/-
The loop of a kernel takes the turns of `simulate`.

`Simulate` takes a turn at a time, on the orders it drains.  A `Kernel` takes the
steps of a turn one by one, with the moves of the processes in between.  `InTurn`
says how far into a turn a kernel is: which orders it has drained and which tasks it
has served since the state `base` the turn started from.  A process touches neither
the scheduler nor the time, and a step of the loop goes on with the turn or ends it.

So what is proved of the runs of `Simulate` holds of a kernel under every
interleaving, and `serves_each_task_once` is the schedule of a kernel's run.
-/
import Ra2m.Proofs.Schedule
import Ra2m.Proofs.Confluence
import Ra2m.Proofs.EventWait

namespace Ra2m

open Scheduler

/-! ### Draining and serving one by one -/

namespace Scheduler

variable {W : Type} {cur : Tick}

/-- An order drained after others. -/
theorem drain_snoc {self s : Scheduler W} {orders : List (Order W)} {o : Order W}
    (h : self.drain cur orders = (s, none)) (ho : ∀ kind, o ≠ .exit kind) :
    self.drain cur (orders ++ [o]) = (s.recv cur o, none) := by
  induction orders generalizing self with
  | nil =>
      obtain ⟨rfl, -⟩ := Prod.mk.inj h
      cases o with
      | exit kind => exact absurd rfl (ho kind)
      | waitUntil t w => rfl
      | waitOn e w => rfl
      | notifyAt t e => rfl
  | cons o' rest ih =>
      cases o' with
      | exit kind => cases h
      | waitUntil t w => exact ih h
      | waitOn e w => exact ih h
      | notifyAt t e => exact ih h

/-- Serving a task does the same whatever is left in the heap. -/
theorem wakeTask_heap (s : Scheduler W) (heap heap' : List (Task W)) (keeper : EventKeeper)
    (wakes : List (Task W × List W)) (woken : List Nat) (x : Task W) :
    wakeTask ⟨{ s with waitOnTick := heap }, ⟨keeper.triggeredEvents, woken⟩, wakes⟩ x =
      ⟨{ (wakeTask ⟨{ s with waitOnTick := heap' }, keeper, []⟩ x).sched with waitOnTick := heap },
        ⟨(wakeTask ⟨{ s with waitOnTick := heap' }, keeper, []⟩ x).keeper.triggeredEvents, woken⟩,
        wakes ++ [(x, s.called x)]⟩ := by
  cases x with
  | wakeup t w => rfl
  | notify t e =>
      rw [wakeTask_notify, wakeTask_notify]
      rfl

end Scheduler

namespace Kernel

variable {k k' : Kernel} {a : Act} {base : Sim Pid} {orders : List (Order Pid)}
  {wakes : List (Task Pid × List Pid)}

/-- What a turn of `simulate` works on. -/
def sim (k : Kernel) : Sim Pid := ⟨k.sys.now, k.sys.sched⟩

/-- The order an action drains. -/
def drainedBy (k : Kernel) : Act → List (Tick × Order Pid)
  | .drain => (k.sys.api.orderQ.take 1).map (k.sys.now, ·)
  | _ => []

/-- The task an action serves, with the wakers it calls. -/
def servedBy (k : Kernel) : Act → List (Task Pid × List Pid)
  | .serve x => [(x, k.sys.sched.called x)]
  | _ => []

/-- The kernel is in the turn that started from `base`: it has drained `orders` and served
`wakes`. -/
inductive InTurn (base : Sim Pid) (k : Kernel) :
    List (Order Pid) → List (Task Pid × List Pid) → Prop
  | wait (hstage : k.stage = .wait) (hsim : k.sim = base) : InTurn base k [] []
  | drain {orders : List (Order Pid)} (hstage : k.stage = .drain ∨ k.stage = .advance)
      (hdrain : base.sched.drain base.now orders = (k.sys.sched, none))
      (hnow : k.sys.now = base.now) : InTurn base k orders []
  | clear {orders : List (Order Pid)} (hstage : k.stage = .clear)
      (hdrain : base.sched.drain base.now orders = (k.sys.sched, none))
      (hpeek : MinHeap.peek Task.tick k.sys.sched.waitOnTick = some k.sys.now) :
      InTurn base k orders []
  | wake {orders : List (Order Pid)} {wakes : List (Task Pid × List Pid)} {s : Scheduler Pid}
      (hstage : k.stage = .wake) (hdrain : base.sched.drain base.now orders = (s, none))
      (hpeek : MinHeap.peek Task.tick s.waitOnTick = some k.sys.now)
      -- However the heap is popped from here on, it is a way to pop the one that was drained into.
      (hpop : ∀ xs rest, MinHeap.PopUpTo Task.tick k.sys.now k.sys.sched.waitOnTick xs rest →
        MinHeap.PopUpTo Task.tick k.sys.now s.waitOnTick (wakes.map Prod.fst ++ xs) rest)
      (hwake : ∀ heap, (wakes.map Prod.fst).foldl wakeTask
        { sched := { s with waitOnTick := heap } } =
          ⟨{ k.sys.sched with waitOnTick := heap }, ⟨k.sys.keeper.triggeredEvents, []⟩, wakes⟩) :
      InTurn base k orders wakes

theorem InTurn.of_wait (h : InTurn base k orders wakes) (hstage : k.stage = .wait) :
    base = k.sim ∧ orders = [] ∧ wakes = [] := by
  cases h with
  | wait _ hsim => exact ⟨hsim.symm, rfl, rfl⟩
  | drain hs => simp [hstage] at hs
  | clear hs => simp [hstage] at hs
  | wake hs => simp [hstage] at hs

theorem InTurn.of_drain (h : InTurn base k orders wakes)
    (hstage : k.stage = .drain ∨ k.stage = .advance) :
    base.sched.drain base.now orders = (k.sys.sched, none) ∧ k.sys.now = base.now ∧
      wakes = [] := by
  cases h with
  | drain _ hdrain hnow => exact ⟨hdrain, hnow, rfl⟩
  | wait hs => simp [hs] at hstage
  | clear hs => simp [hs] at hstage
  | wake hs => simp [hs] at hstage

/-! ### No exit -/

end Kernel

/-- A process pushes no `Exit`. -/
theorem System.noExit_step {s s' : System} {c : Call} (h : NoExit s.api.orderQ)
    (hstep : s.step c = some s') : NoExit s'.api.orderQ := by
  have hpush : ∀ o : Order Pid, (∀ kind, o ≠ .exit kind) → NoExit (s.api.pushOrder o).orderQ := by
    intro o ho kind hk
    rw [SchedulerAPI.pushOrder_orderQ] at hk
    rcases List.mem_append.1 hk with hk | hk
    · exact h kind hk
    · exact ho kind (List.mem_singleton.1 hk).symm
  cases c with
  | waitUntil p t | waitOn p e =>
      simp only [step, Option.ite_none_right_eq_some, Option.some.injEq] at hstep
      obtain ⟨-, rfl⟩ := hstep
      exact hpush _ (by simp)
  | notifyAt t e =>
      obtain rfl := Option.some.inj hstep
      exact hpush _ (by simp)
  | drain =>
      simp only [step] at hstep
      split at hstep
      · cases hstep
      · rename_i o rest hqueue
        obtain rfl := Option.some.inj hstep
        intro kind hk
        refine h kind ?_
        rw [hqueue]
        exact List.mem_cons_of_mem o hk
  | updateTick =>
      simp only [step] at hstep
      split at hstep
      · obtain rfl := Option.some.inj hstep
        exact h
      · cases hstep
  | serve x | endWake =>
      simp only [step] at hstep
      split at hstep
      · simp only [Option.ite_none_right_eq_some, Option.some.injEq] at hstep
        obtain ⟨-, rfl⟩ := hstep
        exact h
      · cases hstep
  | _ =>
      simp only [step, Option.ite_none_right_eq_some, Option.some.injEq] at hstep
      obtain ⟨-, rfl⟩ := hstep
      exact h

namespace Kernel

variable {k k' : Kernel} {a : Act} {base : Sim Pid} {orders : List (Order Pid)}
  {wakes : List (Task Pid × List Pid)}

theorem noExit_step (h : NoExit k.sys.api.orderQ) (hstep : k.step a = some k') :
    NoExit k'.sys.api.orderQ := by
  rcases step_sys hstep with ⟨keeper, hs⟩ | ⟨c, hc⟩
  · rw [hs]
    exact h
  · exact System.noExit_step h hc

/-! ### One step -/

/-- A process does not disturb the turn. -/
theorem InTurn.of_same (h : InTurn base k orders wakes) (hloop : SameLoop k k') :
    InTurn base k' orders wakes := by
  cases h with
  | wait hstage hsim =>
      refine InTurn.wait (hloop.stage.trans hstage) ?_
      unfold sim
      rw [hloop.now, hloop.sched]
      exact hsim
  | drain hstage hdrain hnow =>
      rw [← hloop.stage] at hstage
      rw [← hloop.sched] at hdrain
      exact InTurn.drain hstage hdrain (hloop.now.trans hnow)
  | clear hstage hdrain hpeek =>
      rw [← hloop.sched] at hdrain hpeek
      rw [← hloop.now] at hpeek
      exact InTurn.clear (hloop.stage.trans hstage) hdrain hpeek
  | wake hstage hdrain hpeek hpop hwake =>
      rw [← hloop.now] at hpeek hpop
      rw [← hloop.sched] at hpop hwake
      rw [← hloop.triggered] at hwake
      exact InTurn.wake (hloop.stage.trans hstage) hdrain hpeek hpop hwake

/-- A step of the loop that does not end the turn goes on with it. -/
theorem inTurn_step (h : InTurn base k orders wakes) (hinv : LoopInv k)
    (hexit : NoExit k.sys.api.orderQ) (hstep : k.step a = some k') (hend : a ≠ .endWake)
    (hagain : a ≠ .again) :
    ∃ new, drainedBy k a = new.map (base.now, ·) ∧
      InTurn base k' (orders ++ new) (wakes ++ servedBy k a) := by
  by_cases hmove : a.isMove = true
  · have hnone : drainedBy k a = [] ∧ servedBy k a = [] := by
      cases a with
      | drain => cases hmove
      | serve x => cases hmove
      | _ => exact ⟨rfl, rfl⟩
    refine ⟨[], hnone.1, ?_⟩
    rw [hnone.2, List.append_nil, List.append_nil]
    exact h.of_same (process_frame hstep hmove).1
  · cases a with
    | cycleEnded =>
        simp only [step, Option.ite_none_right_eq_some, Option.some.injEq] at hstep
        obtain ⟨⟨hstage, -⟩, rfl⟩ := hstep
        obtain ⟨rfl, rfl, rfl⟩ := h.of_wait hstage
        exact ⟨[], rfl, InTurn.drain (Or.inl rfl) rfl rfl⟩
    | drained =>
        simp only [step, Option.ite_none_right_eq_some, Option.some.injEq] at hstep
        obtain ⟨⟨hstage, -⟩, rfl⟩ := hstep
        obtain ⟨hdrain, hnow, rfl⟩ := h.of_drain (Or.inl hstage)
        refine ⟨[], rfl, ?_⟩
        rw [List.append_nil]
        exact InTurn.drain (Or.inr rfl) hdrain hnow
    | drain =>
        obtain ⟨hstage, o, rest, hqueue, rfl⟩ := step_drain hstep
        have ho : ∀ kind, o ≠ .exit kind := by
          rintro kind rfl
          refine hexit kind ?_
          rw [hqueue]
          exact List.mem_cons_self
        obtain ⟨hdrain, hnow, rfl⟩ := h.of_drain (Or.inl hstage)
        refine ⟨[o], ?_, InTurn.drain (Or.inl hstage) ?_ hnow⟩
        · show (k.sys.api.orderQ.take 1).map (k.sys.now, ·) = _
          rw [hqueue, hnow]
          rfl
        · rw [hnow]
          exact drain_snoc hdrain ho
    | updateTick =>
        obtain ⟨hstage, nextTick, hpeek, rfl⟩ := step_updateTick hstep
        obtain ⟨hdrain, -, rfl⟩ := h.of_drain (Or.inr hstage)
        refine ⟨[], rfl, ?_⟩
        rw [List.append_nil]
        exact InTurn.clear rfl hdrain hpeek
    | clearEvents =>
        obtain ⟨hstage, rfl⟩ := step_clearEvents hstep
        refine ⟨[], rfl, ?_⟩
        cases h with
        | clear _ hdrain hpeek =>
            rw [List.append_nil]
            exact InTurn.wake rfl hdrain hpeek (fun _ _ hp => hp) fun _ => rfl
        | wait hs => simp [hstage] at hs
        | drain hs => simp [hstage] at hs
        | wake hs => simp [hstage] at hs
    | serve x =>
        obtain ⟨hstage, hx, hdue, n, rfl⟩ := step_serve hstep
        refine ⟨[], rfl, ?_⟩
        cases h with
        | @wake _ _ s _ hdrain hpeek hpop hwake =>
            rw [List.append_nil]
            refine InTurn.wake hstage hdrain hpeek ?_ ?_
            · intro xs rest htail
              rw [List.map_append, List.append_assoc]
              refine hpop (x :: xs) rest ?_
              rw [System.served_waitOnTick] at htail
              refine MinHeap.PopUpTo.pop ⟨List.perm_cons_erase hx, ?_⟩ hdue htail
              intro y hy
              exact hdue.trans (hinv.ahead y (List.mem_of_mem_erase hy)).1
            · intro heap
              rw [List.map_append, List.foldl_append, hwake heap]
              exact wakeTask_heap k.sys.sched heap _ k.sys.keeper wakes [] x
        | wait hs => simp [hstage] at hs
        | drain hs => simp [hstage] at hs
        | clear hs => simp [hstage] at hs
    | endWake => exact absurd rfl hend
    | again => exact absurd rfl hagain
    | _ => exact absurd rfl hmove

/-- The wake loop ends: the turn has entered a delta-cycle. -/
theorem turn_of_endWake {duration : Tick} (h : InTurn base k orders wakes)
    (hstep : k.step .endWake = some k') (hin : k.sys.now ≤ duration) :
    TurnStep duration base orders false
        (.enter ⟨k.sys.now, wakes, k.sys.keeper.triggeredEvents⟩) k'.sim ∧
      InTurn k'.sim k' [] [] := by
  obtain ⟨hstage, hfar, api, rfl, -⟩ := step_endWake hstep
  refine ⟨?_, InTurn.wait rfl rfl⟩
  cases h with
  | wake _ hdrain hpeek hpop hwake =>
      have hpopped := hpop [] _ (MinHeap.PopUpTo.stop hfar)
      rw [List.append_nil] at hpopped
      exact TurnStep.enter hdrain hpeek hin rfl hpopped (hwake _)
  | wait hs => simp [hstage] at hs
  | drain hs => simp [hstage] at hs
  | clear hs => simp [hstage] at hs

/-- `simulate` returns: the turn stops with no task left, or at a duration that has passed. -/
theorem turn_of_again (h : InTurn base k orders wakes) (hinv : LoopInv k)
    (hstep : k.step .again = some k') :
    (∃ duration kind, TurnStep duration base orders false (.stop kind) k'.sim) ∧
      InTurn k'.sim k' [] [] := by
  simp only [step, Option.ite_none_right_eq_some, Option.some.injEq] at hstep
  obtain ⟨hstage, rfl⟩ := hstep
  refine ⟨?_, InTurn.wait rfl rfl⟩
  obtain ⟨hdrain, hnow, -⟩ := h.of_drain (Or.inr hstage)
  have hsim : sim { k with stage := .wait } = ⟨base.now, k.sys.sched⟩ := by
    rw [← hnow]
    rfl
  rw [hsim]
  cases hpeek : MinHeap.peek Task.tick k.sys.sched.waitOnTick with
  | none => exact ⟨0, _, TurnStep.noHwPrc hdrain hpeek⟩
  | some nextTick =>
      obtain ⟨⟨x, hx, rfl⟩, -⟩ := MinHeap.peek_eq_some_iff.1 hpeek
      have hlater := (hinv.ahead x hx).2 (by rw [hstage]; rfl)
      exact ⟨k.sys.now, _, TurnStep.endOfTick hdrain hpeek hlater⟩

/-! ### Runs -/

/-- What a kernel keeps to be in a turn. -/
structure Turning (k : Kernel) : Prop where
  inv : Inv k
  noExit : NoExit k.sys.api.orderQ

theorem turning_step (h : Turning k) (hstep : k.step a = some k') : Turning k' :=
  ⟨inv_step h.inv hstep, noExit_step h.noExit hstep⟩

theorem turning_init (now : Tick) : Turning (init now) :=
  ⟨inv_init now, fun _ hk => List.not_mem_nil hk⟩

/-- Between two turns a kernel is in a state that `simulate` can start from. -/
theorem started_of_reachable {now : Tick} (h : Runs.Reachable Kernel.step (init now) k)
    (hstage : k.stage = .wait) : Started k.sim := by
  have hturn : Turning k ∧ ∃ base orders wakes, Started base ∧ InTurn base k orders wakes := by
    refine h.inv (I := fun k => Turning k ∧ ∃ base orders wakes, Started base ∧
      InTurn base k orders wakes) ?_ ⟨turning_init now, _, [], [], Started.new now, ?_⟩
    · rintro s a s' ⟨hturning, base, orders, wakes, hstarted, hin⟩ hstep
      refine ⟨turning_step hturning hstep, ?_⟩
      by_cases hend : a = .endWake
      · subst hend
        obtain ⟨hturn, hwait⟩ := turn_of_endWake hin hstep le_rfl
        exact ⟨_, _, _, hstarted.again (Simulate.turn hturn (Simulate.start _)), hwait⟩
      · by_cases hagain : a = .again
        · subst hagain
          obtain ⟨⟨duration, kind, hturn⟩, hwait⟩ := turn_of_again hin hturning.inv.loop hstep
          exact ⟨_, _, _, hstarted.again (Simulate.stop hturn), hwait⟩
        · obtain ⟨new, -, hnext⟩ :=
            inTurn_step hin hturning.inv.loop hturning.noExit hstep hend hagain
          exact ⟨base, _, _, hstarted, hnext⟩
    · exact InTurn.wait rfl rfl
  obtain ⟨-, base, orders, wakes, hstarted, hin⟩ := hturn
  obtain ⟨rfl, -⟩ := hin.of_wait hstage
  exact hstarted

end Kernel

/-- The orders of a turn, with the tick they are drained at. -/
def Turn.drained {W : Type} (t : Turn W) : List (Tick × Order W) := t.orders.map (t.now, ·)

/-- The task an order becomes at the tick it is drained at. -/
def Scheduler.taskAt {W : Type} (d : Tick × Order W) : Option (Task W) := taskOf d.1 d.2

/-- Without an `Exit` every order drained is scheduled. -/
theorem scheduled_eq_drained {W : Type} {turns : List (Turn W)}
    (h : ∀ t ∈ turns, NoExit t.orders) :
    scheduled turns = (turns.flatMap Turn.drained).filterMap taskAt := by
  induction turns with
  | nil => rfl
  | cons t rest ih =>
      obtain ⟨ht, hrest⟩ := List.forall_mem_cons.1 h
      rw [scheduled_cons, ht.beforeExit, ih hrest, List.flatMap_cons, List.filterMap_append,
        Turn.drained, List.filterMap_map]
      rfl

/-- A turn that enters a delta-cycle drained no `Exit`. -/
theorem noExit_of_enter {W : Type} {duration : Tick} {sim sim' : Sim W} {orders : List (Order W)}
    {early : Bool} {c : Cycle W} (h : TurnStep duration sim orders early (.enter c) sim') :
    NoExit orders := by
  cases h with
  | enter hdrain =>
      have hnone := (drain_snd_eq_none_iff sim.now sim.sched orders).1
      rw [hdrain] at hnone
      exact hnone rfl

namespace Kernel

/-- A run that starts in a turn and ends between two turns completes that turn and takes others
after it, on the orders it drains, and serves what they serve. -/
theorem simulate_of_inTurn {duration : Tick} {acts : List Act} (hin : InTurn base k orders wakes)
    (hturning : Turning k) (hrun : Runs.run Kernel.step k acts = some k')
    (hstage : k'.stage = .wait)
    (hagain : .again ∉ acts) (hdur : k'.sys.now ≤ duration) :
    ∃ turns, Simulate duration base turns k'.sim ∧ (∀ t ∈ turns, NoExit t.orders) ∧
      turns.flatMap Turn.drained =
        orders.map (base.now, ·) ++ Runs.trace Kernel.step drainedBy k acts ∧
      (cycles turns).flatMap Cycle.wakes = wakes ++ Runs.trace Kernel.step servedBy k acts := by
  induction acts generalizing k base orders wakes with
  | nil =>
      obtain rfl := Option.some.inj hrun
      obtain ⟨rfl, rfl, rfl⟩ := hin.of_wait hstage
      exact ⟨[], Simulate.start _, by simp, rfl, rfl⟩
  | cons a rest ih =>
      obtain ⟨k₁, hstep, hrest⟩ := Runs.run_cons_iff.1 hrun
      obtain ⟨hne, hagain'⟩ := List.ne_and_not_mem_of_not_mem_cons hagain
      rw [Runs.trace_cons hstep, Runs.trace_cons hstep]
      by_cases hend : a = .endWake
      · subst hend
        have hnow : k.sys.now ≤ duration :=
          (now_le_step hturning.inv hstep).trans
            ((now_le_run (inv_step hturning.inv hstep) hrest).trans hdur)
        obtain ⟨hturn, hwait⟩ := turn_of_endWake hin hstep hnow
        obtain ⟨turns, hsim, hexit, horders, hwakes⟩ :=
          ih hwait (turning_step hturning hstep) hrest hagain'
        refine ⟨_ :: turns, Simulate.turn hturn hsim,
          List.forall_mem_cons.2 ⟨noExit_of_enter hturn, hexit⟩, ?_, ?_⟩
        · rw [List.flatMap_cons, horders]
          rfl
        · show wakes ++ (cycles turns).flatMap Cycle.wakes = _
          rw [hwakes]
          rfl
      · obtain ⟨new, hdrained, hnext⟩ :=
          inTurn_step hin hturning.inv.loop hturning.noExit hstep hend hne.symm
        obtain ⟨turns, hsim, hexit, horders, hwakes⟩ :=
          ih hnext (turning_step hturning hstep) hrest hagain'
        refine ⟨turns, hsim, hexit, ?_, ?_⟩
        · rw [horders, hdrained, List.map_append, List.append_assoc]
        · rw [hwakes, List.append_assoc]

/-- A run between two turns is a run of `simulate`: on the orders it drains, it serves the same
tasks and calls the same wakers. -/
theorem simulate_of_run {now duration : Tick} {acts : List Act}
    (hreach : Runs.Reachable Kernel.step (init now) k) (hstage : k.stage = .wait)
    (hrun : Runs.run Kernel.step k acts = some k') (hstage' : k'.stage = .wait)
    (hagain : .again ∉ acts) (hdur : k'.sys.now ≤ duration) :
    ∃ turns, Simulate duration k.sim turns k'.sim ∧ (∀ t ∈ turns, NoExit t.orders) ∧
      turns.flatMap Turn.drained = Runs.trace Kernel.step drainedBy k acts ∧
      (cycles turns).flatMap Cycle.wakes = Runs.trace Kernel.step servedBy k acts := by
  have hturning : Turning k :=
    hreach.inv (fun _ _ _ hi hs => turning_step hi hs) (turning_init now)
  exact simulate_of_inTurn (InTurn.wait hstage rfl) hturning hrun hstage' hagain hdur

/-- Whatever the processes do in between, a run between two turns serves each task up to its last
tick once, those in the heap and those its orders become, and keeps the others in the heap. -/
theorem serves_each_task_once {now : Tick} {acts : List Act}
    (hreach : Runs.Reachable Kernel.step (init now) k) (hstage : k.stage = .wait)
    (hrun : Runs.run Kernel.step k acts = some k') (hstage' : k'.stage = .wait)
    (hagain : .again ∉ acts) :
    ((Runs.trace Kernel.step servedBy k acts).map Prod.fst).Perm ((k.sys.sched.waitOnTick ++
        (Runs.trace Kernel.step drainedBy k acts).filterMap taskAt).filter
          fun x => x.tick ≤ k'.sys.now) ∧
      k'.sys.sched.waitOnTick.Perm ((k.sys.sched.waitOnTick ++
        (Runs.trace Kernel.step drainedBy k acts).filterMap taskAt).filter
          fun x => k'.sys.now < x.tick) := by
  obtain ⟨turns, hsim, hexit, horders, hwakes⟩ :=
    simulate_of_run hreach hstage hrun hstage' hagain le_rfl
  have hserved := hsim.served (started_of_reachable hreach hstage).future
  rw [scheduled_eq_drained hexit, horders] at hserved
  refine ⟨?_, hserved.left⟩
  rw [← hwakes, List.map_flatMap]
  exact hserved.reached

end Kernel

end Ra2m
