/-
Every task is served once, at its tick.

A drained order becomes a task that lies after the tick it was drained at, so at
the end of each drain the whole heap lies in the future.  The next tick is the
least one in the heap and the wake loop pops exactly the tasks of that tick, which
is the step, `enter_spec`.  The run follows by induction: the delta-cycles come in
strictly increasing order, each serves the tasks scheduled for its tick and nothing
else, and what has not been reached is still in the heap.

Which of several tasks of one tick is popped first is left open throughout.
-/
import Ra2m.Sim.Scheduler

namespace Ra2m

open Scheduler

variable {W : Type} {duration : Tick}

namespace Sim

/-- Every task in the heap lies after the current tick. -/
def Future (sim : Sim W) : Prop := ∀ x ∈ sim.sched.waitOnTick, sim.now < x.tick

/-- The heap once the orders are drained. -/
def pending (sim : Sim W) (orders : List (Order W)) : List (Task W) :=
  sim.sched.waitOnTick ++ (beforeExit orders).filterMap (taskOf sim.now)

/-- Draining keeps the heap in the future. -/
theorem Future.pending {sim : Sim W} (h : sim.Future) (orders : List (Order W)) :
    ∀ x ∈ sim.pending orders, sim.now < x.tick := by
  intro x hx
  rcases List.mem_append.1 hx with hx | hx
  · exact h x hx
  · obtain ⟨o, -, ho⟩ := List.mem_filterMap.1 hx
    exact taskOf_tick ho

end Sim

/-! ### One delta-cycle -/

/-- A delta-cycle is entered at the least tick of the heap, serves the tasks of that tick and
leaves the later ones. -/
theorem enter_spec {sim sim' : Sim W} {orders : List (Order W)} {early : Bool} {c : Cycle W}
    (h : TurnStep duration sim orders early (.enter c) sim') (hfut : sim.Future) :
    sim.now < c.tick ∧ c.tick ≤ duration ∧ sim'.now = c.tick ∧
      c.popped.Perm ((sim.pending orders).filter fun x => x.tick = c.tick) ∧
      sim'.sched.waitOnTick.Perm ((sim.pending orders).filter fun x => c.tick < x.tick) ∧
      (sim.pending orders).Perm (c.popped ++ sim'.sched.waitOnTick) ∧
      c.triggered = c.popped.filterMap Task.event? ∧
      ∀ y ∈ c.wakes, ∀ w, y.1.waker? = some w → y.2 = [w] := by
  cases h with
  | @enter s nextTick popped rest b hdrain hpeek hin hearly hpop hwake =>
      have hheap : s.waitOnTick = sim.pending orders := by
        have := drain_waitOnTick sim.now sim.sched orders
        rwa [hdrain] at this
      obtain ⟨⟨x, hx, hxt⟩, hleast⟩ := MinHeap.peek_eq_some_iff.1 hpeek
      rw [hheap] at hpop hx hleast
      obtain ⟨hrest, htrig, ys, hys, hfst, hown⟩ :=
        foldl_wakeTask { sched := { s with waitOnTick := rest } } popped
      rw [hwake] at hrest htrig hys
      rw [List.nil_append] at hys htrig
      have hpopped : (⟨nextTick, b.wakes, b.keeper.triggeredEvents⟩ : Cycle W).popped = popped := by
        show b.wakes.map Prod.fst = popped
        rw [hys, hfst]
      refine ⟨?_, hin, rfl, ?_, ?_, ?_, ?_, ?_⟩
      · show sim.now < nextTick
        rw [← hxt]
        exact hfut.pending orders x hx
      · rw [hpopped]
        -- The least tick is the only one at or below itself.
        have hsame : (sim.pending orders).filter (fun x => x.tick ≤ nextTick) =
            (sim.pending orders).filter (fun x => x.tick = nextTick) := by
          apply List.filter_congr
          intro y hy
          have hle := hleast y hy
          rw [decide_eq_decide]
          exact ⟨fun h => le_antisymm h hle, fun h => h.le⟩
        show popped.Perm ((sim.pending orders).filter fun x => x.tick = nextTick)
        rw [← hsame]
        exact hpop.popped_perm
      · show b.sched.waitOnTick.Perm ((sim.pending orders).filter fun x => nextTick < x.tick)
        rw [hrest]
        exact hpop.left_perm
      · rw [hpopped]
        show (sim.pending orders).Perm (popped ++ b.sched.waitOnTick)
        rw [hrest]
        exact hpop.perm
      · rw [hpopped]
        exact htrig
      · intro y hy
        exact hown y (hys ▸ hy)

/-- A turn that stops the loop only drains. -/
theorem stop_spec {sim sim' : Sim W} {orders : List (Order W)} {early : Bool} {kind : ExitKind}
    (h : TurnStep duration sim orders early (.stop kind) sim') :
    sim'.now = sim.now ∧ sim'.sched.waitOnTick = sim.pending orders := by
  have hheap := drain_waitOnTick sim.now sim.sched orders
  cases h with
  | exit hdrain | noHwPrc hdrain hpeek | endOfTick hdrain hpeek hend =>
      rw [hdrain] at hheap
      exact ⟨rfl, hheap⟩
  | earlyExit hdrain hpeek hin hearly =>
      rw [hdrain] at hheap
      exact ⟨rfl, hheap⟩

/-- A delta-cycle leaves the heap in the future of its own tick. -/
theorem enter_future {sim sim' : Sim W} {orders : List (Order W)} {early : Bool} {c : Cycle W}
    (h : TurnStep duration sim orders early (.enter c) sim') (hfut : sim.Future) : sim'.Future := by
  obtain ⟨-, -, hnow, -, hleft, -⟩ := enter_spec h hfut
  intro x hx
  rw [hnow]
  simpa using (List.mem_filter.1 (hleft.mem_iff.1 hx)).2

/-! ### Runs -/

theorem Simulate.future {sim sim' : Sim W} {turns : List (Turn W)}
    (h : Simulate duration sim turns sim') (hfut : sim.Future) : sim'.Future := by
  induction h with
  | start => exact hfut
  | stop hturn =>
      obtain ⟨hnow, hheap⟩ := stop_spec hturn
      intro x hx
      rw [hnow]
      exact hfut.pending _ x (hheap ▸ hx)
  | turn hturn _ ih => exact ih (enter_future hturn hfut)

/-- A `simulate` call starts with its heap in the future. -/
theorem Started.future {sim : Sim W} (h : Started sim) : sim.Future := by
  induction h with
  | new now =>
      intro x hx
      cases hx
  | again _ hrun ih => exact hrun.future ih

theorem scheduled_cons (t : Turn W) (turns : List (Turn W)) :
    scheduled (t :: turns) =
      (beforeExit t.orders).filterMap (taskOf t.now) ++ scheduled turns := rfl

/-- The orders of a run become tasks after the tick it starts at, and it ends no earlier. -/
theorem Simulate.scheduled_gt {sim sim' : Sim W} {turns : List (Turn W)}
    (h : Simulate duration sim turns sim') (hfut : sim.Future) :
    (∀ x ∈ scheduled turns, sim.now < x.tick) ∧ sim.now ≤ sim'.now := by
  induction h with
  | start sim =>
      refine ⟨?_, le_refl _⟩
      intro x hx
      cases hx
  | @stop sim sim' orders early kind hturn =>
      obtain ⟨hnow, -⟩ := stop_spec hturn
      refine ⟨?_, hnow.ge⟩
      intro x hx
      rw [scheduled_cons] at hx
      rcases List.mem_append.1 hx with hx | hx
      · exact hfut.pending orders x (List.mem_append_right _ hx)
      · cases hx
  | @turn sim sim₁ sim' orders early c turns hturn hrest ih =>
      obtain ⟨hlt, -, hnow, -⟩ := enter_spec hturn hfut
      obtain ⟨hsch, hle⟩ := ih (enter_future hturn hfut)
      rw [hnow] at hsch hle
      refine ⟨?_, hlt.le.trans hle⟩
      intro x hx
      rw [scheduled_cons] at hx
      rcases List.mem_append.1 hx with hx | hx
      · exact hfut.pending orders x (List.mem_append_right _ hx)
      · exact hlt.trans (hsch x hx)

/-! ### The schedule of a run -/

/-- What a run does with the tasks `all`, those it started with and those its orders became. -/
structure Served (duration : Tick) (sim sim' : Sim W) (cs : List (Cycle W)) (all : List (Task W)) :
    Prop where
  /-- The delta-cycles come in strictly increasing order, from the tick of the start on. -/
  increasing : (sim.now :: cs.map Cycle.tick).Pairwise (· < ·)
  last : (sim.now :: cs.map Cycle.tick).getLast? = some sim'.now
  bounded : ∀ c ∈ cs, c.tick ≤ duration
  /-- Each delta-cycle serves the tasks of its tick, each as often as it was scheduled. -/
  served : ∀ c ∈ cs, c.popped.Perm (all.filter fun x => x.tick = c.tick)
  /-- A wakeup calls its waker once, and a notification fires its event once. -/
  wakes : ∀ c ∈ cs, ∀ y ∈ c.wakes, ∀ w, y.1.waker? = some w → y.2 = [w]
  fired : ∀ c ∈ cs, c.triggered = c.popped.filterMap Task.event?
  /-- Together the delta-cycles serve the tasks up to the last tick, and the heap holds the rest. -/
  reached : (cs.flatMap Cycle.popped).Perm (all.filter fun x => x.tick ≤ sim'.now)
  left : sim'.sched.waitOnTick.Perm (all.filter fun x => sim'.now < x.tick)

/-- A filter that asks for more than the one before it. -/
private theorem filter_perm_of_imp {α : Type} {p q : α → Prop} [DecidablePred p] [DecidablePred q]
    {l l' : List α} (h : l.Perm (l'.filter p)) (himp : ∀ x, q x → p x) :
    (l.filter q).Perm (l'.filter q) := by
  have hq := h.filter q
  rw [List.filter_filter] at hq
  refine hq.trans (List.Perm.of_eq ?_)
  apply List.filter_congr
  intro x _
  by_cases hx : q x
  · simp [hx, himp x hx]
  · simp [hx]

private theorem filter_eq_nil_of {α : Type} {p : α → Prop} [DecidablePred p] {l : List α}
    (h : ∀ x ∈ l, ¬ p x) : l.filter p = [] := by
  rw [List.filter_eq_nil_iff]
  intro x hx
  simpa using h x hx

private theorem filter_eq_self_of {α : Type} {p : α → Prop} [DecidablePred p] {l : List α}
    (h : ∀ x ∈ l, p x) : l.filter p = l := by
  rw [List.filter_eq_self]
  intro x hx
  simpa using h x hx

/-- A run without a delta-cycle leaves all its tasks in the heap. -/
private theorem served_idle {sim sim' : Sim W} {all : List (Task W)} (hnow : sim'.now = sim.now)
    (hheap : sim'.sched.waitOnTick = all) (hfut : ∀ x ∈ all, sim.now < x.tick) :
    Served duration sim sim' [] all where
  increasing := List.pairwise_singleton _ _
  last := congrArg some hnow.symm
  bounded := by
    intro c hc
    cases hc
  served := by
    intro c hc
    cases hc
  wakes := by
    intro c hc
    cases hc
  fired := by
    intro c hc
    cases hc
  reached := by
    rw [filter_eq_nil_of]
    · exact List.Perm.refl _
    · intro x hx
      rw [hnow]
      exact not_le.2 (hfut x hx)
  left := by
    rw [filter_eq_self_of]
    · exact List.Perm.of_eq hheap
    · intro x hx
      rw [hnow]
      exact hfut x hx

/-- One delta-cycle in front of a run that serves what that delta-cycle left and `sch`. -/
private theorem served_cons {sim sim₁ sim' : Sim W} {orders : List (Order W)} {early : Bool}
    {c : Cycle W} {cs : List (Cycle W)} {sch : List (Task W)}
    (hturn : TurnStep duration sim orders early (.enter c) sim₁) (hfut : sim.Future)
    (hsch : ∀ x ∈ sch, c.tick < x.tick) (hle : c.tick ≤ sim'.now)
    (h : Served duration sim₁ sim' cs (sim₁.sched.waitOnTick ++ sch)) :
    Served duration sim sim' (c :: cs) (sim.pending orders ++ sch) := by
  obtain ⟨hlt, hin, hnow, hpopped, hleft, hsplit, hfired, hown⟩ := enter_spec hturn hfut
  have hinc := h.increasing
  rw [hnow] at hinc
  have hlater : ∀ c' ∈ cs, c.tick < c'.tick := by
    intro c' hc'
    exact (List.pairwise_cons.1 hinc).1 _ (List.mem_map_of_mem hc')
  -- Beyond the tick of `c` the tasks it left are all there were.
  have hbeyond : ∀ (q : Task W → Prop) [DecidablePred q], (∀ x, q x → c.tick < x.tick) →
      ((sim₁.sched.waitOnTick ++ sch).filter q).Perm ((sim.pending orders ++ sch).filter q) := by
    intro q _ hq
    rw [List.filter_append, List.filter_append]
    exact (filter_perm_of_imp hleft hq).append_right _
  refine ⟨?_, ?_, ?_, ?_, ?_, ?_, ?_, ?_⟩
  · rw [List.map_cons, List.pairwise_cons]
    refine ⟨?_, hinc⟩
    intro t ht
    rcases List.mem_cons.1 ht with rfl | ht
    · exact hlt
    · exact hlt.trans ((List.pairwise_cons.1 hinc).1 t ht)
  · have hlast := h.last
    rw [hnow] at hlast
    rw [List.map_cons, List.getLast?_cons_cons]
    exact hlast
  · exact List.forall_mem_cons.2 ⟨hin, h.bounded⟩
  · refine List.forall_mem_cons.2 ⟨?_, ?_⟩
    · rw [List.filter_append, filter_eq_nil_of fun x hx => (hsch x hx).ne', List.append_nil]
      exact hpopped
    · intro c' hc'
      exact (h.served c' hc').trans (hbeyond _ fun x hx => hx ▸ hlater c' hc')
  · exact List.forall_mem_cons.2 ⟨hown, h.wakes⟩
  · exact List.forall_mem_cons.2 ⟨hfired, h.fired⟩
  · have hmid : ((c.popped ++ sim₁.sched.waitOnTick ++ sch).filter fun x => x.tick ≤ sim'.now).Perm
        ((sim.pending orders ++ sch).filter fun x => x.tick ≤ sim'.now) :=
      ((hsplit.append_right sch).filter _).symm
    refine List.Perm.trans ?_ hmid
    rw [List.append_assoc, List.filter_append, filter_eq_self_of]
    · exact h.reached.append_left _
    · intro x hx
      have hxt := (List.mem_filter.1 (hpopped.mem_iff.1 hx)).2
      rw [of_decide_eq_true hxt]
      exact hle
  · exact h.left.trans (hbeyond _ fun x hx => hle.trans_lt hx)

/-- A run serves the tasks it is given, each at its tick. -/
theorem Simulate.served {sim sim' : Sim W} {turns : List (Turn W)}
    (h : Simulate duration sim turns sim') (hfut : sim.Future) :
    Served duration sim sim' (cycles turns) (sim.sched.waitOnTick ++ scheduled turns) := by
  induction h with
  | start sim =>
      rw [show scheduled ([] : List (Turn W)) = [] from rfl, List.append_nil]
      exact served_idle rfl rfl hfut
  | @stop sim sim' orders early kind hturn =>
      obtain ⟨hnow, hheap⟩ := stop_spec hturn
      rw [scheduled_cons, show scheduled ([] : List (Turn W)) = [] from rfl, List.append_nil]
      exact served_idle hnow hheap (hfut.pending orders)
  | @turn sim sim₁ sim' orders early c turns hturn hrest ih =>
      have hfut₁ := enter_future hturn hfut
      have hnow := (enter_spec hturn hfut).2.2.1
      obtain ⟨hsch, hle⟩ := hrest.scheduled_gt hfut₁
      rw [hnow] at hsch hle
      rw [scheduled_cons, ← List.append_assoc]
      exact served_cons hturn hfut hsch hle (ih hfut₁)

/-- Of the delta-cycles that serve a task there is one, at the tick of the task. -/
theorem Served.once {sim sim' : Sim W} {cs : List (Cycle W)} {all : List (Task W)}
    (h : Served duration sim sim' cs all) {x : Task W} (hx : x ∈ all) (hle : x.tick ≤ sim'.now) :
    ∃ c ∈ cs, c.tick = x.tick ∧ x ∈ c.popped ∧ ∀ c' ∈ cs, x ∈ c'.popped → c' = c := by
  have htick : ∀ c ∈ cs, x ∈ c.popped → x.tick = c.tick := by
    intro c hc hxc
    simpa using (List.mem_filter.1 ((h.served c hc).mem_iff.1 hxc)).2
  have hmem : x ∈ cs.flatMap Cycle.popped :=
    h.reached.mem_iff.2 (List.mem_filter.2 ⟨hx, by simpa using hle⟩)
  obtain ⟨c, hc, hxc⟩ := List.mem_flatMap.1 hmem
  refine ⟨c, hc, (htick c hc hxc).symm, hxc, ?_⟩
  intro c' hc' hxc'
  have hinc := (List.pairwise_cons.1 h.increasing).2
  have hnodup : (cs.map Cycle.tick).Nodup := hinc.imp fun hlt => hlt.ne
  exact List.inj_on_of_nodup_map hnodup hc' hc ((htick c' hc' hxc').symm.trans (htick c hc hxc))

/-- Every run of `simulate` serves each task once, at the tick of its order or one after the drain,
if it gets there, and keeps it in the heap if it does not. -/
theorem simulate_serves_each_task_once {sim sim' : Sim W} {turns : List (Turn W)}
    (h₀ : Started sim) (h : Simulate duration sim turns sim') :
    Served duration sim sim' (cycles turns) (sim.sched.waitOnTick ++ scheduled turns) ∧
      ∀ turn ∈ turns, ∀ order ∈ beforeExit turn.orders, ∀ x, taskOf turn.now order = some x →
        (x.tick ≤ sim'.now → ∃ c ∈ cycles turns, c.tick = x.tick ∧ x ∈ c.popped ∧
          ∀ c' ∈ cycles turns, x ∈ c'.popped → c' = c) ∧
        (sim'.now < x.tick → x ∈ sim'.sched.waitOnTick) := by
  have hserved := h.served h₀.future
  refine ⟨hserved, ?_⟩
  intro turn hturn order horder x hx
  have hmem : x ∈ sim.sched.waitOnTick ++ scheduled turns :=
    List.mem_append_right _
      (List.mem_flatMap.2 ⟨turn, hturn, List.mem_filterMap.2 ⟨order, horder, hx⟩⟩)
  refine ⟨hserved.once hmem, ?_⟩
  intro hlt
  exact hserved.left.mem_iff.2 (List.mem_filter.2 ⟨hmem, by simpa using hlt⟩)

/-- Process 7 waits until tick 5. -/
theorem oneDelay : Simulate 10 (⟨0, Scheduler.new⟩ : Sim Nat)
    [⟨0, [.waitUntil 5 7], false, .enter ⟨5, [(.wakeup 5 7, [7])], []⟩⟩] ⟨5, Scheduler.new⟩ := by
  have hpop : MinHeap.PopUpTo Task.tick 5 [Task.wakeup 5 7] [.wakeup 5 7] [] := by
    refine MinHeap.PopUpTo.pop ⟨List.Perm.refl _, ?_⟩ (le_refl _) (MinHeap.PopUpTo.stop ?_)
    · intro y hy
      cases hy
    · intro y hy
      cases hy
  exact Simulate.turn (TurnStep.enter (s := ⟨[.wakeup 5 7], SortedMap.empty⟩)
    (b := ⟨Scheduler.new, {}, [(.wakeup 5 7, [7])]⟩) rfl rfl (by decide) rfl hpop rfl)
    (Simulate.start _)

theorem oneDelay_served :
    Served 10 (⟨0, Scheduler.new⟩ : Sim Nat) ⟨5, Scheduler.new⟩
      [⟨5, [(.wakeup 5 7, [7])], []⟩] [.wakeup 5 7] :=
  (simulate_serves_each_task_once (Started.new 0) oneDelay).1

end Ra2m
