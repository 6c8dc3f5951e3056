/-
What a simulation finds of the ones before it.

`initSimulation` resets the time, the alive count, the queue and the waker.  It does
not touch the other counters, the shutdown request or the fired events, so a later
simulation finds them as the earlier ones left them.  What they leave is read off
their calls: processes registered and not unregistered, locked and not unlocked,
unlocks and events since the last time they were cleared, and the queue's capacity,
which the first of them chose.

`Effect` is what one call does to these; the account of a run follows by induction on
its last call.
-/
import Ra2m.Lib.ExceptMap
import Ra2m.Sim.Globals

namespace Ra2m

open Runs

/-! ### What a run has done -/

namespace GlobalAct

/-- The events a call fires. -/
def fires : GlobalAct → List Nat
  | triggerEvent uid => [uid]
  | _ => []

/-- The capacity an `init_simulation` asks for. -/
def asksFor : GlobalAct → Option Nat
  | init args => some args.maxHwProcess
  | _ => none

end GlobalAct

/-- The calls since the last one that was `stop`, the latest first. -/
def sinceLast (stop : GlobalAct) (acts : List GlobalAct) : List GlobalAct :=
  acts.reverse.takeWhile fun a => a ≠ stop

theorem sinceLast_snoc (stop : GlobalAct) (acts : List GlobalAct) (a : GlobalAct) :
    sinceLast stop (acts ++ [a]) = if a = stop then [] else a :: sinceLast stop acts := by
  unfold sinceLast
  rw [List.reverse_append, List.reverse_singleton, List.singleton_append, List.takeWhile_cons]
  by_cases ha : a = stop
  · simp [ha]
  · simp [ha]

/-- How often a call was made since then. -/
theorem count_sinceLast_snoc {stop a x : GlobalAct} {acts : List GlobalAct} :
    (sinceLast stop (acts ++ [a])).count x =
      if a = stop then 0 else (sinceLast stop acts).count x + [a].count x := by
  rw [sinceLast_snoc]
  by_cases ha : a = stop
  · rw [if_pos ha, if_pos ha]
    rfl
  · rw [if_neg ha, if_neg ha, ← List.singleton_append, List.count_append, Nat.add_comm]

/-- The run leaves nothing behind that a simulation set up with `args` would notice. -/
structure LeavesNothing (args : InitArgs) (acts : List GlobalAct) : Prop where
  registered : acts.count .registerNewPrc = acts.count .unregisterPrc
  locked : acts.count .lockPrc = acts.count .unlockPrc
  unlocked : .unlockPrc ∉ sinceLast .clearUnlockedPrc acts
  unlockEvt : .unlockEvt ∉ sinceLast .clearUnlockEvt acts
  triggered : ∀ a ∈ sinceLast .clearTriggeredEvents acts, a.fires = []
  forceExit : .forceEarlyExit ∉ acts
  capacity : ∀ c, acts.findSome? GlobalAct.asksFor = some c → args.maxHwProcess = c

namespace Globals

/-- The counters; all zero before there are any. -/
def api (g : Globals) : SharedApi := g.schedulerApi.getD { capacity := 0 }

def capacity (g : Globals) : Option Nat := g.schedulerApi.map SharedApi.capacity

/-- What a call does to what `initSimulation` does not reset. -/
structure Effect (g : Globals) (a : GlobalAct) (g' : Globals) : Prop where
  registered : g'.api.hwPrc + [a].count .unregisterPrc = g.api.hwPrc + [a].count .registerNewPrc
  locked : g'.api.lockedPrc + [a].count .unlockPrc = g.api.lockedPrc + [a].count .lockPrc
  unlocked : g'.api.unlockedPrc =
    if a = .clearUnlockedPrc then 0 else g.api.unlockedPrc + [a].count .unlockPrc
  unlockEvt : g'.api.unlockEvt =
    if a = .clearUnlockEvt then 0 else g.api.unlockEvt + [a].count .unlockEvt
  triggered : g'.keeper.triggeredEvents =
    if a = .clearTriggeredEvents then [] else g.keeper.triggeredEvents ++ a.fires
  woken : (g.keeper.triggeredEvents = [] → g.keeper.wokenProcess = []) →
    g'.keeper.triggeredEvents = [] → g'.keeper.wokenProcess = []
  forceExit : g'.api.forceEarlyExit = (g.api.forceEarlyExit || decide (a = .forceEarlyExit))
  capacity : g'.capacity = g.capacity.or a.asksFor

variable {g g' : Globals} {a : GlobalAct}

/-- A call on the counters. -/
theorem onApi_eq_some {f : SharedApi → Option SharedApi} (h : g.onApi f = some g') :
    ∃ api api', g.schedulerApi = some api ∧ f api = some api' ∧
      g' = { g with schedulerApi := some api' } := by
  unfold onApi at h
  split at h
  · rename_i api hapi
    obtain ⟨api', hf, rfl⟩ := Option.map_eq_some_iff.mp h
    exact ⟨api, api', hapi, hf, rfl⟩
  · cases h

/-- A call that touches the counters alone. -/
theorem effect_of_api {api api' : SharedApi} (hapi : g.schedulerApi = some api)
    (hg' : g' = { g with schedulerApi := some api' })
    (hregistered : api'.hwPrc + [a].count .unregisterPrc = api.hwPrc + [a].count .registerNewPrc)
    (hlocked : api'.lockedPrc + [a].count .unlockPrc = api.lockedPrc + [a].count .lockPrc)
    (hunlocked : api'.unlockedPrc =
      if a = .clearUnlockedPrc then 0 else api.unlockedPrc + [a].count .unlockPrc)
    (hunlockEvt : api'.unlockEvt =
      if a = .clearUnlockEvt then 0 else api.unlockEvt + [a].count .unlockEvt)
    (hforce : api'.forceEarlyExit = (api.forceEarlyExit || decide (a = .forceEarlyExit)))
    (hcapacity : api'.capacity = api.capacity) (hclear : a ≠ .clearTriggeredEvents)
    (hfires : a.fires = []) (hasks : a.asksFor = none) : Effect g a g' := by
  have hbefore : g.api = api := by
    unfold Globals.api
    rw [hapi]
    rfl
  have hafter : g'.api = api' := by rw [hg']; rfl
  have hkeeper : g'.keeper = g.keeper := by rw [hg']; rfl
  refine ⟨?_, ?_, ?_, ?_, ?_, ?_, ?_, ?_⟩
  · rw [hbefore, hafter, hregistered]
  · rw [hbefore, hafter, hlocked]
  · rw [hbefore, hafter, hunlocked]
  · rw [hbefore, hafter, hunlockEvt]
  · rw [hkeeper, if_neg hclear, hfires, List.append_nil]
  · rw [hkeeper]
    exact id
  · rw [hbefore, hafter, hforce]
  · unfold Globals.capacity
    rw [hasks, Option.or_none, hg', hapi]
    exact congrArg some hcapacity

/-- A call that touches the events alone. -/
theorem effect_of_events (hapi : g'.schedulerApi = g.schedulerApi)
    (hidle : [a].count .unregisterPrc = 0 ∧ [a].count .registerNewPrc = 0 ∧
      [a].count .unlockPrc = 0 ∧ [a].count .lockPrc = 0 ∧ [a].count .unlockEvt = 0)
    (hclears : a ≠ .clearUnlockedPrc ∧ a ≠ .clearUnlockEvt ∧ a ≠ .forceEarlyExit)
    (hasks : a.asksFor = none)
    (htriggered : g'.keeper.triggeredEvents =
      if a = .clearTriggeredEvents then [] else g.keeper.triggeredEvents ++ a.fires)
    (hwoken : (g.keeper.triggeredEvents = [] → g.keeper.wokenProcess = []) →
      g'.keeper.triggeredEvents = [] → g'.keeper.wokenProcess = []) : Effect g a g' := by
  have hsame : g'.api = g.api := by
    unfold Globals.api
    rw [hapi]
  obtain ⟨hunreg, hreg, hunlock, hlock, hevt⟩ := hidle
  obtain ⟨hclear, hclear', hforce⟩ := hclears
  refine ⟨?_, ?_, ?_, ?_, htriggered, hwoken, ?_, ?_⟩
  · rw [hsame, hunreg, hreg]
  · rw [hsame, hunlock, hlock]
  · rw [hsame, if_neg hclear, hunlock, Nat.add_zero]
  · rw [hsame, if_neg hclear', hevt, Nat.add_zero]
  · rw [hsame, decide_eq_false hforce, Bool.or_false]
  · unfold Globals.capacity
    rw [hasks, Option.or_none, hapi]

/-- `initSimulation` keeps the counters it does not reset, and the capacity there is. -/
theorem reset_eq_ok {self : Option SharedApi} {maxHwProcess : Nat} {api : SharedApi}
    (h : SharedApi.reset self maxHwProcess = .ok api) :
    api = { self.getD { capacity := maxHwProcess } with
      alivePrc := 0, orderQ := [], waker := none } ∧ maxHwProcess ≤ api.capacity := by
  unfold SharedApi.reset at h
  cases self with
  | some api₀ =>
      simp only [bind, Except.bind] at h
      split at h
      · rename_i hle
        obtain rfl := Except.ok.inj h
        exact ⟨rfl, hle⟩
      · cases h
  | none =>
      unfold SharedApi.new at h
      simp only [bind, Except.bind] at h
      split at h
      · cases h
      · rename_i api₀ hnew
        split at hnew
        · cases hnew
        · obtain rfl := Except.ok.inj hnew
          split at h
          · obtain rfl := Except.ok.inj h
            exact ⟨rfl, le_refl _⟩
          · cases h

theorem initSimulation_eq_ok {args : InitArgs} {sched : Scheduler Pid}
    (h : initSimulation args g = .ok (sched, g')) :
    ∃ api, SharedApi.reset g.schedulerApi args.maxHwProcess = .ok api ∧ sched = Scheduler.new ∧
      g' = { g with
        timeKeeper := some ⟨args.startTick, args.timescale, args.timingMode⟩
        schedulerApi := some api } := by
  unfold initSimulation at h
  obtain ⟨api, hapi, h⟩ := ExceptMap.bind_eq_ok_iff.mp h
  obtain ⟨rfl, rfl⟩ := Prod.mk.inj (Except.ok.inj h)
  exact ⟨api, hapi, rfl, rfl⟩

theorem effect_init {args : InitArgs} (h : step g (.init args) = some g') :
    Effect g (.init args) g' := by
  simp only [step] at h
  split at h
  · rename_i sched g₁ hinit
    obtain rfl := Option.some.inj h
    obtain ⟨api, hreset, -, rfl⟩ := initSimulation_eq_ok hinit
    obtain ⟨rfl, -⟩ := reset_eq_ok hreset
    cases hapi : g.schedulerApi with
    | none | some api =>
        refine ⟨?_, ?_, ?_, ?_, (List.append_nil _).symm, id, ?_, ?_⟩
        all_goals simp [Globals.api, Globals.capacity, hapi, GlobalAct.asksFor]
  · cases h

theorem keeper_onEvents (f : EventKeeper → EventKeeper) (hf : f {} = {}) :
    (g.onEvents f).keeper = f g.keeper := by
  unfold onEvents keeper
  cases g.eventKeeper with
  | none => exact hf.symm
  | some store => rfl

theorem eventUid_keeper (store : EventStore) (name : String) :
    (store.eventUid name).2.toEventKeeper = store.toEventKeeper := by
  unfold EventStore.eventUid
  split
  · rfl
  · rfl

/-- What the processes passed by a fired event are is cleared with the events. -/
theorem woken_isTriggered {keeper : EventKeeper} {uid taskId : Nat}
    (h : keeper.triggeredEvents = []) : (keeper.isTriggered uid taskId).2 = keeper := by
  unfold EventKeeper.isTriggered
  rw [if_neg]
  rw [h]
  exact List.not_mem_nil

/-- Every call has its effect and no other. -/
theorem effect_of_step (h : step g a = some g') : Effect g a g' := by
  cases a with
  | init args => exact effect_init h
  | registerNewPrc | lockPrc | unlockEvt | popOrder | registerWaker _ | takeWaker | clearUnlockEvt
  | clearUnlockedPrc | addAlive _ =>
      obtain ⟨api, api', hapi, hf, hg'⟩ := onApi_eq_some h
      obtain rfl := Option.some.inj hf
      exact effect_of_api hapi hg' rfl rfl rfl rfl (Bool.or_false _).symm rfl (by simp) rfl rfl
  | unregisterPrc =>
      obtain ⟨api, api', hapi, hf, hg'⟩ := onApi_eq_some h
      split at hf
      · rename_i hpos
        obtain rfl := Option.some.inj hf
        exact effect_of_api hapi hg' (Nat.sub_add_cancel hpos) rfl rfl rfl (Bool.or_false _).symm
          rfl (by simp) rfl rfl
      · cases hf
  | unlockPrc =>
      obtain ⟨api, api', hapi, hf, hg'⟩ := onApi_eq_some h
      split at hf
      · rename_i hpos
        obtain rfl := Option.some.inj hf
        exact effect_of_api hapi hg' rfl (Nat.sub_add_cancel hpos) rfl rfl (Bool.or_false _).symm
          rfl (by simp) rfl rfl
      · cases hf
  | pushOrder order =>
      obtain ⟨api, api', hapi, hf, hg'⟩ := onApi_eq_some h
      split at hf
      · obtain rfl := Option.some.inj hf
        -- A push touches the queue and the alive count, whether it halts its process or not.
        have hpush : ∀ self : SchedulerAPI, (self.pushOrder order).hwPrc = self.hwPrc ∧
            (self.pushOrder order).lockedPrc = self.lockedPrc ∧
            (self.pushOrder order).unlockedPrc = self.unlockedPrc := by
          intro self
          unfold SchedulerAPI.pushOrder
          split
          · exact ⟨rfl, rfl, rfl⟩
          · exact ⟨rfl, rfl, rfl⟩
        obtain ⟨hhw, hlocked, hunlocked⟩ := hpush api.toSchedulerAPI
        exact effect_of_api hapi hg' hhw hlocked hunlocked rfl (Bool.or_false _).symm rfl (by simp)
          rfl rfl
      · cases hf
  | forceEarlyExit =>
      obtain ⟨api, api', hapi, hf, hg'⟩ := onApi_eq_some h
      obtain rfl := Option.some.inj hf
      exact effect_of_api hapi hg' rfl rfl rfl rfl (Bool.or_true _).symm rfl (by simp) rfl rfl
  | updateTick tick =>
      simp only [step] at h
      split at h
      · obtain rfl := Option.some.inj h
        exact effect_of_events rfl ⟨rfl, rfl, rfl, rfl, rfl⟩ (by simp) rfl
          (List.append_nil _).symm id
      · cases h
  | eventUid name =>
      obtain rfl := Option.some.inj h
      have hkeeper : keeper { g with
          eventKeeper := some ((g.eventKeeper.getD {}).eventUid name).2 } = g.keeper := by
        unfold keeper
        cases g.eventKeeper with
        | none => exact eventUid_keeper {} name
        | some store => exact eventUid_keeper store name
      refine effect_of_events rfl ⟨rfl, rfl, rfl, rfl, rfl⟩ (by simp) rfl ?_ ?_
      · rw [hkeeper]
        exact (List.append_nil _).symm
      · rw [hkeeper]
        exact id
  | clearTriggeredEvents =>
      obtain rfl := Option.some.inj h
      refine effect_of_events rfl ⟨rfl, rfl, rfl, rfl, rfl⟩ (by simp) rfl ?_ ?_
      · rw [keeper_onEvents _ rfl]
        rfl
      · rw [keeper_onEvents _ rfl]
        exact fun _ _ => rfl
  | triggerEvent uid =>
      simp only [step] at h
      split at h
      · rename_i store hstore
        obtain rfl := Option.some.inj h
        have hkeeper : (g.onEvents fun keeper => keeper.triggerEvent uid).keeper =
            g.keeper.triggerEvent uid := by
          unfold onEvents keeper
          rw [hstore]
          rfl
        refine effect_of_events rfl ⟨rfl, rfl, rfl, rfl, rfl⟩ (by simp) rfl ?_ ?_
        · rw [hkeeper]
          rfl
        · intro _ hnil
          rw [hkeeper, EventKeeper.triggerEvent_triggeredEvents] at hnil
          simp at hnil
      · cases h
  | isTriggered uid taskId =>
      obtain rfl := Option.some.inj h
      have hkeeper : (g.onEvents fun keeper => (keeper.isTriggered uid taskId).2).keeper =
          (g.keeper.isTriggered uid taskId).2 := keeper_onEvents _ (woken_isTriggered rfl)
      refine effect_of_events rfl ⟨rfl, rfl, rfl, rfl, rfl⟩ (by simp) rfl ?_ ?_
      · rw [hkeeper, EventKeeper.isTriggered_triggeredEvents]
        exact (List.append_nil _).symm
      · intro hwoken hnil
        rw [hkeeper, EventKeeper.isTriggered_triggeredEvents] at hnil
        rw [hkeeper, woken_isTriggered hnil]
        exact hwoken hnil

/-! ### The account of a run -/

/-- What is left of a run, in terms of its calls. -/
structure Account (acts : List GlobalAct) (g : Globals) : Prop where
  registered : g.api.hwPrc + acts.count .unregisterPrc = acts.count .registerNewPrc
  locked : g.api.lockedPrc + acts.count .unlockPrc = acts.count .lockPrc
  unlocked : g.api.unlockedPrc = (sinceLast .clearUnlockedPrc acts).count .unlockPrc
  unlockEvt : g.api.unlockEvt = (sinceLast .clearUnlockEvt acts).count .unlockEvt
  triggered : g.keeper.triggeredEvents =
    (sinceLast .clearTriggeredEvents acts).reverse.flatMap GlobalAct.fires
  woken : g.keeper.triggeredEvents = [] → g.keeper.wokenProcess = []
  forceExit : g.api.forceEarlyExit = decide (.forceEarlyExit ∈ acts)
  capacity : g.capacity = acts.findSome? GlobalAct.asksFor

theorem Account.empty : Account [] {} :=
  ⟨rfl, rfl, rfl, rfl, rfl, fun _ => rfl, rfl, rfl⟩

theorem Effect.account {acts : List GlobalAct} (h : Effect g a g') (hacts : Account acts g) :
    Account (acts ++ [a]) g' := by
  refine ⟨?_, ?_, ?_, ?_, ?_, ?_, ?_, ?_⟩
  · have hbefore := hacts.registered
    have hcall := h.registered
    rw [List.count_append, List.count_append]
    omega
  · have hbefore := hacts.locked
    have hcall := h.locked
    rw [List.count_append, List.count_append]
    omega
  · rw [h.unlocked, count_sinceLast_snoc, hacts.unlocked]
  · rw [h.unlockEvt, count_sinceLast_snoc, hacts.unlockEvt]
  · rw [h.triggered, sinceLast_snoc, hacts.triggered]
    by_cases ha : a = .clearTriggeredEvents
    · rw [if_pos ha, if_pos ha]
      rfl
    · rw [if_neg ha, if_neg ha, List.reverse_cons, List.flatMap_append, List.flatMap_singleton]
  · exact h.woken hacts.woken
  · rw [h.forceExit, hacts.forceExit]
    simp [List.mem_append, eq_comm]
  · rw [h.capacity, hacts.capacity, List.findSome?_append, List.findSome?_singleton]

/-- What a process leaves behind is what its calls say. -/
theorem account_of_run {acts : List GlobalAct} (hrun : run step {} acts = some g) :
    Account acts g := by
  induction acts using List.reverseRecOn generalizing g with
  | nil =>
      obtain rfl : {} = g := by simpa using hrun
      exact Account.empty
  | append_singleton acts a ih =>
      obtain ⟨g₁, hacts, hstep⟩ := run_snoc_iff.mp hrun
      exact (effect_of_step hstep).account (ih hacts)

/-! ### The next simulation -/

/-- It can be set up when the queue there is, is large enough. -/
theorem initSimulation_ok_iff {args : InitArgs} (hargs : args.maxHwProcess ≠ 0) :
    (∃ g', initSimulation args g = .ok (Scheduler.new, g')) ↔
      ∀ c, g.capacity = some c → args.maxHwProcess ≤ c := by
  constructor
  · rintro ⟨g', hinit⟩ c hc
    obtain ⟨api, hreset, -, -⟩ := initSimulation_eq_ok hinit
    obtain ⟨hapi, hle⟩ := reset_eq_ok hreset
    obtain ⟨api₀, hapi₀, rfl⟩ := Option.map_eq_some_iff.mp hc
    rw [hapi, hapi₀] at hle
    exact hle
  · intro hc
    unfold initSimulation SharedApi.reset
    cases hapi : g.schedulerApi with
    | none => simp [bind, Except.bind, SharedApi.new, hargs]
    | some api =>
        have hle : args.maxHwProcess ≤ api.capacity := by
          refine hc api.capacity ?_
          unfold Globals.capacity
          rw [hapi]
          rfl
        simp [bind, Except.bind, hle]

/-- What it sees: the counters that are not reset, the shutdown request and the fired events are
those there were. -/
theorem observe_initSimulation {args : InitArgs} {sched : Scheduler Pid}
    (h : initSimulation args g = .ok (sched, g')) :
    g'.observe = some
      { timeKeeper := some ⟨args.startTick, args.timescale, args.timingMode⟩
        hwPrc := g.api.hwPrc, alivePrc := 0, lockedPrc := g.api.lockedPrc
        unlockedPrc := g.api.unlockedPrc, unlockEvt := g.api.unlockEvt
        orderQ := [], capacity := g.capacity.getD args.maxHwProcess, waker := none
        forceEarlyExit := g.api.forceEarlyExit
        triggeredEvents := g.keeper.triggeredEvents, wokenProcess := g.keeper.wokenProcess } := by
  obtain ⟨api, hreset, -, rfl⟩ := initSimulation_eq_ok h
  obtain ⟨rfl, -⟩ := reset_eq_ok hreset
  cases hapi : g.schedulerApi with
  | none => simp [observe, keeper, Globals.api, Globals.capacity, hapi]
  | some api => simp [observe, keeper, Globals.api, Globals.capacity, hapi]

/-- A simulation set up after a run sees what the first of a process would see exactly when the run
left nothing behind. -/
theorem initSimulation_same_iff {args : InitArgs} {acts : List GlobalAct} {sched₀ : Scheduler Pid}
    {g₀ : Globals} (hrun : run step {} acts = some g)
    (hfirst : initSimulation args {} = .ok (sched₀, g₀)) :
    (∃ g', initSimulation args g = .ok (sched₀, g') ∧ g'.observe = g₀.observe) ↔
      LeavesNothing args acts := by
  have hacts := account_of_run hrun
  obtain ⟨api₀, hreset₀, rfl, -⟩ := initSimulation_eq_ok hfirst
  have hargs : args.maxHwProcess ≠ 0 := by
    intro hzero
    simp [SharedApi.reset, SharedApi.new, hzero, bind, Except.bind] at hreset₀
  have hcapacity := initSimulation_ok_iff (g := g) hargs
  rw [hacts.capacity] at hcapacity
  constructor
  · rintro ⟨g', hinit, hsame⟩
    rw [observe_initSimulation hinit, observe_initSimulation hfirst] at hsame
    simp only [Option.some.injEq, Observed.mk.injEq, true_and] at hsame
    obtain ⟨hhw, hlocked, hunlocked, hevt, hqueue, hforce, htriggered, -⟩ := hsame
    refine ⟨?_, ?_, ?_, ?_, ?_, ?_, ?_⟩
    · rw [← hacts.registered, hhw]
      exact Nat.zero_add _
    · rw [← hacts.locked, hlocked]
      exact Nat.zero_add _
    · rw [← List.count_eq_zero, ← hacts.unlocked, hunlocked]
      rfl
    · rw [← List.count_eq_zero, ← hacts.unlockEvt, hevt]
      rfl
    · rw [hacts.triggered] at htriggered
      intro a ha
      exact List.flatMap_eq_nil_iff.mp htriggered a (List.mem_reverse.mpr ha)
    · rw [hacts.forceExit] at hforce
      exact of_decide_eq_false hforce
    · intro c hc
      rw [hacts.capacity, hc] at hqueue
      exact hqueue.symm
  · intro hleaves
    obtain ⟨g', hinit⟩ := hcapacity.mpr fun c hc => (hleaves.capacity c hc).le
    have hqueue : g.capacity.getD args.maxHwProcess = args.maxHwProcess := by
      rw [hacts.capacity]
      cases hfirst : acts.findSome? GlobalAct.asksFor with
      | none => rfl
      | some c => exact (hleaves.capacity c hfirst).symm
    have htriggered : g.keeper.triggeredEvents = [] := by
      rw [hacts.triggered, List.flatMap_eq_nil_iff]
      intro a ha
      exact hleaves.triggered a (List.mem_reverse.mp ha)
    have hhw : g.api.hwPrc = 0 := by
      have hregistered := hacts.registered
      rw [hleaves.registered] at hregistered
      omega
    have hlocked : g.api.lockedPrc = 0 := by
      have hcount := hacts.locked
      rw [hleaves.locked] at hcount
      omega
    refine ⟨g', hinit, ?_⟩
    rw [observe_initSimulation hinit, observe_initSimulation hfirst, hhw, hlocked, hqueue,
      hacts.unlocked,
      hacts.unlockEvt, hacts.forceExit, hacts.woken htriggered, htriggered,
      List.count_eq_zero.mpr hleaves.unlocked, List.count_eq_zero.mpr hleaves.unlockEvt,
      decide_eq_false hleaves.forceExit]
    rfl

/-- A simulation in which one process waits until tick 5 and ends there. -/
def oneWait (args : InitArgs) : List GlobalAct :=
  [.init args, .registerNewPrc, .pushOrder (.waitUntil 5 7), .clearUnlockEvt, .clearUnlockedPrc,
    .popOrder, .updateTick 5, .clearTriggeredEvents, .addAlive 1, .unregisterPrc, .clearUnlockEvt,
    .clearUnlockedPrc]

/-- A simulation that ends at tick 5, where an event fires, while one process waits for tick 9. -/
def firedAtTheEnd (args : InitArgs) : List GlobalAct :=
  [.init args, .registerNewPrc, .eventUid "done", .pushOrder (.notifyAt 5 0),
    .pushOrder (.waitUntil 9 7), .clearUnlockEvt, .clearUnlockedPrc, .popOrder, .popOrder,
    .updateTick 5, .clearTriggeredEvents, .triggerEvent 0, .addAlive 0, .clearUnlockEvt,
    .clearUnlockedPrc]

/-- After the wait alone nothing is left. -/
theorem initSimulation_same_oneWait : ∃ g g₀ g',
    run step {} (oneWait ⟨0, 1000, .lt, 64⟩) = some g ∧
      initSimulation ⟨0, 1000, .lt, 64⟩ {} = .ok (Scheduler.new, g₀) ∧
      initSimulation ⟨0, 1000, .lt, 64⟩ g = .ok (Scheduler.new, g') ∧
      g'.observe = g₀.observe := by
  have hleaves : LeavesNothing ⟨0, 1000, .lt, 64⟩ (oneWait ⟨0, 1000, .lt, 64⟩) := by
    refine ⟨by decide, by decide, by decide, by decide, by decide, by decide, ?_⟩
    intro c hc
    exact Option.some.inj hc
  obtain ⟨g', hinit, hsame⟩ := (initSimulation_same_iff rfl rfl).mpr hleaves
  exact ⟨_, _, g', rfl, rfl, hinit, hsame⟩

/-- After the other one the next simulation, of the same arguments, counts a process it does not
have, and finds the event fired before anything fires it. -/
theorem initSimulation_leavesFired : ∃ g g₀ g',
    run step {} (firedAtTheEnd ⟨0, 1000, .lt, 64⟩) = some g ∧
      initSimulation ⟨0, 1000, .lt, 64⟩ {} = .ok (Scheduler.new, g₀) ∧
      initSimulation ⟨0, 1000, .lt, 64⟩ g = .ok (Scheduler.new, g') ∧
      g'.observe ≠ g₀.observe ∧ g'.api.hwPrc = 1 ∧ g₀.api.hwPrc = 0 ∧
      (g'.keeper.isTriggered 0 3).1 = true ∧ (g₀.keeper.isTriggered 0 3).1 = false := by
  refine ⟨_, _, _, rfl, rfl, rfl, ?_, rfl, rfl, rfl, rfl⟩
  intro hsame
  have hhw := congrArg (Option.map Observed.hwPrc) hsame
  exact absurd hhw (by decide)

end Globals

end Ra2m
