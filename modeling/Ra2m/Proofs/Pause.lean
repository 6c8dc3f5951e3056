/-
A simulation in two calls.

A call that returns at `duration` leaves the heap, the event map, the counters and the
tick as they are before the turn that would go beyond it, with the queue drained.  The
next call drains nothing, so its first turn is the one the first call did not take.
Only an `Exit` order is lost to the second call, and no process sends one here.

Both directions go by induction on a call: each turn of the longer one is a turn of
the shorter one as long as its tick is within the shorter duration.
-/
import Ra2m.Sim.Simulate
import Ra2m.Proofs.Confluence

namespace Ra2m

open Scheduler

namespace SharedApi

theorem afterExit_of_noExit {orders : List (Order Pid)} (h : NoExit orders) :
    afterExit orders = [] := by
  unfold afterExit
  rw [h.beforeExit]
  exact List.drop_of_length_le (Nat.le_succ _)

theorem drained_drained {api : SharedApi} (h : NoExit api.orderQ) :
    api.drained.drained = api.drained := by
  unfold drained
  rw [afterExit_of_noExit h]
  rfl

theorem resolved_drained {api : SharedApi} (h : api.Resolved) : api.drained.Resolved :=
  ⟨h.1, le_refl 0⟩

end SharedApi

section

variable {duration d₁ d₂ : Tick} {sim sim' : Sim Pid} {orders : List (Order Pid)} {early : Bool}
  {kind : ExitKind} {c : Cycle Pid} {out : Outcome Pid} {s : Scheduler Pid}

/-- A turn on an empty queue, from where the orders have been drained, is the turn on them. -/
theorem turnStep_drained (h : sim.sched.drain sim.now orders = (s, none)) :
    TurnStep duration ⟨sim.now, s⟩ [] early out sim' ↔
      TurnStep duration sim orders early out sim' := by
  have hnil : s.drain sim.now [] = (s, none) := rfl
  constructor
  · intro hturn
    cases hturn with
    | exit hd => cases hd
    | noHwPrc hd hpeek =>
        obtain ⟨rfl, -⟩ := Prod.mk.inj hd
        exact .noHwPrc h hpeek
    | endOfTick hd hpeek hend =>
        obtain ⟨rfl, -⟩ := Prod.mk.inj hd
        exact .endOfTick h hpeek hend
    | earlyExit hd hpeek hin hearly =>
        obtain ⟨rfl, -⟩ := Prod.mk.inj hd
        exact .earlyExit h hpeek hin hearly
    | enter hd hpeek hin hearly hpop hwake =>
        obtain ⟨rfl, -⟩ := Prod.mk.inj hd
        exact .enter h hpeek hin hearly hpop hwake
  · intro hturn
    cases hturn with
    | exit hd =>
        obtain ⟨-, hnone⟩ := Prod.mk.inj (hd.symm.trans h)
        cases hnone
    | noHwPrc hd hpeek =>
        obtain ⟨rfl, -⟩ := Prod.mk.inj (hd.symm.trans h)
        exact .noHwPrc hnil hpeek
    | endOfTick hd hpeek hend =>
        obtain ⟨rfl, -⟩ := Prod.mk.inj (hd.symm.trans h)
        exact .endOfTick hnil hpeek hend
    | earlyExit hd hpeek hin hearly =>
        obtain ⟨rfl, -⟩ := Prod.mk.inj (hd.symm.trans h)
        exact .earlyExit hnil hpeek hin hearly
    | enter hd hpeek hin hearly hpop hwake =>
        obtain ⟨rfl, -⟩ := Prod.mk.inj (hd.symm.trans h)
        exact .enter hnil hpeek hin hearly hpop hwake

/-- A turn that stops leaves the orders drained and the tick as it was. -/
theorem turnStep_stop (hexit : NoExit orders)
    (h : TurnStep duration sim orders early (.stop kind) sim') :
    sim.sched.drain sim.now orders = (sim'.sched, none) ∧ sim'.now = sim.now := by
  cases h with
  | exit hd =>
      have hnone := (drain_snd_eq_none_iff sim.now sim.sched orders).mpr hexit
      rw [hd] at hnone
      cases hnone
  | noHwPrc hd hpeek => exact ⟨hd, rfl⟩
  | endOfTick hd hpeek hend => exact ⟨hd, rfl⟩
  | earlyExit hd hpeek hin hearly => exact ⟨hd, rfl⟩

/-- A turn of a shorter call that enters a delta-cycle is one of a longer call. -/
theorem turnStep_mono (hd : d₁ ≤ d₂) (h : TurnStep d₁ sim orders early (.enter c) sim') :
    TurnStep d₂ sim orders early (.enter c) sim' := by
  cases h with
  | enter hdrain hpeek hin hearly hpop hwake =>
      exact .enter hdrain hpeek (hin.trans hd) hearly hpop hwake

/-- Where a longer call takes a turn, a shorter one takes the same or stops. -/
theorem turnStep_shorten (hd : d₁ ≤ d₂) (h : TurnStep d₂ sim orders early out sim') :
    TurnStep d₁ sim orders early out sim' ∧ (∃ c, out = .enter c) ∨
      ∃ kind sim₁, TurnStep d₁ sim orders early (.stop kind) sim₁ := by
  cases h with
  | exit hdrain => exact Or.inr ⟨_, _, .exit hdrain⟩
  | noHwPrc hdrain hpeek => exact Or.inr ⟨_, _, .noHwPrc hdrain hpeek⟩
  | endOfTick hdrain hpeek hend =>
      exact Or.inr ⟨_, _, .endOfTick hdrain hpeek (hd.trans_lt hend)⟩
  | @earlyExit s nextTick hdrain hpeek hin hearly =>
      by_cases hle : nextTick ≤ d₁
      · exact Or.inr ⟨_, _, .earlyExit hdrain hpeek hle hearly⟩
      · exact Or.inr ⟨_, _, .endOfTick hdrain hpeek (not_le.mp hle)⟩
  | @enter s nextTick popped rest b hdrain hpeek hin hearly hpop hwake =>
      by_cases hle : nextTick ≤ d₁
      · exact Or.inl ⟨.enter hdrain hpeek hle hearly hpop hwake, _, rfl⟩
      · exact Or.inr ⟨_, _, .endOfTick hdrain hpeek (not_le.mp hle)⟩

end

/-! ### Two calls -/

section

variable {P : Type} {react : React P} {d₁ d₂ : Tick} {w w' : World P} {cs : List (Cycle Pid)}
  {kind : ExitKind}

/-- A call from where another one has stopped does what it would have done from where that one took
its last turn. -/
theorem simulated_turned {kind₁ : ExitKind} {sim₁ : Sim Pid} (hexit : NoExit w.api.orderQ)
    (hresolved : w.api.Resolved)
    (hstop : TurnStep d₁ w.sim w.api.orderQ w.api.forceEarlyExit (.stop kind₁) sim₁) :
    Simulated react d₂ (w.turned sim₁) cs kind w' ↔ Simulated react d₂ w cs kind w' := by
  obtain ⟨hdrain, hnow⟩ := turnStep_stop hexit hstop
  have hsim : sim₁ = ⟨w.sim.now, sim₁.sched⟩ := by rw [← hnow]
  have hturns : ∀ out sim', TurnStep d₂ (w.turned sim₁).sim (w.turned sim₁).api.orderQ
      (w.turned sim₁).api.forceEarlyExit out sim' ↔
        TurnStep d₂ w.sim w.api.orderQ w.api.forceEarlyExit out sim' := by
    intro out sim'
    show TurnStep d₂ sim₁ (SharedApi.afterExit w.api.orderQ) w.api.forceEarlyExit out sim' ↔ _
    rw [SharedApi.afterExit_of_noExit hexit, hsim]
    exact turnStep_drained hdrain
  have htwice : ∀ sim', (w.turned sim₁).turned sim' = w.turned sim' := by
    intro sim'
    unfold World.turned
    rw [SharedApi.drained_drained hexit]
  constructor
  · intro h
    cases h with
    | stop _ hturn =>
        rw [htwice]
        exact .stop hresolved ((hturns _ _).mp hturn)
    | turn _ hturn hrest =>
        rw [htwice] at hrest
        exact .turn hresolved ((hturns _ _).mp hturn) hrest
  · intro h
    have hresolved' : (w.turned sim₁).api.Resolved := SharedApi.resolved_drained hresolved
    cases h with
    | stop _ hturn =>
        have hagain : Simulated react d₂ (w.turned sim₁) [] kind _ :=
          .stop hresolved' ((hturns _ _).mpr hturn)
        rw [htwice] at hagain
        exact hagain
    | turn _ hturn hrest =>
        rw [← htwice] at hrest
        exact .turn hresolved' ((hturns _ _).mpr hturn) hrest

/-- Two calls, the second at least as long, and one: the same delta-cycles, with the same processes
woken and the same events fired, the same end and the same world, whatever the processes do when
they are woken, as long as none of them asks for the end. -/
theorem simulated_twice_iff (hd : d₁ ≤ d₂) (hexit : NoExit w.api.orderQ)
    (hreact : ∀ tick woken prcs api keeper,
      NoExit (react tick woken prcs api keeper).2.1.orderQ) :
    (∃ cs₁ kind₁ w₁ cs₂, Simulated react d₁ w cs₁ kind₁ w₁ ∧ Simulated react d₂ w₁ cs₂ kind w' ∧
        cs = cs₁ ++ cs₂) ↔
      Simulated react d₂ w cs kind w' := by
  constructor
  · rintro ⟨cs₁, kind₁, w₁, cs₂, h₁, h₂, rfl⟩
    -- The turns of the first call are turns of the longer one.
    induction h₁ with
    | stop hresolved hstop => exact (simulated_turned hexit hresolved hstop).mp h₂
    | turn hresolved hturn _ ih =>
        exact .turn hresolved (turnStep_mono hd hturn) (ih (hreact _ _ _ _ _) h₂)
  · intro h
    induction h with
    | @stop w kind sim' hresolved hturn =>
        rcases turnStep_shorten hd hturn with ⟨-, c, hout⟩ | ⟨kind₁, sim₁, hstop⟩
        · cases hout
        · exact ⟨[], kind₁, _, [], .stop hresolved hstop,
            (simulated_turned hexit hresolved hstop).mpr (.stop hresolved hturn), rfl⟩
    | @turn w w' c sim' cs kind hresolved hturn hrest ih =>
        rcases turnStep_shorten hd hturn with ⟨hturn₁, -⟩ | ⟨kind₁, sim₁, hstop⟩
        · obtain ⟨cs₁, kind₁, w₁, cs₂, h₁, h₂, rfl⟩ := ih (hreact _ _ _ _ _)
          exact ⟨c :: cs₁, kind₁, w₁, cs₂, .turn hresolved hturn₁ h₁, h₂, rfl⟩
        · exact ⟨[], kind₁, _, c :: cs, .stop hresolved hstop,
            (simulated_turned hexit hresolved hstop).mpr (.turn hresolved hturn hrest), rfl⟩

end

/-- A process that sleeps five ticks whenever it is woken. -/
def sleeper : React Unit := fun tick woken _ api keeper =>
  ((), { api with alivePrc := 0, orderQ := woken.map fun p => .waitUntil (tick + 5) p }, keeper)

/-- It has just gone to sleep. -/
def asleep : World Unit where
  sim := ⟨0, Scheduler.new⟩
  api := { capacity := 1, orderQ := [.waitUntil 5 7] }
  prcs := ()

theorem sleeper_noExit (tick : Tick) (woken : List Pid) (prcs : Unit) (api : SharedApi)
    (keeper : EventKeeper) : NoExit (sleeper tick woken prcs api keeper).2.1.orderQ := by
  intro kind hmem
  obtain ⟨p, -, hp⟩ := List.mem_map.mp hmem
  cases hp

/-- It is woken at tick 5, and would be next at tick 10. -/
theorem sleeper_simulated : Simulated sleeper 7 asleep [⟨5, [(.wakeup 5 7, [7])], []⟩] .endOfTick
    (((asleep.turned ⟨5, Scheduler.new⟩).woke sleeper ⟨5, [(.wakeup 5 7, [7])], []⟩).turned
      ⟨5, ⟨[.wakeup 10 7], SortedMap.empty⟩⟩) := by
  have hpop : MinHeap.PopUpTo Task.tick 5 [(Task.wakeup 5 7 : Task Pid)] [.wakeup 5 7] [] := by
    refine MinHeap.PopUpTo.pop ⟨List.Perm.refl _, ?_⟩ (le_refl _) (MinHeap.PopUpTo.stop ?_)
    · exact fun y hy => by cases hy
    · exact fun y hy => by cases hy
  have hin : (5 : Tick) ≤ 7 := by decide
  have hend : (7 : Tick) < 10 := by decide
  refine .turn ⟨rfl, le_refl 0⟩ ?_ (.stop ⟨rfl, le_refl 0⟩ ?_)
  · exact TurnStep.enter (s := ⟨[.wakeup 5 7], SortedMap.empty⟩)
      (b := ⟨Scheduler.new, {}, [(.wakeup 5 7, [7])]⟩) rfl rfl hin rfl hpop rfl
  · exact TurnStep.endOfTick (s := ⟨[.wakeup 10 7], SortedMap.empty⟩) rfl rfl hend

theorem simulated_twice_iff_sleeper :
    ∃ cs kind w', Simulated sleeper 7 asleep cs kind w' ∧
      ∃ cs₁ kind₁ w₁ cs₂, Simulated sleeper 3 asleep cs₁ kind₁ w₁ ∧
        Simulated sleeper 7 w₁ cs₂ kind w' ∧ cs = cs₁ ++ cs₂ := by
  refine ⟨_, _, _, sleeper_simulated, (simulated_twice_iff (by decide) ?_ sleeper_noExit).mpr
    sleeper_simulated⟩
  intro kind hmem
  cases List.mem_singleton.mp hmem

end Ra2m
