/-
Which orders lie before the tick they are checked at.

An order of a `Delay` lies after the tick it was formed at, and a notification without a
tick at it.  So an order that is formed in time can only be late if the tick moves while
it is on its way.  An `XBar` notifies at tick 10, whenever it is through with its lookup:
that order is formed late if the lookup ends after tick 10, as it does in a simulation
that starts after it.

The tick moves past an order only if a process gets to run between the end of the
delta-cycle and the move (`inTime_updateTick`): one that comes back from a lock, or is new.
-/
import Ra2m.Proofs.KernelInv
import Ra2m.Sim.OrderFlow

namespace Ra2m

theorem Order.inTime_iff {W : Type} {curTick : Tick} {order : Order W} :
    order.inTime curTick = true ↔ ∀ t, order.tick? = some t → curTick ≤ t := by
  unfold Order.inTime
  cases order.tick? with
  | none => simp
  | some t => simp

namespace OrderFlow

variable {code : Pid → PrcCode} {s s' : OrderFlow} {a : Act} {p : Pid} {o : Order Pid}

/-- The order is formed, and not drained yet. -/
def OnTheWay (s : OrderFlow) (o : Order Pid) : Prop :=
  o ∈ s.kernel.sys.api.orderQ ∨ ∃ p, s.forming p = .pushing o

/-- No debug assertion has failed, and no order on its way lies before the current tick. -/
structure Punctual (s : OrderFlow) : Prop where
  passed : s.failed = false
  inTime : ∀ o, s.OnTheWay o → o.inTime s.now = true

/-- What a step must meet: an `XBar` ends its lookup by tick 10, and the time does not move past
an order that is on its way. -/
def InTime (code : Pid → PrcCode) (s : OrderFlow) : Act → Prop
  | .enter p _ => code p = .xbarLookup → s.now ≤ 10
  | .other .updateTick =>
      ∀ nextTick, MinHeap.peek Task.tick s.kernel.sys.sched.waitOnTick = some nextTick →
        ∀ o, s.OnTheWay o → o.inTime nextTick = true
  | _ => True

/-! ### Orders of a process -/

theorem put_onTheWay {x : Forming} (h : (s.put p x).OnTheWay o) :
    s.OnTheWay o ∨ x = .pushing o := by
  rcases h with hqueue | ⟨q, hq⟩
  · exact Or.inl (Or.inl hqueue)
  · have hq : Function.update s.forming p x q = .pushing o := hq
    by_cases hqp : q = p
    · rw [hqp, Function.update_self] at hq
      exact Or.inr hq
    · rw [Function.update_of_ne hqp] at hq
      exact Or.inl (Or.inr ⟨q, hq⟩)

/-- A process that forms no order leaves everything in time. -/
theorem Punctual.put (h : Punctual s) {x : Forming} (hx : ∀ o, x ≠ .pushing o) :
    Punctual (s.put p x) :=
  ⟨h.passed, fun o ho => h.inTime o ((put_onTheWay ho).resolve_right (hx o))⟩

theorem punctual_pushing_iff (h : Punctual s) :
    Punctual (s.put p (.pushing o)) ↔ o.inTime s.now = true := by
  constructor
  · intro h'
    exact h'.inTime o (Or.inr ⟨p, Function.update_self _ _ _⟩)
  · intro ho
    refine ⟨h.passed, fun o' ho' => ?_⟩
    rcases put_onTheWay ho' with hold | hnew
    · exact h.inTime o' hold
    · cases hnew
      exact ho

/-- Only the lookup of an `XBar` names a tick of its own. -/
theorem issues_triggered_some {c : PrcCode} {evt t : Nat}
    (h : c.issues (.triggered evt (some t)) = true) : c = .xbarLookup ∧ t = 10 := by
  cases c with
  | xbarLookup => exact ⟨rfl, by simpa [PrcCode.issues] using h⟩
  | _ => cases h

/-- The code forms an order that is late only in the lookup of an `XBar`. -/
theorem punctual_enter_iff (h : Punctual s) {site : Site} (hsite : (code p).issues site = true) :
    Punctual (s.enter p site) ↔ (code p = .xbarLookup → s.now ≤ 10) := by
  cases site with
  | waitFor delay | waitUntil tick =>
      refine iff_of_true (h.put fun _ => Forming.noConfusion) fun hcode => ?_
      rw [hcode] at hsite
      cases hsite
  | handleDelay timed readyAt =>
      refine iff_of_true ?_ fun hcode => ?_
      · show Punctual (if timed && decide (s.now < readyAt) then s.put p (.yielding readyAt) else s)
        split
        · exact h.put fun _ => Forming.noConfusion
        · exact h
      · rw [hcode] at hsite
        cases hsite
  | wait evt =>
      refine iff_of_true ?_ fun hcode => ?_
      · unfold enter
        simp only
        split
        · exact ⟨h.passed, h.inTime⟩
        · exact (punctual_pushing_iff h).mpr rfl
      · rw [hcode] at hsite
        cases hsite
  | triggered evt tick =>
      show Punctual (s.put p (.pushing (.notifyAt (tick.getD s.now) evt))) ↔ _
      rw [punctual_pushing_iff h, Order.inTime_iff]
      show (∀ t, some (tick.getD s.now) = some t → s.now ≤ t) ↔ _
      cases tick with
      | none =>
          refine iff_of_true ?_ fun hcode => ?_
          · intro t ht
            exact (Option.some.inj ht).le
          · rw [hcode] at hsite
            cases hsite
      | some t =>
          obtain ⟨hcode, rfl⟩ := issues_triggered_some hsite
          refine ⟨fun h _ => h 10 rfl, fun h t ht => ?_⟩
          exact Option.some.inj ht ▸ h hcode

/-- The order a poll of a `Delay` pushes is its own, and lies after the tick of the poll. -/
theorem order_of_poll {d d' : Delay} {now : Tick} {poll : Poll} {rest : List (Order Pid)}
    (h : d.poll now p = .ok (⟨poll, o :: rest⟩, d')) :
    o = .waitUntil d.wakeAt p ∧ now < d.wakeAt := by
  unfold Delay.poll at h
  by_cases hready : d.wakeAt ≤ now
  · rw [if_pos hready] at h
    cases h
  · rw [if_neg hready] at h
    split at h
    · split at h
      · cases h
      · cases h
        exact ⟨rfl, not_le.mp hready⟩
    · cases h

/-! ### What a step leaves of the orders -/

/-- An order that passes the assertion goes to the end of the queue. -/
theorem send_frame {k k' : Kernel} (h : send k o = some k') :
    k'.sys.now = k.sys.now ∧ k'.sys.api.orderQ = k.sys.api.orderQ ++ [o] := by
  cases o with
  | waitUntil t p =>
      have hs : k.suspend p (.delay t) = some k' := h
      obtain ⟨-, rfl⟩ := Kernel.suspend_eq hs
      exact ⟨rfl, SchedulerAPI.pushOrder_orderQ _ _⟩
  | waitOn evt p =>
      have hs : k.suspend p (.event evt) = some k' := h
      obtain ⟨-, rfl⟩ := Kernel.suspend_eq hs
      exact ⟨rfl, SchedulerAPI.pushOrder_orderQ _ _⟩
  | notifyAt t evt =>
      simp only [send, Kernel.call, System.step, Option.map_eq_some_iff, Option.some.injEq] at h
      obtain ⟨-, rfl, rfl⟩ := h
      exact ⟨rfl, SchedulerAPI.pushOrder_orderQ _ _⟩
  | exit kind => cases h

/-- The other steps bring no order, and only one of them moves the time. -/
theorem plain_frame {k k' : Kernel} {a : Ra2m.Act} (h : k.step a = some k')
    (hplain : plain a = true) (ha : a ≠ .updateTick) :
    k'.sys.now = k.sys.now ∧ ∀ o ∈ k'.sys.api.orderQ, o ∈ k.sys.api.orderQ := by
  by_cases hmove : a.isMove = true
  · refine ⟨(Kernel.process_frame h hmove).1.now, ?_⟩
    cases a with
    | wait p evt => cases hplain
    | delay p t => cases hplain
    | notify t evt => cases hplain
    | poll p =>
        obtain ⟨-, f, -, ⟨-, rfl⟩ | ⟨-, rfl⟩⟩ := Kernel.poll_cases h
        · exact fun o ho => ho
        · exact fun o ho => ho
    | spawn p =>
        simp only [Kernel.step, Kernel.call, System.step, Option.map_eq_some_iff,
          Option.ite_none_right_eq_some, Option.some.injEq] at h
        obtain ⟨-, ⟨-, ⟨-, rfl⟩, rfl⟩, rfl⟩ := h
        exact fun o ho => ho
    | unlock p =>
        simp only [Kernel.step, Kernel.call, System.step, Option.map_eq_some_iff,
          Option.ite_none_right_eq_some, Option.some.injEq] at h
        obtain ⟨-, ⟨-, rfl⟩, rfl⟩ := h
        exact fun o ho => ho
    | finish p | lock p =>
        simp only [Kernel.step, Kernel.call, System.step, Option.map_eq_some_iff,
          Option.ite_none_right_eq_some, Option.some.injEq] at h
        obtain ⟨-, -, ⟨-, rfl⟩, rfl⟩ := h
        exact fun o ho => ho
    | _ => cases hmove
  · rcases Kernel.step_loop h hmove with ⟨-, -, -, st, -, rfl⟩ | ⟨-, -, o, rest, hqueue, rfl⟩ |
      ⟨htick, -⟩ | ⟨-, -, rfl⟩ | ⟨x, -, -, -, -, n, rfl⟩ | ⟨-, -, -, api, rfl, hqueue⟩
    · exact ⟨rfl, fun o ho => ho⟩
    · refine ⟨rfl, fun o' ho' => ?_⟩
      rw [hqueue]
      exact List.mem_cons_of_mem o ho'
    · exact absurd htick ha
    · exact ⟨rfl, fun o ho => ho⟩
    · exact ⟨rfl, fun o ho => ho⟩
    · exact ⟨rfl, fun o ho => hqueue ▸ ho⟩

/-! ### Runs -/

/-- An order can be late only after a step that does not meet the condition. -/
theorem punctual_step_iff (h : Punctual s) (hstep : s.step code a = some s') :
    Punctual s' ↔ InTime code s a := by
  unfold step at hstep
  rw [if_neg (by rw [h.passed]; exact Bool.false_ne_true)] at hstep
  cases a with
  | enter p site =>
      simp only [Option.ite_none_right_eq_some, Option.some.injEq] at hstep
      obtain ⟨⟨-, -, hsite⟩, rfl⟩ := hstep
      exact punctual_enter_iff h hsite
  | yielded p =>
      simp only at hstep
      split at hstep
      · obtain rfl := Option.some.inj hstep
        exact iff_of_true (h.put fun _ => Forming.noConfusion) trivial
      · cases hstep
  | pollDelay p =>
      simp only at hstep
      split at hstep
      · rename_i d hd
        split at hstep
        · rename_i order rest d' hpoll
          obtain rfl := Option.some.inj hstep
          obtain ⟨rfl, hlater⟩ := order_of_poll hpoll
          refine iff_of_true ((punctual_pushing_iff h).mpr (Order.inTime_iff.mpr ?_)) trivial
          intro t ht
          exact Option.some.inj ht ▸ hlater.le
        · obtain rfl := Option.some.inj hstep
          exact iff_of_true (h.put fun _ => Forming.noConfusion) trivial
        · cases hstep
      · cases hstep
  | push p =>
      simp only at hstep
      split at hstep
      · rename_i order hp
        have hin : order.inTime s.now = true := h.inTime order (Or.inr ⟨p, hp⟩)
        rw [if_pos hin] at hstep
        obtain ⟨k, hsend, rfl⟩ := Option.map_eq_some_iff.mp hstep
        obtain ⟨hnow, hqueue⟩ := send_frame hsend
        refine iff_of_true ⟨h.passed, fun o ho => ?_⟩ trivial
        show o.inTime k.sys.now = true
        rw [hnow]
        rcases ho with ho | ho
        · have ho : o ∈ k.sys.api.orderQ := ho
          rw [hqueue, List.mem_append, List.mem_singleton] at ho
          rcases ho with ho | rfl
          · exact h.inTime o (Or.inl ho)
          · exact hin
        · have ho : (s.put p .none).OnTheWay o := Or.inr ho
          exact (h.put fun _ => Forming.noConfusion).inTime o ho
      · cases hstep
  | other a =>
      simp only [Option.ite_none_right_eq_some] at hstep
      obtain ⟨⟨hplain, -⟩, hstep⟩ := hstep
      -- The head of the queue is in time, as every order on its way is.
      have hhead : s.headInTime = true := by
        unfold headInTime
        cases hqueue : s.kernel.sys.api.orderQ with
        | nil => rfl
        | cons o rest =>
            exact h.inTime o (Or.inl (by rw [hqueue]; exact List.mem_cons_self))
      rw [if_neg (fun hlate => by rw [hhead] at hlate; cases hlate.2)] at hstep
      obtain ⟨k, hk, rfl⟩ := Option.map_eq_some_iff.mp hstep
      by_cases htick : a = .updateTick
      · subst htick
        obtain ⟨-, nextTick, hpeek, rfl⟩ := Kernel.step_updateTick hk
        constructor
        · intro h' t ht o ho
          obtain rfl := Option.some.inj (hpeek.symm.trans ht)
          exact h'.inTime o ho
        · intro hin
          exact ⟨h.passed, fun o ho => hin nextTick hpeek o ho⟩
      · obtain ⟨hnow, hqueue⟩ := plain_frame hk hplain htick
        refine iff_of_true ⟨h.passed, fun o ho => ?_⟩ ?_
        · show o.inTime k.sys.now = true
          rw [hnow]
          rcases ho with ho | ho
          · exact h.inTime o (Or.inl (hqueue o ho))
          · exact h.inTime o (Or.inr ho)
        · cases a with
          | updateTick => exact absurd rfl htick
          | _ => trivial

theorem punctual_init (startTick : Tick) : Punctual (init startTick) := by
  refine ⟨rfl, ?_⟩
  rintro o (ho | ⟨p, hp⟩)
  · cases ho
  · cases hp

/-- **Every order is in time.**  In a run from any start tick no debug assertion fails, and no order
on its way lies before the current tick, exactly when every `XBar` ends its lookup by tick 10 and
the time does not move past an order. -/
theorem orders_punctual_iff (code : Pid → PrcCode) (startTick : Tick) {acts : List Act}
    (hrun : Runs.run (step code) (init startTick) acts = some s) :
    (∀ pre post s', acts = pre ++ post → Runs.run (step code) (init startTick) pre = some s' →
        Punctual s') ↔ Runs.Along (step code) (InTime code) (init startTick) acts :=
  Runs.holds_iff_along (I := fun _ => True) (fun _ _ _ _ _ => trivial)
    (fun _ _ _ _ h hstep => punctual_step_iff h hstep) trivial (punctual_init startTick) hrun

/-- An `XBar` whose lookup ends at tick 10. -/
theorem lookup_at_ten : ∃ acts s,
    acts = [.other (.spawn 0), .enter 0 (.triggered 0 (some 10)), .push 0] ∧
    Runs.run (step fun _ => .xbarLookup) (init 10) acts = some s ∧
    ∀ pre post s', acts = pre ++ post →
      Runs.run (step fun _ => .xbarLookup) (init 10) pre = some s' → Punctual s' := by
  refine ⟨_, _, rfl, rfl, (orders_punctual_iff (fun _ => .xbarLookup) 10 rfl).mpr ?_⟩
  refine ⟨trivial, fun s₁ h₁ => ⟨fun _ => ?_, fun _ _ => ⟨trivial, fun _ _ => trivial⟩⟩⟩
  obtain rfl := Option.some.inj h₁
  exact le_refl 10

/-- An `XBar` in a simulation that starts at tick 11. -/
theorem late_lookup : ∃ s, Runs.run (step fun _ => .xbarLookup) (init 11)
    [.other (.spawn 0), .enter 0 (.triggered 0 (some 10)), .push 0] = some s ∧ s.failed = true :=
  ⟨_, rfl, rfl⟩

/-! ### When the time moves past an order -/

/-- Nobody comes back from a lock, and nobody is new, between the end of the delta-cycle and the
move of the time. -/
def Resolves (s : OrderFlow) : Act → Prop
  | .other (.unlock _) => s.kernel.stage ≠ .drain ∧ s.kernel.stage ≠ .advance
  | .other (.spawn _) => s.kernel.stage ≠ .drain ∧ s.kernel.stage ≠ .advance
  | _ => True

/-- No process runs between the end of the delta-cycle and the move of the time. -/
structure Quiet (s : OrderFlow) : Prop where
  loop : Kernel.LoopInv s.kernel
  busy : ∀ p, s.forming p ≠ .none → p ∈ s.kernel.sys.running
  own : ∀ p o, s.forming p = .pushing o → ∀ q, System.haltedBy o = some q → q = p
  ended : s.kernel.stage = .drain ∨ s.kernel.stage = .advance → s.kernel.sys.running = []
  drained : s.kernel.stage = .advance → s.kernel.sys.api.orderQ = []

theorem quiet_init (startTick : Tick) : Quiet (init startTick) where
  loop := (Kernel.inv_init startTick).loop
  busy _ hp := absurd rfl hp
  own _ _ hp := by cases hp
  ended _ := rfl
  drained _ := rfl

theorem Quiet.of_running (h : Quiet s) (hp : p ∈ s.kernel.sys.running) :
    s.kernel.stage ≠ .drain ∧ s.kernel.stage ≠ .advance := by
  refine ⟨fun hstage => ?_, fun hstage => ?_⟩
  · rw [h.ended (Or.inl hstage)] at hp
    cases hp
  · rw [h.ended (Or.inr hstage)] at hp
    cases hp

theorem Quiet.put (h : Quiet s) (hp : p ∈ s.kernel.sys.running) {x : Forming}
    (hx : ∀ o, x = .pushing o → ∀ q, System.haltedBy o = some q → q = p) : Quiet (s.put p x) := by
  refine ⟨h.loop, ?_, ?_, h.ended, h.drained⟩
  · intro q hq
    by_cases hqp : q = p
    · exact hqp ▸ hp
    · have hq : Function.update s.forming p x q ≠ .none := hq
      rw [Function.update_of_ne hqp] at hq
      exact h.busy q hq
  · intro q o hq
    have hq : Function.update s.forming p x q = .pushing o := hq
    by_cases hqp : q = p
    · rw [hqp, Function.update_self] at hq
      exact hqp ▸ hx o hq
    · rw [Function.update_of_ne hqp] at hq
      exact h.own q o hq

/-- A step of the kernel, by a process that runs or outside the two stages, after which the
processes in the middle of an order run as before. -/
theorem Quiet.of_kernel (h : Quiet s) {k : Kernel} (hloop : Kernel.LoopInv k)
    (hstage : k.stage = s.kernel.stage)
    (hnot : s.kernel.stage ≠ .drain ∧ s.kernel.stage ≠ .advance)
    (hbusy : ∀ p, s.forming p ≠ .none → p ∈ k.sys.running) : Quiet { s with kernel := k } := by
  refine ⟨hloop, hbusy, h.own, ?_, ?_⟩
  · rintro (hd | hd)
    · exact absurd (hstage.symm.trans hd) hnot.1
    · exact absurd (hstage.symm.trans hd) hnot.2
  · intro hd
    exact absurd (hstage.symm.trans hd) hnot.2

/-- A process does not move between the two. -/
theorem Quiet.not_between (h : Quiet s) {k : Kernel} {a : Ra2m.Act} (hres : Resolves s (.other a))
    (hk : s.kernel.step a = some k) (ha : a.actor = some p) :
    s.kernel.stage ≠ .drain ∧ s.kernel.stage ≠ .advance := by
  cases a with
  | spawn q | unlock q => exact hres
  | finish q | lock q => exact h.of_running (Option.ite_none_right_eq_some.mp hk).1.1
  | wait q evt | delay q t => exact h.of_running (Kernel.start_cases hk).1.1
  | poll q => exact h.of_running (Kernel.poll_cases hk).1
  | _ => cases ha

theorem exists_actor {a : Ra2m.Act} (hplain : plain a = true) (hmove : a.isMove = true) :
    ∃ p, a.actor = some p := by
  cases a with
  | notify t evt => cases hplain
  | spawn p | finish p | wait p _ | delay p _ | lock p | unlock p | poll p => exact ⟨p, rfl⟩
  | _ => cases hmove

/-- The loop goes on to the next stage when nobody runs, and when the queue is empty. -/
theorem Quiet.of_stage (h : Quiet s) {k : Kernel} {a : Ra2m.Act}
    (ha : a = .cycleEnded ∨ a = .drained ∨ a = .again) (hk : s.kernel.step a = some k) :
    Quiet { s with kernel := k } := by
  have hloop := Kernel.loopInv_step h.loop hk
  rcases ha with rfl | rfl | rfl
  · simp only [Kernel.step, Option.ite_none_right_eq_some, Option.some.injEq] at hk
    obtain ⟨⟨hstage, hended⟩, rfl⟩ := hk
    have hidle : s.kernel.sys.wokenPrc = none := by
      rw [h.loop.woken, hstage]
      exact Stage.noConfusion
    exact ⟨hloop, h.busy, h.own, fun _ => h.loop.counted.ended hidle hended,
      fun hadv => Stage.noConfusion hadv⟩
  · simp only [Kernel.step, Option.ite_none_right_eq_some, Option.some.injEq] at hk
    obtain ⟨⟨hstage, hempty⟩, rfl⟩ := hk
    exact ⟨hloop, h.busy, h.own, fun _ => h.ended (Or.inl hstage), fun _ => hempty⟩
  · simp only [Kernel.step, Option.ite_none_right_eq_some, Option.some.injEq] at hk
    obtain ⟨-, rfl⟩ := hk
    refine ⟨hloop, h.busy, h.own, ?_, fun hadv => Stage.noConfusion hadv⟩
    rintro (hd | hd)
    · exact Stage.noConfusion hd
    · exact Stage.noConfusion hd

/-- A step of the kernel that forms no order keeps this. -/
theorem Quiet.of_other (h : Quiet s) {k : Kernel} {a : Ra2m.Act} (hres : Resolves s (.other a))
    (hplain : plain a = true) (hidle : s.idle a = true) (hk : s.kernel.step a = some k) :
    Quiet { s with kernel := k } := by
  have hloop := Kernel.loopInv_step h.loop hk
  by_cases hmove : a.isMove = true
  · obtain ⟨hsame, hprc⟩ := Kernel.process_frame hk hmove
    obtain ⟨p, hactor⟩ := exists_actor hplain hmove
    refine h.of_kernel hloop hsame.stage (h.not_between hres hk hactor) fun q hq => ?_
    refine (hprc q fun hqp => hq ?_).running.mpr (h.busy q hq)
    rw [idle, hqp] at hidle
    exact of_decide_eq_true hidle
  · rcases Kernel.step_loop hk hmove with ⟨hkind, -, -, st, -, rfl⟩ |
      ⟨-, hstage, o, rest, hqueue, rfl⟩ | ⟨-, hstage, nextTick, -, rfl⟩ | ⟨-, hstage, rfl⟩ |
      ⟨x, -, hstage, -, -, n, rfl⟩ | ⟨-, hstage, -, api, rfl, -⟩
    · exact h.of_stage hkind hk
    · refine ⟨hloop, h.busy, h.own, fun _ => h.ended (Or.inl hstage), fun hadv => ?_⟩
      exact Stage.noConfusion (hstage.symm.trans hadv)
    · refine ⟨hloop, h.busy, h.own, ?_, fun hadv => Stage.noConfusion hadv⟩
      rintro (hd | hd)
      · exact Stage.noConfusion hd
      · exact Stage.noConfusion hd
    · refine ⟨hloop, h.busy, h.own, ?_, fun hadv => Stage.noConfusion hadv⟩
      rintro (hd | hd)
      · exact Stage.noConfusion hd
      · exact Stage.noConfusion hd
    · refine h.of_kernel hloop rfl ?_ fun q hq => List.mem_append_right _ (h.busy q hq)
      rw [hstage]
      exact ⟨Stage.noConfusion, Stage.noConfusion⟩
    · refine ⟨hloop, h.busy, h.own, ?_, fun hadv => Stage.noConfusion hadv⟩
      rintro (hd | hd)
      · exact Stage.noConfusion hd
      · exact Stage.noConfusion hd

/-- Handing over an order halts the process it names at most. -/
theorem send_loop {k k' : Kernel} (hinv : Kernel.LoopInv k) (h : send k o = some k') :
    Kernel.LoopInv k' ∧ k'.stage = k.stage ∧
      ∀ q, System.haltedBy o ≠ some q → q ∈ k.sys.running → q ∈ k'.sys.running := by
  have hsuspend : ∀ p f, k.suspend p f = some k' → Kernel.LoopInv k' ∧ k'.stage = k.stage ∧
      ∀ q, q ≠ p → q ∈ k.sys.running → q ∈ k'.sys.running := by
    intro p f hs
    obtain ⟨hloop, hprc⟩ := Kernel.suspend_frame hs
    have hs' := hs
    unfold Kernel.suspend at hs'
    obtain ⟨sys, hsys, hk⟩ := Option.map_eq_some_iff.mp hs'
    have hc : k'.sys.Counted := hk ▸ System.counted_step hinv.counted hsys
    exact ⟨hinv.of_same hloop hc, hloop.stage, fun q hq => (hprc q hq).running.mpr⟩
  cases o with
  | waitUntil t p =>
      obtain ⟨hinv', hstage, hrun⟩ := hsuspend p (.delay t) h
      exact ⟨hinv', hstage, fun q hq => hrun q fun hqp => hq (congrArg some hqp.symm)⟩
  | waitOn evt p =>
      obtain ⟨hinv', hstage, hrun⟩ := hsuspend p (.event evt) h
      exact ⟨hinv', hstage, fun q hq => hrun q fun hqp => hq (congrArg some hqp.symm)⟩
  | notifyAt t evt =>
      have hk : k.step (.notify t evt) = some k' := h
      obtain ⟨hloop, hprc⟩ := Kernel.process_frame hk rfl
      refine ⟨Kernel.loopInv_step hinv hk, hloop.stage, fun q _ => ?_⟩
      exact (hprc q (Option.some_ne_none q).symm).running.mpr
  | exit kind => cases h

theorem quiet_step (h : Quiet s) (hres : Resolves s a) (hstep : s.step code a = some s') :
    Quiet s' := by
  unfold step at hstep
  split at hstep
  · cases hstep
  cases a with
  | enter p site =>
      simp only [Option.ite_none_right_eq_some, Option.some.injEq] at hstep
      obtain ⟨⟨hfree, -, -⟩, rfl⟩ := hstep
      cases site with
      | waitFor delay | waitUntil tick =>
          exact h.put hfree.1 fun _ ho => Forming.noConfusion ho
      | handleDelay timed readyAt =>
          show Quiet (if timed && decide (s.now < readyAt) then s.put p (.yielding readyAt) else s)
          split
          · exact h.put hfree.1 fun _ ho => Forming.noConfusion ho
          · exact h
      | wait evt =>
          unfold enter
          simp only
          split
          · rename_i hready
            have hk : s.kernel.step (.wait p evt) =
                some (s.kernel.resume p (s.kernel.ready p (.event evt)).2) := by
              show s.kernel.start p (.event evt) = _
              unfold Kernel.start
              rw [if_pos hfree, if_pos hready]
            exact h.of_kernel (Kernel.loopInv_step h.loop hk) rfl (h.of_running hfree.1) h.busy
          · refine h.put hfree.1 ?_
            rintro o ho q hq
            cases ho
            exact (Option.some.inj hq).symm
      | triggered evt tick =>
          refine h.put hfree.1 ?_
          rintro o ho q hq
          cases ho
          cases hq
  | yielded p =>
      simp only at hstep
      split at hstep
      · rename_i readyAt hp
        obtain rfl := Option.some.inj hstep
        exact h.put (h.busy p (by rw [hp]; exact Forming.noConfusion))
          fun _ ho => Forming.noConfusion ho
      · cases hstep
  | pollDelay p =>
      simp only at hstep
      split at hstep
      · rename_i d hd
        have hp := h.busy p (by rw [hd]; exact Forming.noConfusion)
        split at hstep
        · rename_i order rest d' hpoll
          obtain rfl := Option.some.inj hstep
          obtain ⟨rfl, -⟩ := order_of_poll hpoll
          refine h.put hp ?_
          rintro o ho q hq
          cases ho
          exact (Option.some.inj hq).symm
        · obtain rfl := Option.some.inj hstep
          exact h.put hp fun _ ho => Forming.noConfusion ho
        · cases hstep
      · cases hstep
  | push p =>
      simp only at hstep
      split at hstep
      · rename_i o hp
        have hrun := h.busy p (by rw [hp]; exact Forming.noConfusion)
        split at hstep
        · obtain ⟨k, hsend, rfl⟩ := Option.map_eq_some_iff.mp hstep
          obtain ⟨hloop, hstage, hstays⟩ := send_loop h.loop hsend
          have hput : Quiet (s.put p .none) := h.put hrun fun _ ho => Forming.noConfusion ho
          refine hput.of_kernel hloop hstage (h.of_running hrun) fun q hq => ?_
          have hqp : q ≠ p := by
            rintro rfl
            exact hq (Function.update_self _ _ _)
          refine hstays q (fun hq' => hqp (h.own p o hp q hq')) (hput.busy q hq)
        · obtain rfl := Option.some.inj hstep
          exact ⟨h.loop, h.busy, h.own, h.ended, h.drained⟩
      · cases hstep
  | other a =>
      simp only [Option.ite_none_right_eq_some] at hstep
      obtain ⟨⟨hplain, hidle⟩, hstep⟩ := hstep
      split at hstep
      · obtain rfl := Option.some.inj hstep
        exact ⟨h.loop, h.busy, h.own, h.ended, h.drained⟩
      · obtain ⟨k, hk, rfl⟩ := Option.map_eq_some_iff.mp hstep
        exact h.of_other hres hplain hidle hk

/-- Then the time does not move past an order. -/
theorem Quiet.inTime_updateTick (h : Quiet s) (hstep : s.step code (.other .updateTick) = some s') :
    InTime code s (.other .updateTick) := by
  unfold step at hstep
  split at hstep
  · cases hstep
  simp only [Option.ite_none_right_eq_some] at hstep
  obtain ⟨-, hstep⟩ := hstep
  rw [if_neg (fun hd => Ra2m.Act.noConfusion hd.1)] at hstep
  obtain ⟨k, hk, rfl⟩ := Option.map_eq_some_iff.mp hstep
  obtain ⟨hstage, -⟩ := Kernel.step_updateTick hk
  rintro nextTick - o (ho | ⟨p, hp⟩)
  · rw [h.drained hstage] at ho
    cases ho
  · have hrun := h.busy p (by rw [hp]; exact Forming.noConfusion)
    rw [h.ended (Or.inr hstage)] at hrun
    cases hrun

/-- An `XBar` ends its lookup by tick 10. -/
def LooksUpInTime (code : Pid → PrcCode) (s : OrderFlow) : Act → Prop
  | .enter p _ => code p = .xbarLookup → s.now ≤ 10
  | _ => True

/-- Where nobody runs between the end of a delta-cycle and the move of the time, the lookups are all
that matters. -/
theorem punctual_of_resolves (code : Pid → PrcCode) (startTick : Tick) {acts : List Act}
    (hrun : Runs.run (step code) (init startTick) acts = some s)
    (hin : Runs.Along (step code) (fun s a => LooksUpInTime code s a ∧ Resolves s a)
      (init startTick) acts) : Punctual s := by
  refine (Runs.run_inv_along (I := fun s => Quiet s ∧ Punctual s) ?_
    ⟨quiet_init startTick, punctual_init startTick⟩ hin hrun).2
  rintro s a s' ⟨hq, hp⟩ ⟨hlook, hres⟩ hstep
  refine ⟨quiet_step hq hres hstep, (punctual_step_iff hp hstep).mpr ?_⟩
  cases a with
  | enter p site => exact hlook
  | other a =>
      cases a with
      | updateTick => exact hq.inTime_updateTick hstep
      | _ => trivial
  | _ => trivial

end OrderFlow

end Ra2m
