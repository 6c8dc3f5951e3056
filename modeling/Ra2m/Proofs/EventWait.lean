/-
A process that waits on an event is woken once, by the first notification that
fires after it was registered.

Registration happens when the order is drained, at some tick `c`.  From there on the
waker stays in the event map until a notification of the event is served, and no
task that is served is due before `c + 1`.  The process then runs, suspended on a
future that is ready, so the delta-cycle cannot end before it has polled; and its
waker cannot be called again before the time moves, for what it waits on next is
only drained at the end of the delta-cycle.
-/
import Ra2m.Proofs.KernelInv

namespace Ra2m

namespace Kernel

variable {k k' : Kernel} {a : Act} {acts : List Act} {p : Pid} {e : Nat}

/-! ### The time -/

theorem now_le_step (h : Inv k) (hstep : k.step a = some k') : k.sys.now ≤ k'.sys.now := by
  by_cases hmove : a.isMove = true
  · exact le_of_eq (process_frame hstep hmove).1.now.symm
  · rcases step_loop hstep hmove with ⟨-, -, -, s, -, rfl⟩ | ⟨-, -, o, rest, -, rfl⟩ |
      ⟨-, -, nextTick, hpeek, rfl⟩ | ⟨-, -, rfl⟩ | ⟨x, -, -, -, -, n, rfl⟩ | ⟨-, -, -, api, rfl, -⟩
    · exact le_refl _
    · exact le_refl _
    · obtain ⟨⟨x, hx, hxt⟩, -⟩ := MinHeap.peek_eq_some_iff.1 hpeek
      exact hxt ▸ (h.loop.ahead x hx).1
    · exact le_refl _
    · exact le_refl _
    · exact le_refl _

theorem now_le_run (h : Inv k) (hrun : Runs.run step k acts = some k') :
    k.sys.now ≤ k'.sys.now := by
  have hboth : Inv k' ∧ k.sys.now ≤ k'.sys.now :=
    Runs.run_inv (I := fun s => Inv s ∧ k.sys.now ≤ s.sys.now)
      (fun s b s' hs hb => ⟨inv_step hs.1 hb, hs.2.trans (now_le_step hs.1 hb)⟩)
      ⟨h, le_refl _⟩ hrun
  exact hboth.2

/-- From the drain of tick `c` on, the wake loop runs at a later tick only. -/
def PastOrSettled (c : Tick) (k : Kernel) : Prop :=
  k.sys.now = c ∧ k.stage.settled = true ∨ c < k.sys.now

theorem pastOrSettled_step {c : Tick} (h : Inv k) (hc : PastOrSettled c k)
    (hstep : k.step a = some k') : PastOrSettled c k' := by
  rcases hc with ⟨hnow, hs⟩ | hpast
  · by_cases hmove : a.isMove = true
    · obtain ⟨hloop, -⟩ := process_frame hstep hmove
      exact Or.inl ⟨hloop.now.trans hnow, hloop.stage ▸ hs⟩
    · rcases step_loop hstep hmove with ⟨-, -, -, s, hs', rfl⟩ | ⟨-, -, o, rest, -, rfl⟩ |
        ⟨-, -, nextTick, hpeek, rfl⟩ | ⟨-, hstage, -⟩ | ⟨x, -, hstage, -⟩ | ⟨-, hstage, -⟩
      · exact Or.inl ⟨hnow, hs'⟩
      · exact Or.inl ⟨hnow, hs⟩
      · obtain ⟨⟨x, hx, hxt⟩, -⟩ := MinHeap.peek_eq_some_iff.1 hpeek
        have hlater := (h.loop.ahead x hx).2 hs
        rw [hnow, hxt] at hlater
        exact Or.inr hlater
      · rw [hstage] at hs
        cases hs
      · rw [hstage] at hs
        cases hs
      · rw [hstage] at hs
        cases hs
  · exact Or.inr (lt_of_lt_of_le hpast (now_le_step h hstep))

/-! ### Until a notification fires -/

/-- A waiter stays registered until its event fires. -/
theorem waiter_step (hp : p ∈ k.sys.sched.waiters e) (hstep : k.step a = some k')
    (hquiet : ∀ t, a ≠ .serve (.notify t e)) : p ∈ k'.sys.sched.waiters e := by
  by_cases hmove : a.isMove = true
  · rw [(process_frame hstep hmove).1.sched]
    exact hp
  · rcases step_loop hstep hmove with ⟨-, -, -, s, -, rfl⟩ | ⟨-, -, o, rest, -, rfl⟩ |
      ⟨-, -, nextTick, -, rfl⟩ | ⟨-, -, rfl⟩ | ⟨x, rfl, -, -, -, n, rfl⟩ | ⟨-, -, -, api, rfl, -⟩
    · exact hp
    · show p ∈ (k.sys.sched.recv k.sys.now o).waiters e
      rw [Scheduler.recv_waiters]
      exact List.mem_append_left _ hp
    · exact hp
    · exact hp
    · show p ∈ (k.sys.served x).sched.waiters e
      rw [System.served_waiters, if_neg]
      · exact hp
      · intro hx
        cases x with
        | wakeup t w => cases hx
        | notify t e' => exact hquiet t (by rw [Option.some.inj hx])
    · exact hp

/-- And nothing else calls its waker. -/
theorem waiter_not_woken (h : Inv k) (hp : p ∈ k.sys.sched.waiters e)
    (hstep : k.step a = some k') (hquiet : ∀ t, a ≠ .serve (.notify t e)) : p ∉ k.wokenBy a := by
  intro hwoken
  cases a with
  | serve x =>
      obtain ⟨-, hx, -⟩ := step_serve hstep
      have hfut := (h.prc p).waiting e hp
      cases x with
      | wakeup t w =>
          obtain rfl := List.mem_singleton.1 hwoken
          obtain ⟨t', -, hdelay⟩ := (h.prc p).sleeping t hx
          cases hfut.symm.trans hdelay
      | notify t e' =>
          have hfut' := (h.prc p).waiting e' hwoken
          obtain rfl : e' = e := Future.event.inj (Option.some.inj (hfut'.symm.trans hfut))
          exact hquiet t rfl
  | _ => cases hwoken

/-- A waiter is registered once. -/
theorem waiter_count (h : Inv k) (hp : p ∈ k.sys.sched.waiters e) :
    (k.sys.sched.waiters e).count p = 1 := by
  have honce := h.loop.counted.waiting_once (System.mem_waiting_of_waiters hp)
  rw [(System.waiting_perm k.sys e).count_eq p, List.count_append] at honce
  have := List.count_pos_iff.2 hp
  omega

/-! ### After it has fired -/

/-- A process that neither sleeps nor waits is woken by no task. -/
theorem idle_not_woken (h : p ∉ k.sys.sleeping ++ k.sys.waiting) (hstep : k.step a = some k') :
    p ∉ k.wokenBy a := by
  intro hwoken
  cases a with
  | serve x =>
      obtain ⟨-, hx, -⟩ := step_serve hstep
      refine h (List.mem_append.2 ?_)
      cases x with
      | wakeup t w =>
          obtain rfl := List.mem_singleton.1 hwoken
          exact Or.inl (mem_sleeping hx)
      | notify t e => exact Or.inr (System.mem_waiting_of_waiters hwoken)
  | _ => cases hwoken

/-- The process is not woken before the time moves. -/
structure Rested (p : Pid) (k : Kernel) : Prop where
  stage : k.stage ≠ .clear
  idle : k.stage = .wake → p ∉ k.sys.sleeping ++ k.sys.waiting

theorem rested_of_running (h : Inv k) (hstage : k.stage ≠ .clear) (hp : p ∈ k.sys.running) :
    Rested p k := by
  obtain ⟨-, hsleeping, hwaiting⟩ := h.loop.counted.apart (Or.inl hp)
  exact ⟨hstage, fun _ hmem => (List.mem_append.1 hmem).elim hsleeping hwaiting⟩

theorem rested_step (h : Rested p k) (hstep : k.step a = some k') (ha : a ≠ .updateTick) :
    Rested p k' := by
  by_cases hmove : a.isMove = true
  · obtain ⟨hloop, -⟩ := process_frame hstep hmove
    have hidle := h.idle
    unfold System.sleeping System.waiting at hidle
    refine ⟨?_, ?_⟩
    · rw [hloop.stage]
      exact h.stage
    · unfold System.sleeping System.waiting
      rw [hloop.stage, hloop.sched]
      exact hidle
  · rcases step_loop hstep hmove with ⟨-, -, -, s, hs', rfl⟩ | ⟨-, hstage, o, rest, -, rfl⟩ |
      ⟨rfl, -⟩ | ⟨-, hstage, -⟩ | ⟨x, -, hstage, hx, -, n, rfl⟩ | ⟨-, -, -, api, rfl, -⟩
    · refine ⟨?_, fun hs => absurd hs (settled_ne_wake hs')⟩
      intro hs
      have hs : s = .clear := hs
      rw [hs] at hs'
      cases hs'
    · refine ⟨h.stage, ?_⟩
      intro hs
      cases hstage.symm.trans hs
    · exact absurd rfl ha
    · exact absurd hstage h.stage
    · refine ⟨h.stage, fun _ hmem => h.idle hstage ?_⟩
      exact (System.served_perm k.sys hx).mem_iff.2 (List.mem_append_right _ hmem)
    · exact ⟨Stage.noConfusion, Stage.noConfusion⟩

theorem rested_run (h : Rested p k) (hrun : Runs.run step k acts = some k')
    (ha : .updateTick ∉ acts) : Rested p k' := by
  refine Runs.run_inv_along (P := fun _ b => b ≠ .updateTick)
    (fun s b s' hs hb hstep => rested_step hs hstep hb) h ?_ hrun
  refine Runs.along_of_forall ?_
  intro b hb htick
  exact ha (htick ▸ hb)

theorem rested_not_woken (h : Rested p k) (hstep : k.step a = some k') : p ∉ k.wokenBy a := by
  cases a with
  | serve x => exact idle_not_woken (h.idle (step_serve hstep).1) hstep
  | _ => exact List.not_mem_nil

/-- The process runs and its next move is to poll `f`. -/
def Resuming (p : Pid) (f : Future) (k : Kernel) : Prop :=
  p ∈ k.sys.running ∧ k.future p = some f

theorem resuming_step {f : Future} (h : Resuming p f k) (hstep : k.step a = some k')
    (ha : a.actor ≠ some p) : Resuming p f k' := by
  by_cases hmove : a.isMove = true
  · have hsame := (process_frame hstep hmove).2 p ha
    exact ⟨hsame.running.2 h.1, hsame.future.trans h.2⟩
  · rcases step_loop hstep hmove with ⟨-, -, -, s, -, rfl⟩ | ⟨-, -, o, rest, -, rfl⟩ |
      ⟨-, -, nextTick, -, rfl⟩ | ⟨-, -, rfl⟩ | ⟨x, -, -, -, -, n, rfl⟩ | ⟨-, -, -, api, rfl, -⟩
    · exact h
    · exact h
    · exact h
    · exact h
    · exact ⟨List.mem_append_right _ h.1, h.2⟩
    · exact h

theorem resuming_run {f : Future} (h : Resuming p f k) (hrun : Runs.run step k acts = some k')
    (ha : ∀ b ∈ acts, b.actor ≠ some p) : Resuming p f k' := by
  exact Runs.run_inv_along (P := fun _ b => b.actor ≠ some p)
    (fun s b s' hs hb hstep => resuming_step hs hstep hb) h (Runs.along_of_forall ha) hrun

/-- The poll returns `Ready`. -/
theorem resuming_poll {f : Future} (h : Inv k) (hp : Resuming p f k) :
    ∃ k', k.step (.poll p) = some k' ∧ k'.future p = none := by
  have hready := (h.prc p).passing hp.1 f hp.2
  refine ⟨k.resume p (k.ready p f).2, ?_, Function.update_self _ _ _⟩
  show (if p ∈ k.sys.running then _ else _) = _
  rw [if_pos hp.1, hp.2]
  exact if_pos hready

/-- The process makes no other move. -/
theorem resuming_next {f : Future} (h : Inv k) (hp : Resuming p f k) (hstep : k.step a = some k')
    (ha : a.actor = some p) : a = .poll p := by
  obtain ⟨-, hlocked, hreg⟩ := h.loop.counted.running_once hp.1
  rcases actor_cases hstep ha with ⟨hpoll, -⟩ | hfree | hlock | hnew
  · exact hpoll
  · cases hp.2.symm.trans hfree.2
  · exact absurd hlock hlocked
  · exact absurd hreg hnew

/-- The time does not move before. -/
theorem resuming_no_tick {f : Future} (h : Inv k) (hp : Resuming p f k) :
    k.step .updateTick = none := by
  cases hstep : k.step .updateTick with
  | none => rfl
  | some k' =>
      have hstage := (step_updateTick hstep).1
      rcases (h.prc p).resuming hp.1 f hp.2 with hs | hs
      · cases hstage.symm.trans hs
      · cases hstage.symm.trans hs

/-! ### Posted notifications -/

/-- A notification of the event is in the queue or in the heap. -/
def Pending (e : Nat) (k : Kernel) : Prop :=
  (∃ t, Order.notifyAt t e ∈ k.sys.api.orderQ) ∨ ∃ t, Task.notify t e ∈ k.sys.sched.waitOnTick

/-- The same, and it fires after the tick `c`. -/
def PendingAfter (c : Tick) (e : Nat) (k : Kernel) : Prop :=
  (∃ t, Order.notifyAt t e ∈ k.sys.api.orderQ) ∨
    ∃ t, c < t ∧ Task.notify t e ∈ k.sys.sched.waitOnTick

theorem pendingAfter_step {c : Tick} (hnow : c ≤ k.sys.now) (h : PendingAfter c e k)
    (hstep : k.step a = some k') (hquiet : ∀ t, c < t → a ≠ .serve (.notify t e)) :
    PendingAfter c e k' := by
  by_cases hmove : a.isMove = true
  · obtain ⟨hloop, -⟩ := process_frame hstep hmove
    rcases h with ⟨t, ht⟩ | ⟨t, hlater, ht⟩
    · obtain ⟨new, hnew⟩ := hloop.orders
      refine Or.inl ⟨t, ?_⟩
      rw [hnew]
      exact List.mem_append_left _ ht
    · refine Or.inr ⟨t, hlater, ?_⟩
      rw [hloop.sched]
      exact ht
  · rcases step_loop hstep hmove with ⟨-, -, -, s, -, rfl⟩ | ⟨-, -, o, rest, hqueue, rfl⟩ |
      ⟨-, -, nextTick, -, rfl⟩ | ⟨-, -, rfl⟩ | ⟨x, rfl, -, -, -, n, rfl⟩ | ⟨-, -, -, api, rfl, hapi⟩
    · exact h
    · rcases h with ⟨t, ht⟩ | ⟨t, hlater, ht⟩
      · rw [hqueue] at ht
        rcases List.mem_cons.1 ht with rfl | ht
        · refine Or.inr ⟨max (k.sys.now + 1) t, ?_, List.mem_append_right _ List.mem_cons_self⟩
          exact lt_of_le_of_lt hnow (lt_of_lt_of_le (Nat.lt_succ_self _) (le_max_left _ _))
        · exact Or.inl ⟨t, ht⟩
      · refine Or.inr ⟨t, hlater, ?_⟩
        show Task.notify t e ∈ (k.sys.sched.recv k.sys.now o).waitOnTick
        rw [Scheduler.recv_waitOnTick]
        exact List.mem_append_left _ ht
    · exact h
    · exact h
    · rcases h with ht | ⟨t, hlater, ht⟩
      · exact Or.inl ht
      · refine Or.inr ⟨t, hlater, ?_⟩
        show Task.notify t e ∈ (k.sys.served x).sched.waitOnTick
        rw [System.served_waitOnTick]
        refine (List.mem_erase_of_ne ?_).2 ht
        intro heq
        exact hquiet t hlater (by rw [heq])
    · rcases h with ⟨t, ht⟩ | hheap
      · refine Or.inl ⟨t, ?_⟩
        show Order.notifyAt t e ∈ api.orderQ
        rw [hapi]
        exact ht
      · exact Or.inr hheap

/-- What was posted at tick `c` or later is pending as long as no notification that fires after `c`
has been served. -/
theorem posted_pending {c : Tick} (h : Inv k) (hnow : c ≤ k.sys.now)
    (hpend : PendingAfter c e k) (hrun : Runs.run step k acts = some k')
    (hquiet : ∀ pre t post s s', acts = pre ++ .serve (.notify t e) :: post →
      Runs.run step k pre = some s → s.step (.serve (.notify t e)) = some s' → t ≤ c) :
    PendingAfter c e k' := by
  induction acts generalizing k with
  | nil =>
      obtain rfl := Option.some.inj hrun
      exact hpend
  | cons b rest ih =>
      obtain ⟨k₁, hb, hrest⟩ := Runs.run_cons_iff.1 hrun
      refine ih (inv_step h hb) (hnow.trans (now_le_step h hb)) ?_ hrest ?_
      · refine pendingAfter_step hnow hpend hb ?_
        intro t hlater hserve
        subst hserve
        exact absurd hlater (not_lt_of_ge (hquiet [] t rest k k₁ rfl rfl hb))
      · intro pre t post s s' hsplit hpre hs
        refine hquiet (b :: pre) t post s s' (by rw [hsplit]; rfl) ?_ hs
        exact Runs.run_cons_iff.2 ⟨k₁, hb, hpre⟩

/-! ### The wait -/

/-- What a process is owed from the moment its waker was called for `e`. -/
structure WokenFor (p : Pid) (e : Nat) (k : Kernel) : Prop where
  /-- Its waker is not called again before the time moves. -/
  once : ∀ acts k', Runs.run step k acts = some k' → .updateTick ∉ acts →
    ∀ a k'', k'.step a = some k'' → p ∉ k'.wokenBy a
  /-- As long as it has not moved the time stands, its next move is to poll the event, and the poll
  returns `Ready`. -/
  polls : ∀ acts k', Runs.run step k acts = some k' → (∀ a ∈ acts, a.actor ≠ some p) →
    k'.future p = some (.event e) ∧ k'.step .updateTick = none ∧
      (∃ k'', k'.step (.poll p) = some k'' ∧ k''.future p = none) ∧
      ∀ a k'', k'.step a = some k'' → a.actor = some p → a = .poll p

theorem wokenFor_of_serve {t : Tick} (h : Inv k) (hp : p ∈ k.sys.sched.waiters e)
    (hstep : k.step (.serve (.notify t e)) = some k') : WokenFor p e k' := by
  have hinv := inv_step h hstep
  have hresuming : Resuming p (.event e) k' := by
    obtain ⟨-, -, -, n, rfl⟩ := step_serve hstep
    exact ⟨List.mem_append_left _ hp, (h.prc p).waiting e hp⟩
  have hstage : k'.stage ≠ .clear := by
    obtain ⟨hstage, -, -, n, rfl⟩ := step_serve hstep
    intro hs
    cases hstage.symm.trans hs
  have hinv_run : ∀ {acts k''}, Runs.run step k' acts = some k'' → Inv k'' :=
    Runs.run_inv (fun _ _ _ hi hs => inv_step hi hs) hinv
  refine ⟨?_, ?_⟩
  · intro acts k₁ hrun hacts a k₂ ha
    exact rested_not_woken (rested_run (rested_of_running hinv hstage hresuming.1) hrun hacts) ha
  · intro acts k₁ hrun hacts
    have hres := resuming_run hresuming hrun hacts
    have hi := hinv_run hrun
    exact ⟨hres.2, resuming_no_tick hi hres, resuming_poll hi hres,
      fun a k₂ ha hactor => resuming_next hi hres ha hactor⟩

/-- The first notification of an event to fire after tick `c` finds what was posted since then
pending. -/
theorem pending_of_posted {now : Tick} {hist pre post : List Act} {kd kn ka : Kernel} {b : Act}
    {t : Tick} (hhist : Runs.run step (init now) hist = some k) (hb : k.step b = some kd)
    (hne : ∀ t, b ≠ .serve (.notify t e)) (hacts : Runs.run step kd acts = some ka)
    (hquiet : ∀ t, Act.serve (.notify t e) ∉ acts)
    (hsplit : hist ++ b :: acts = pre ++ .notify t e :: post)
    (hpre : Runs.run step (init now) pre = some kn) (hnow : k.sys.now ≤ kn.sys.now) :
    Pending e ka := by
  have hall : Runs.run step (init now) (pre ++ .notify t e :: post) = some ka := by
    rw [← hsplit]
    exact Runs.run_append_iff.2 ⟨k, hhist, Runs.run_cons_iff.2 ⟨kd, hb, hacts⟩⟩
  obtain ⟨kn', hkn', hrest⟩ := Runs.run_append_iff.1 hall
  obtain rfl := Option.some.inj (hpre.symm.trans hkn')
  obtain ⟨kp, hpost, hrun⟩ := Runs.run_cons_iff.1 hrest
  have hinv := inv_reachable ⟨pre, hpre⟩
  have hposted : PendingAfter k.sys.now e kp := by
    simp only [step, call, System.step, Option.map_some, Option.some.injEq] at hpost
    subst hpost
    refine Or.inl ⟨t, ?_⟩
    show Order.notifyAt t e ∈ (kn.sys.api.pushOrder (.notifyAt t e)).orderQ
    rw [SchedulerAPI.pushOrder_orderQ]
    exact List.mem_append_right _ List.mem_cons_self
  have hafter := posted_pending (inv_step hinv hpost) (hnow.trans (now_le_step hinv hpost)) hposted
    hrun fun pre' t' post' s s' hsplit' hpre' hserve => ?_
  · rcases hafter with hq | ⟨t', -, ht'⟩
    · exact Or.inl hq
    · exact Or.inr ⟨t', ht'⟩
  · -- a notification of `e` that was served was served before the drain, at most at its tick
    have hupto : Runs.run step (init now) (pre ++ .notify t e :: pre') = some s :=
      Runs.run_append_iff.2 ⟨kn, hpre, Runs.run_cons_iff.2 ⟨kp, hpost, hpre'⟩⟩
    have hlist : hist ++ b :: acts =
        (pre ++ .notify t e :: pre') ++ .serve (.notify t' e) :: post' := by
      rw [hsplit, hsplit', List.append_assoc]
      rfl
    rcases List.append_eq_append_iff.1 hlist with ⟨as, -, htail⟩ | ⟨bs, hhead, htail⟩
    · have hmem : Act.serve (.notify t' e) ∈ b :: acts := by
        rw [htail]
        exact List.mem_append_right _ List.mem_cons_self
      rcases List.mem_cons.1 hmem with heq | hmem
      · exact absurd heq.symm (hne t')
      · exact absurd hmem (hquiet t')
    · cases bs with
      | nil => exact absurd (List.cons.inj htail).1.symm (hne t')
      | cons c bs =>
          obtain ⟨rfl, -⟩ := List.cons.inj htail
          rw [hhead] at hhist
          obtain ⟨s₁, hs₁, hrest'⟩ := Runs.run_append_iff.1 hhist
          obtain rfl := Option.some.inj (hupto.symm.trans hs₁)
          obtain ⟨-, -, hdue, -⟩ := step_serve hserve
          exact le_trans hdue (now_le_run (inv_reachable ⟨_, hupto⟩) hrest')

/-- A process whose `WaitOn` order is drained at tick `c` is woken once: by the first notification
of its event served after that, at a later tick.  Its waker is not called before; until then every
notification posted at tick `c` or later is still pending. -/
theorem waitOn_woken_once {now : Tick} {hist : List Act}
    (hhist : Runs.run step (init now) hist = some k) :
    (∀ e p a k', Order.waitOn e p ∈ k.sys.api.orderQ → k.step a = some k' → p ∉ k.wokenBy a) ∧
    ∀ e p rest kd, k.sys.api.orderQ = .waitOn e p :: rest → k.step .drain = some kd →
      ∀ acts ka, Runs.run step kd acts = some ka → (∀ t, Act.serve (.notify t e) ∉ acts) →
        (∀ a kb, ka.step a = some kb → (∀ t, a ≠ .serve (.notify t e)) → p ∉ ka.wokenBy a) ∧
        (∀ pre t post kn, hist ++ .drain :: acts = pre ++ .notify t e :: post →
          Runs.run step (init now) pre = some kn → k.sys.now ≤ kn.sys.now → Pending e ka) ∧
        ∀ t kb, ka.step (.serve (.notify t e)) = some kb →
          k.sys.now < ka.sys.now ∧ (ka.wokenBy (.serve (.notify t e))).count p = 1 ∧
            WokenFor p e kb := by
  have hinv := inv_reachable ⟨hist, hhist⟩
  refine ⟨?_, ?_⟩
  · intro e p a k' hq hstep
    exact idle_not_woken (hinv.loop.counted.queued_apart (mem_queued hq rfl)) hstep
  · intro e p rest kd hqueue hdrain acts ka hacts hquiet
    obtain ⟨hstage, o, rest', hqueue', hkd⟩ := step_drain hdrain
    have hwaiter : p ∈ kd.sys.sched.waiters e := by
      obtain ⟨rfl, -⟩ := List.cons.inj (hqueue.symm.trans hqueue')
      rw [hkd]
      show p ∈ (k.sys.sched.recv k.sys.now (.waitOn e p)).waiters e
      rw [Scheduler.recv_waiters, Scheduler.waiterOf, if_pos rfl]
      exact List.mem_append_right _ List.mem_cons_self
    have hpast : PastOrSettled k.sys.now kd := by
      rw [hkd]
      exact Or.inl ⟨rfl, by rw [hstage]; rfl⟩
    have hka : Inv ka ∧ p ∈ ka.sys.sched.waiters e ∧ PastOrSettled k.sys.now ka := by
      refine Runs.run_inv_along (P := fun _ b => ∀ t, b ≠ .serve (.notify t e))
        (I := fun s => Inv s ∧ p ∈ s.sys.sched.waiters e ∧ PastOrSettled k.sys.now s)
        ?_ ⟨inv_step hinv hdrain, hwaiter, hpast⟩ ?_ hacts
      · intro s b s' hs hb hstep
        exact ⟨inv_step hs.1 hstep, waiter_step hs.2.1 hstep hb,
          pastOrSettled_step hs.1 hs.2.2 hstep⟩
      · refine Runs.along_of_forall ?_
        intro b hb t hserve
        exact hquiet t (hserve ▸ hb)
    obtain ⟨hinva, hwaita, hpasta⟩ := hka
    refine ⟨fun a kb hstep ha => waiter_not_woken hinva hwaita hstep ha, ?_, ?_⟩
    · intro pre t post kn hsplit hpre hnow
      exact pending_of_posted hhist hdrain (fun t => Act.noConfusion) hacts hquiet hsplit hpre hnow
    · intro t kb hserve
      refine ⟨?_, waiter_count hinva hwaita, wokenFor_of_serve hinva hwaita hserve⟩
      rcases hpasta with ⟨-, hs⟩ | hlater
      · rw [(step_serve hserve).1] at hs
        cases hs
      · exact hlater

/-- Process 7 waits on event 3, which is notified for the tick it waits at and fires at the next
one. -/
theorem waiter_woken_once :
    ∃ k kd ka kb, Runs.run step (init 0) [.spawn 7, .wait 7 3, .notify 0 3, .cycleEnded] = some k ∧
      k.step .drain = some kd ∧
      Runs.run step kd [.drain, .drained, .updateTick, .clearEvents] = some ka ∧
      ka.step (.serve (.notify 1 3)) = some kb ∧ k.sys.now < ka.sys.now ∧
      (ka.wokenBy (.serve (.notify 1 3))).count 7 = 1 ∧ WokenFor 7 3 kb := by
  obtain ⟨k, kd, ka, kb, hk, hkd, hka, hkb, hqueue⟩ :
      ∃ k kd ka kb,
        Runs.run step (init 0) [.spawn 7, .wait 7 3, .notify 0 3, .cycleEnded] = some k ∧
        k.step .drain = some kd ∧
        Runs.run step kd [.drain, .drained, .updateTick, .clearEvents] = some ka ∧
        ka.step (.serve (.notify 1 3)) = some kb ∧
        k.sys.api.orderQ = [.waitOn 3 7, .notifyAt 0 3] :=
    ⟨_, _, _, _, rfl, rfl, rfl, rfl, rfl⟩
  have hwoken := ((waitOn_woken_once hk).2 3 7 _ kd hqueue hkd _ ka hka (by simp)).2.2 1 kb hkb
  exact ⟨k, kd, ka, kb, hk, hkd, hka, hkb, hwoken⟩

end Kernel

end Ra2m
