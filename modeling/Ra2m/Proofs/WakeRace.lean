/-
Which waits started in a delta-cycle complete in it.

The wake loop calls the wakers of a task before it pops the next one, and a process
that is awake does not wait for the loop to end.  If it starts to wait on an event
whose notification is due but has not been popped, it is not let through: its order
is drained only after the delta-cycle, and it misses the event.  Whether that happens
is up to the order in which the heap pops the tasks of one tick and to the moment at
which the process runs.

A wait completes exactly when a notification of its event has been served before it
started (`completes_iff_served`).
-/
import Ra2m.Proofs.EventWait

namespace Ra2m

namespace Kernel

variable {k k' : Kernel} {a : Act} {acts pre post : List Act} {p : Pid} {e : Nat}

/-- A notification of the event is due. -/
def Due (e : Nat) (k : Kernel) : Prop :=
  ∃ t, Task.notify t e ∈ k.sys.sched.waitOnTick ∧ t ≤ k.sys.now

/-- After `pre` a process that was not let through yet starts to wait on `e`. -/
def StartsWait (k : Kernel) (pre : List Act) (p : Pid) (e : Nat) : Prop :=
  ∃ k' k'', Runs.run step k pre = some k' ∧ p ∉ k'.sys.keeper.wokenProcess ∧
    k'.step (.wait p e) = some k''

/-- The wait started after `pre` completes before the end of `post`. -/
def Completes (k : Kernel) (pre : List Act) (p : Pid) (e : Nat) (post : List Act) : Prop :=
  ∃ mid rest k', post = mid ++ rest ∧
    Runs.run step k (pre ++ .wait p e :: mid) = some k' ∧ k'.future p = none

/-- The notification was served in the course of `pre`. -/
def ServedIn (e : Nat) (pre : List Act) : Prop := ∃ t, Act.serve (.notify t e) ∈ pre

/-! ### A delta-cycle -/

/-- Where a delta-cycle that started in `k₁` can be. -/
structure InCycle (k₁ k : Kernel) : Prop where
  stage : k.stage ≠ .clear
  now : k.sys.now = k₁.sys.now
  heap : k.stage = .wake → ∀ x ∈ k.sys.sched.waitOnTick, x ∈ k₁.sys.sched.waitOnTick

theorem inCycle_step {k₁ : Kernel} (h : InCycle k₁ k) (hstep : k.step a = some k')
    (ha : a ≠ .updateTick) : InCycle k₁ k' := by
  by_cases hmove : a.isMove = true
  · obtain ⟨hloop, -⟩ := process_frame hstep hmove
    refine ⟨?_, hloop.now.trans h.now, ?_⟩
    · rw [hloop.stage]
      exact h.stage
    · rw [hloop.stage, hloop.sched]
      exact h.heap
  · rcases step_loop hstep hmove with ⟨-, -, -, s, hs', rfl⟩ | ⟨-, hstage, o, rest, -, rfl⟩ |
      ⟨rfl, -⟩ | ⟨-, hstage, -⟩ | ⟨x, -, hstage, -, -, n, rfl⟩ | ⟨-, -, -, api, rfl, -⟩
    · refine ⟨?_, h.now, fun hs => absurd hs (settled_ne_wake hs')⟩
      intro hs
      have hs : s = .clear := hs
      rw [hs] at hs'
      cases hs'
    · refine ⟨h.stage, h.now, ?_⟩
      intro hs
      cases hstage.symm.trans hs
    · exact absurd rfl ha
    · exact absurd hstage h.stage
    · refine ⟨h.stage, h.now, fun _ y hy => h.heap hstage y ?_⟩
      have hy : y ∈ (k.sys.served x).sched.waitOnTick := hy
      rw [System.served_waitOnTick] at hy
      exact List.mem_of_mem_erase hy
    · exact ⟨Stage.noConfusion, h.now, Stage.noConfusion⟩

/-- The events fired are those fired before and those of the notifications served. -/
theorem triggered_step {k₁ : Kernel} (h : InCycle k₁ k) (hstep : k.step a = some k') :
    e ∈ k'.sys.keeper.triggeredEvents ↔
      e ∈ k.sys.keeper.triggeredEvents ∨ ∃ t, a = .serve (.notify t e) := by
  by_cases hmove : a.isMove = true
  · rw [(process_frame hstep hmove).1.triggered]
    refine (or_iff_left ?_).symm
    rintro ⟨t, rfl⟩
    cases hmove
  · rcases step_loop hstep hmove with ⟨ha, -, -, s, -, rfl⟩ | ⟨rfl, -, o, rest, -, rfl⟩ |
      ⟨rfl, -, nextTick, -, rfl⟩ | ⟨-, hstage, -⟩ | ⟨x, rfl, -, -, -, n, rfl⟩ |
      ⟨rfl, -, -, api, rfl, -⟩
    · refine (or_iff_left ?_).symm
      rintro ⟨t, rfl⟩
      simp at ha
    · exact (or_iff_left (by simp)).symm
    · exact (or_iff_left (by simp)).symm
    · exact absurd hstage h.stage
    · show e ∈ (k.sys.served x).keeper.triggeredEvents ↔ _
      rw [System.served_triggered, List.mem_append]
      refine or_congr Iff.rfl ?_
      cases x with
      | wakeup t w => simp [Task.event?]
      | notify t e' => simp [Task.event?, eq_comm]
    · exact (or_iff_left (by simp)).symm

theorem triggered_run {k₁ : Kernel} (h : InCycle k₁ k) (hrun : Runs.run step k acts = some k')
    (hcycle : .updateTick ∉ acts) :
    InCycle k₁ k' ∧ (e ∈ k'.sys.keeper.triggeredEvents ↔
      e ∈ k.sys.keeper.triggeredEvents ∨ ServedIn e acts) := by
  induction acts generalizing k with
  | nil =>
      obtain rfl := Option.some.inj hrun
      exact ⟨h, (or_iff_left (by simp [ServedIn])).symm⟩
  | cons b rest ih =>
      obtain ⟨k₂, hb, hrest⟩ := Runs.run_cons_iff.1 hrun
      obtain ⟨hne, hcycle'⟩ := List.ne_and_not_mem_of_not_mem_cons hcycle
      obtain ⟨hin, hiff⟩ := ih (inCycle_step h hb hne.symm) hrest hcycle'
      refine ⟨hin, ?_⟩
      rw [hiff, triggered_step h hb, or_assoc]
      refine or_congr Iff.rfl ?_
      simp only [ServedIn, List.mem_cons]
      constructor
      · rintro (⟨t, rfl⟩ | ⟨t, ht⟩)
        · exact ⟨t, Or.inl rfl⟩
        · exact ⟨t, Or.inr ht⟩
      · rintro ⟨t, ht | ht⟩
        · exact Or.inl ⟨t, ht.symm⟩
        · exact Or.inr ⟨t, ht⟩

/-- What is served in a delta-cycle was due at its start. -/
theorem due_of_served {k₁ : Kernel} (h : InCycle k₁ k) (hrun : Runs.run step k acts = some k')
    (hcycle : .updateTick ∉ acts) (hserved : ServedIn e acts) : Due e k₁ := by
  induction acts generalizing k with
  | nil =>
      obtain ⟨t, ht⟩ := hserved
      cases ht
  | cons b rest ih =>
      obtain ⟨k₂, hb, hrest⟩ := Runs.run_cons_iff.1 hrun
      obtain ⟨hne, hcycle'⟩ := List.ne_and_not_mem_of_not_mem_cons hcycle
      obtain ⟨t, ht⟩ := hserved
      rcases List.mem_cons.1 ht with rfl | ht
      · obtain ⟨hstage, hx, hdue, -⟩ := step_serve hb
        exact ⟨t, h.heap hstage _ hx, h.now ▸ hdue⟩
      · exact ih (inCycle_step h hb hne.symm) hrest hcycle' ⟨t, ht⟩

/-! ### A wait that is not let through -/

/-- The process is suspended on `f`, and its order has not been served. -/
structure Halted (p : Pid) (f : Future) (k : Kernel) : Prop where
  place : p ∈ k.sys.queued ∨ p ∈ k.sys.sleeping ++ k.sys.waiting
  future : k.future p = some f

/-- A halted process stays halted until the time moves. -/
theorem halted_step {f : Future} (hinv : Inv k) (hrest : Rested p k) (h : Halted p f k)
    (hstep : k.step a = some k') (ha : a ≠ .updateTick) : Halted p f k' := by
  by_cases hmove : a.isMove = true
  · obtain ⟨hloop, hprc⟩ := process_frame hstep hmove
    have hactor : a.actor ≠ some p := by
      intro hactor
      have hplace : p ∈ k.sys.running ∨ p ∈ k.sys.locked ∨ p ∉ k.sys.registered := by
        rcases actor_cases hstep hactor with ⟨-, hrun⟩ | hfree | hother
        · exact Or.inl hrun
        · exact Or.inl hfree.1
        · exact Or.inr hother
      obtain ⟨hqueued, hsleeping, hwaiting⟩ := hinv.loop.counted.apart hplace
      rcases h.place with hq | hmem
      · exact hqueued hq
      · exact (List.mem_append.1 hmem).elim hsleeping hwaiting
    have hsame := hprc p hactor
    refine ⟨?_, hsame.future.trans h.future⟩
    rcases h.place with hq | hmem
    · obtain ⟨o, ho, hby⟩ := List.mem_filterMap.1 hq
      exact Or.inl (mem_queued ((hsame.queued o hby).2 ho) hby)
    · right
      unfold System.sleeping System.waiting at hmem ⊢
      rw [hloop.sched]
      exact hmem
  · rcases step_loop hstep hmove with ⟨-, -, -, s, -, rfl⟩ | ⟨-, -, o, rest, hqueue, rfl⟩ |
      ⟨rfl, -⟩ | ⟨-, hstage, -⟩ | ⟨x, -, hstage, hx, -, n, rfl⟩ | ⟨-, -, -, api, rfl, hapi⟩
    · exact ⟨h.place, h.future⟩
    · refine ⟨?_, h.future⟩
      have hmoved := System.recv_perm k.sys k.sys.now o
      rcases h.place with hq | hmem
      · obtain ⟨o', ho', hby⟩ := List.mem_filterMap.1 hq
        rw [hqueue] at ho'
        rcases List.mem_cons.1 ho' with rfl | ho'
        · refine Or.inr (hmoved.mem_iff.2 (List.mem_append_left _ ?_))
          rw [hby]
          exact List.mem_cons_self
        · exact Or.inl (mem_queued ho' hby)
      · exact Or.inr (hmoved.mem_iff.2 (List.mem_append_right _ hmem))
    · exact absurd rfl ha
    · exact absurd hstage hrest.stage
    · exact ⟨h.place.imp_right fun hmem => absurd hmem (hrest.idle hstage), h.future⟩
    · refine ⟨h.place.imp_left ?_, h.future⟩
      intro hq
      obtain ⟨o, ho, hby⟩ := List.mem_filterMap.1 hq
      exact mem_queued (s := { k.sys with api, wokenPrc := none }) (hapi ▸ ho) hby

theorem halted_run {f : Future} (hinv : Inv k) (hrest : Rested p k) (h : Halted p f k)
    (hrun : Runs.run step k acts = some k') (hcycle : .updateTick ∉ acts) :
    k'.future p = some f := by
  induction acts generalizing k with
  | nil =>
      obtain rfl := Option.some.inj hrun
      exact h.future
  | cons b rest ih =>
      obtain ⟨k₂, hb, hrest'⟩ := Runs.run_cons_iff.1 hrun
      obtain ⟨hne, hcycle'⟩ := List.ne_and_not_mem_of_not_mem_cons hcycle
      exact ih (inv_step hinv hb) (rested_step hrest hb hne.symm)
        (halted_step hinv hrest h hb hne.symm) hrest' hcycle'

/-! ### Which waits complete -/

/-- A wait completes in its delta-cycle exactly when a notification of its event was served before
it started. -/
theorem completes_iff_served {k₁ k₂ : Kernel} (hinv : Inv k₁)
    (hstart : k₁.step .clearEvents = some k₂)
    (hcycle : .updateTick ∉ pre ++ post) (hwait : StartsWait k₂ pre p e) :
    Completes k₂ pre p e post ↔ ServedIn e pre := by
  obtain ⟨ka, kb, hpre, hfresh, hstep⟩ := hwait
  have hcycle_pre : .updateTick ∉ pre := fun h => hcycle (List.mem_append_left _ h)
  have hcycle_post : .updateTick ∉ post := fun h => hcycle (List.mem_append_right _ h)
  have hin : InCycle k₂ k₂ ∧ e ∉ k₂.sys.keeper.triggeredEvents := by
    obtain ⟨-, rfl⟩ := step_clearEvents hstart
    exact ⟨⟨Stage.noConfusion, rfl, fun _ _ hx => hx⟩, List.not_mem_nil⟩
  obtain ⟨hina, htrig⟩ := triggered_run (e := e) hin.1 hpre hcycle_pre
  rw [or_iff_right hin.2] at htrig
  have hinva : Inv ka :=
    Runs.run_inv (fun _ _ _ hi hs => inv_step hi hs) (inv_step hinv hstart) hpre
  have hready : (ka.ready p (.event e)).1 = true ↔ ServedIn e pre := by
    rw [ready_event_iff, and_iff_left hfresh, htrig]
  obtain ⟨hfree, ⟨hyes, rfl⟩ | ⟨hno, hs⟩⟩ := start_cases hstep
  · have hnone : (ka.resume p (ka.ready p (.event e)).2).future p = none :=
      Function.update_self _ _ _
    exact iff_of_true ⟨[], post, _, rfl, Runs.run_snoc_iff.2 ⟨ka, hpre, hstep⟩, hnone⟩
      (hready.1 hyes)
  · refine iff_of_false ?_ ?_
    · rintro ⟨mid, rest, kc, rfl, hrun, hnone⟩
      obtain ⟨ka', hpre', hrun⟩ := Runs.run_append_iff.1 hrun
      obtain rfl := Option.some.inj (hpre.symm.trans hpre')
      obtain ⟨kb', hstep', hmid⟩ := Runs.run_cons_iff.1 hrun
      obtain rfl := Option.some.inj (hstep.symm.trans hstep')
      have hhalted : Halted p (.event e) kb ∧ Rested p kb := by
        have hrested := rested_of_running hinva hina.stage hfree.1
        refine ⟨?_, rested_step hrested hstep Act.noConfusion⟩
        obtain ⟨-, rfl⟩ := suspend_eq hs
        have ho : Order.waitOn e p ∈ (ka.sys.api.pushOrder (.waitOn e p)).orderQ := by
          rw [SchedulerAPI.pushOrder_orderQ]
          exact List.mem_append_right _ List.mem_cons_self
        exact ⟨Or.inl (List.mem_filterMap.2 ⟨_, ho, rfl⟩), Function.update_self _ _ _⟩
      have hsome := halted_run (inv_step hinva hstep) hhalted.2 hhalted.1 hmid
        fun h => hcycle_post (List.mem_append_left _ h)
      cases hsome.symm.trans hnone
    · intro hserved
      rw [hready.2 hserved] at hno
      cases hno

/-- Every wait started in the delta-cycle completes exactly when a notification of its event is due
in it. -/
def WaitsMeetDue (k : Kernel) (acts : List Act) : Prop :=
  ∀ pre p e post, acts = pre ++ .wait p e :: post → StartsWait k pre p e →
    (Completes k pre p e post ↔ Due e k)

/-- In a delta-cycle the waits complete as the due notifications say if and only if every wait on a
due event starts after one of its notifications has been served. -/
theorem waits_meet_due_iff {now : Tick} {k₁ k₂ : Kernel}
    (hreach : Runs.Reachable step (init now) k₁) (hstart : k₁.step .clearEvents = some k₂)
    (hcycle : .updateTick ∉ acts) :
    WaitsMeetDue k₂ acts ↔
      ∀ pre p e post, acts = pre ++ .wait p e :: post → StartsWait k₂ pre p e →
        Due e k₂ → ServedIn e pre := by
  have hinv := inv_reachable hreach
  have hin : InCycle k₂ k₂ := by
    obtain ⟨-, rfl⟩ := step_clearEvents hstart
    exact ⟨Stage.noConfusion, rfl, fun _ _ hx => hx⟩
  have hsplit : ∀ {pre p e post}, acts = pre ++ Act.wait p e :: post →
      Act.updateTick ∉ pre ++ post := by
    intro pre p e post hacts htick
    refine hcycle (hacts ▸ ?_)
    rcases List.mem_append.1 htick with h | h
    · exact List.mem_append_left _ h
    · exact List.mem_append_right _ (List.mem_cons_of_mem _ h)
  refine forall_congr' fun pre => forall_congr' fun p => forall_congr' fun e =>
    forall_congr' fun post => forall_congr' fun hacts => forall_congr' ?_
  intro hwait
  rw [completes_iff_served hinv hstart (hsplit hacts) hwait]
  have hdue : ServedIn e pre → Due e k₂ := by
    obtain ⟨ka, kb, hpre, -⟩ := hwait
    exact due_of_served hin hpre fun h => hsplit hacts (List.mem_append_left _ h)
  exact ⟨fun h => h.2, fun h => ⟨hdue, h⟩⟩

/-- With a wakeup of process 1 and a notification of event 3 due at tick 5, the wait process 1
starts completes if the heap pops the notification first. -/
theorem notifyFirst_meets :
    ∃ k₁ k₂, Runs.run step (init 0) [.spawn 1, .notify 5 3, .delay 1 5, .cycleEnded, .drain, .drain,
        .drained, .updateTick] = some k₁ ∧ k₁.step .clearEvents = some k₂ ∧
      WaitsMeetDue k₂ [.serve (.notify 5 3), .serve (.wakeup 5 1), .poll 1, .wait 1 3, .endWake,
        .cycleEnded] := by
  obtain ⟨k₁, k₂, hk₁, hk₂⟩ : ∃ k₁ k₂,
      Runs.run step (init 0) [.spawn 1, .notify 5 3, .delay 1 5, .cycleEnded, .drain, .drain,
        .drained, .updateTick] = some k₁ ∧ k₁.step .clearEvents = some k₂ := ⟨_, _, rfl, rfl⟩
  refine ⟨k₁, k₂, hk₁, hk₂, (waits_meet_due_iff ⟨_, hk₁⟩ hk₂ (by simp)).2 ?_⟩
  intro pre p e post hacts _ _
  have hwait : Act.wait p e ∈ [.serve (.notify 5 3), .serve (.wakeup 5 1), .poll 1, .wait 1 3,
      .endWake, .cycleEnded] := by
    rw [hacts]
    exact List.mem_append_right _ List.mem_cons_self
  obtain ⟨rfl, rfl⟩ : p = 1 ∧ e = 3 := by simpa using hwait
  refine ⟨5, ?_⟩
  cases pre with
  | nil => cases hacts
  | cons a pre =>
      obtain ⟨rfl, -⟩ := List.cons.inj hacts
      exact List.mem_cons_self

/-- And it does not if the heap pops the wakeup first and the process runs before the next pop. -/
theorem wakeupFirst_misses :
    ∃ k₁ k₂ k', Runs.run step (init 0) [.spawn 1, .notify 5 3, .delay 1 5, .cycleEnded, .drain,
        .drain, .drained, .updateTick] = some k₁ ∧ k₁.step .clearEvents = some k₂ ∧
      Runs.run step k₂ [.serve (.wakeup 5 1), .poll 1, .wait 1 3, .serve (.notify 5 3), .endWake,
        .cycleEnded] = some k' ∧
      Due 3 k₂ ∧ ¬ WaitsMeetDue k₂ [.serve (.wakeup 5 1), .poll 1, .wait 1 3,
        .serve (.notify 5 3), .endWake, .cycleEnded] := by
  obtain ⟨k₁, k₂, k', hk₁, hk₂, hk', hheap, hwait⟩ : ∃ k₁ k₂ k',
      Runs.run step (init 0) [.spawn 1, .notify 5 3, .delay 1 5, .cycleEnded, .drain, .drain,
        .drained, .updateTick] = some k₁ ∧ k₁.step .clearEvents = some k₂ ∧
      Runs.run step k₂ [.serve (.wakeup 5 1), .poll 1, .wait 1 3, .serve (.notify 5 3), .endWake,
        .cycleEnded] = some k' ∧
      (Task.notify 5 3 ∈ k₂.sys.sched.waitOnTick ∧ 5 ≤ k₂.sys.now) ∧
      StartsWait k₂ [.serve (.wakeup 5 1), .poll 1] 1 3 :=
    ⟨_, _, _, rfl, rfl, rfl, ⟨by decide, by decide⟩, _, _, rfl, by decide, rfl⟩
  refine ⟨k₁, k₂, k', hk₁, hk₂, hk', ⟨5, hheap⟩, ?_⟩
  intro hmeet
  have hcomplete := (hmeet [.serve (.wakeup 5 1), .poll 1] 1 3 _ rfl hwait).2 ⟨5, hheap⟩
  obtain ⟨t, ht⟩ := (completes_iff_served (inv_reachable ⟨_, hk₁⟩) hk₂ (by simp) hwait).1 hcomplete
  simp at ht

end Kernel

end Ra2m
