/-
No process is forgotten and none is counted twice.

Every registered process runs, is locked, has a blocking order in the queue, sleeps
in the heap or waits on an event, and it is in one of these places only.  Each call
moves one process from one place to another, or all the processes a task wakes, and
changes the counters to match; the wake loop counts what it woke on the side until
it is done.  `Counted` says so and every call keeps it.
-/
import Ra2m.Sim.Api

namespace Ra2m

namespace System

/-- How often a process occurs in the places a registered process can be. -/
def places (s : System) (p : Pid) : Nat :=
  s.running.count p + (s.locked.count p + (s.queued.count p +
    (s.sleeping ++ s.waiting).count p))

/-- The counters count what they are meant to, and every registered process is in one place. -/
structure Counted (s : System) : Prop where
  nodup : s.registered.Nodup
  hwPrc : s.api.hwPrc = s.registered.length
  alivePrc : s.api.alivePrc + (s.wokenPrc.getD 0 : Nat) = s.running.length
  lockedPrc : s.api.lockedPrc = s.locked.length
  places : ∀ p, s.registered.count p = s.places p

theorem counted_init (now : Tick) : (init now).Counted where
  nodup := List.nodup_nil
  hwPrc := rfl
  alivePrc := rfl
  lockedPrc := rfl
  places _ := rfl

private theorem count_erase_add {l : List Pid} {q : Pid} (h : q ∈ l) (p : Pid) :
    l.count p = (l.erase q).count p + [q].count p := by
  rw [(List.perm_cons_erase h).count_eq p, ← List.singleton_append, List.count_append, Nat.add_comm]

private theorem count_cons_add (l : List Pid) (q p : Pid) :
    (q :: l).count p = l.count p + [q].count p := by
  rw [← List.singleton_append, List.count_append, Nat.add_comm]

private theorem length_erase_add {l : List Pid} {q : Pid} (h : q ∈ l) :
    l.length = (l.erase q).length + 1 :=
  (List.perm_cons_erase h).length_eq

/-- A running process that pushes a blocking order moves to the queue. -/
private theorem counted_push {s : System} (h : s.Counted) {p : Pid} (hp : p ∈ s.running)
    {order : Order Pid} (hhalt : SchedulerAPI.haltPrc order = true)
    (hby : haltedBy order = some p) :
    Counted { s with api := s.api.pushOrder order, running := s.running.erase p } := by
  have hapi : (s.api.pushOrder order).hwPrc = s.api.hwPrc ∧
      (s.api.pushOrder order).alivePrc = s.api.alivePrc - 1 ∧
      (s.api.pushOrder order).lockedPrc = s.api.lockedPrc := by
    unfold SchedulerAPI.pushOrder
    rw [if_pos hhalt]
    exact ⟨rfl, rfl, rfl⟩
  refine ⟨h.nodup, hapi.1.trans h.hwPrc, ?_, hapi.2.2.trans h.lockedPrc, ?_⟩
  · show (s.api.pushOrder order).alivePrc + _ = ((s.running.erase p).length : Int)
    have hlen := length_erase_add hp
    have halive := h.alivePrc
    rw [hapi.2.1]
    show s.api.alivePrc - 1 + ((s.wokenPrc.getD 0 : Nat) : Int) = _
    omega
  · intro q
    have hq := h.places q
    have hrun := count_erase_add hp q
    have hqueue : (queued { s with api := s.api.pushOrder order, running := s.running.erase p }) =
        s.queued ++ [p] := by
      have := pushOrder_queued s order
      rw [hby] at this
      exact this
    show s.registered.count q = (s.running.erase p).count q + (s.locked.count q +
      ((queued { s with api := s.api.pushOrder order, running := s.running.erase p }).count q +
        (s.sleeping ++ s.waiting).count q))
    rw [hqueue, List.count_append, hq]
    unfold System.places
    omega

/-- A new process runs. -/
private theorem counted_register {s : System} (h : s.Counted) {p : Pid} (hp : p ∉ s.registered) :
    Counted { s with
      api := s.api.registerNewPrc
      registered := p :: s.registered, running := p :: s.running } := by
  refine ⟨List.nodup_cons.2 ⟨hp, h.nodup⟩, ?_, ?_, h.lockedPrc, ?_⟩
  · show s.api.hwPrc + 1 = s.registered.length + 1
    rw [h.hwPrc]
  · have halive := h.alivePrc
    show s.api.alivePrc + 1 + ((s.wokenPrc.getD 0 : Nat) : Int) =
      ((s.running.length + 1 : Nat) : Int)
    omega
  · intro q
    have hq := h.places q
    have hreg := count_cons_add s.registered p q
    have hrun := count_cons_add s.running p q
    unfold System.places at hq
    show (p :: s.registered).count q = (p :: s.running).count q + (s.locked.count q +
      (s.queued.count q + (s.sleeping ++ s.waiting).count q))
    omega

private theorem counted_unregister {s : System} (h : s.Counted) {p : Pid} (hp : p ∈ s.running) :
    Counted { s with
      api := s.api.unregisterPrc
      registered := s.registered.erase p, running := s.running.erase p } := by
  have hmem : p ∈ s.registered := by
    rw [← List.count_pos_iff, h.places p, System.places]
    have := List.count_pos_iff.2 hp
    omega
  refine ⟨h.nodup.erase p, ?_, ?_, h.lockedPrc, ?_⟩
  · have hlen := length_erase_add hmem
    have hhw := h.hwPrc
    show s.api.hwPrc - 1 = (s.registered.erase p).length
    omega
  · have hlen := length_erase_add hp
    have halive := h.alivePrc
    show s.api.alivePrc - 1 + ((s.wokenPrc.getD 0 : Nat) : Int) = ((s.running.erase p).length : Int)
    omega
  · intro q
    have hq := h.places q
    have hreg := count_erase_add hmem q
    have hrun := count_erase_add hp q
    unfold System.places at hq
    show (s.registered.erase p).count q = (s.running.erase p).count q + (s.locked.count q +
      (s.queued.count q + (s.sleeping ++ s.waiting).count q))
    omega

private theorem counted_lock {s : System} (h : s.Counted) {p : Pid} (hp : p ∈ s.running) :
    Counted { s with
      api := s.api.lockPrc
      running := s.running.erase p, locked := p :: s.locked } := by
  have hlen := length_erase_add hp
  refine ⟨h.nodup, h.hwPrc, ?_, ?_, ?_⟩
  · have halive := h.alivePrc
    show s.api.alivePrc - 1 + ((s.wokenPrc.getD 0 : Nat) : Int) = ((s.running.erase p).length : Int)
    omega
  · show s.api.lockedPrc + 1 = s.locked.length + 1
    rw [h.lockedPrc]
  · intro q
    have hq := h.places q
    have hrun := count_erase_add hp q
    have hlock := count_cons_add s.locked p q
    unfold System.places at hq
    show s.registered.count q = (s.running.erase p).count q + ((p :: s.locked).count q +
      (s.queued.count q + (s.sleeping ++ s.waiting).count q))
    omega

private theorem counted_unlock {s : System} (h : s.Counted) {p : Pid} (hp : p ∈ s.locked) :
    Counted { s with
      api := s.api.unlockPrc
      locked := s.locked.erase p, running := p :: s.running } := by
  have hlen := length_erase_add hp
  refine ⟨h.nodup, h.hwPrc, ?_, ?_, ?_⟩
  · have halive := h.alivePrc
    show s.api.alivePrc + 1 + ((s.wokenPrc.getD 0 : Nat) : Int) =
      ((s.running.length + 1 : Nat) : Int)
    omega
  · have hlocked := h.lockedPrc
    show s.api.lockedPrc - 1 = (s.locked.erase p).length
    omega
  · intro q
    have hq := h.places q
    have hlock := count_erase_add hp q
    have hrun := count_cons_add s.running p q
    unfold System.places at hq
    show s.registered.count q = (p :: s.running).count q + ((s.locked.erase p).count q +
      (s.queued.count q + (s.sleeping ++ s.waiting).count q))
    omega

/-- The process an order halts moves from the queue to the heap or to an event. -/
private theorem counted_recv {s : System} (h : s.Counted) {order : Order Pid}
    {rest : List (Order Pid)} (hqueue : s.api.orderQ = order :: rest) :
    Counted { s with
      api := { s.api with orderQ := rest }, sched := s.sched.recv s.now order } := by
  refine ⟨h.nodup, h.hwPrc, h.alivePrc, h.lockedPrc, ?_⟩
  intro q
  have hq := h.places q
  have hsplit : s.queued = (haltedBy order).toList ++ rest.filterMap haltedBy := by
    unfold queued
    rw [hqueue, List.filterMap_cons]
    cases haltedBy order with
    | none => rfl
    | some p => rfl
  have hmoved : (sleeping { s with sched := s.sched.recv s.now order } ++
        waiting { s with sched := s.sched.recv s.now order }).count q =
      (haltedBy order).toList.count q + (s.sleeping ++ s.waiting).count q := by
    rw [← List.count_append]
    exact (recv_perm s s.now order).count_eq q
  unfold System.places at hq
  rw [hsplit, List.count_append] at hq
  show s.registered.count q = s.running.count q + (s.locked.count q +
    ((rest.filterMap haltedBy).count q +
      (sleeping { s with sched := s.sched.recv s.now order } ++
        waiting { s with sched := s.sched.recv s.now order }).count q))
  omega

/-- The processes a task wakes run, and the wake loop has counted them. -/
private theorem counted_serve {s : System} (h : s.Counted) {n : Nat} (hwoken : s.wokenPrc = some n)
    {x : Task Pid} (hx : x ∈ s.sched.waitOnTick) :
    Counted { s with
      sched := (s.served x).sched, keeper := (s.served x).keeper
      wokenPrc := some (n + ((s.served x).wakes.flatMap Prod.snd).length)
      running := (s.served x).wakes.flatMap Prod.snd ++ s.running } := by
  refine ⟨h.nodup, h.hwPrc, ?_, h.lockedPrc, ?_⟩
  · have halive := h.alivePrc
    rw [hwoken] at halive
    show s.api.alivePrc + ((n + ((s.served x).wakes.flatMap Prod.snd).length : Nat) : Int) =
      (((s.served x).wakes.flatMap Prod.snd ++ s.running).length : Int)
    rw [List.length_append]
    simp only [Option.getD_some] at halive
    omega
  · intro q
    have hq := h.places q
    have hmoved : (s.sleeping ++ s.waiting).count q =
        ((s.served x).wakes.flatMap Prod.snd).count q +
          (sleeping { s with sched := (s.served x).sched } ++
            waiting { s with sched := (s.served x).sched }).count q := by
      rw [← List.count_append]
      exact (served_perm s hx).count_eq q
    unfold System.places at hq
    show s.registered.count q = ((s.served x).wakes.flatMap Prod.snd ++ s.running).count q +
      (s.locked.count q + (s.queued.count q +
        (sleeping { s with sched := (s.served x).sched } ++
          waiting { s with sched := (s.served x).sched }).count q))
    rw [List.count_append]
    omega

/-- Every call keeps the counters right. -/
theorem counted_step {s s' : System} {c : Call} (h : s.Counted) (hstep : s.step c = some s') :
    s'.Counted := by
  cases c with
  | register p =>
      simp only [step, Option.ite_none_right_eq_some, Option.some.injEq] at hstep
      obtain ⟨hp, rfl⟩ := hstep
      exact counted_register h hp
  | unregister p =>
      simp only [step, Option.ite_none_right_eq_some, Option.some.injEq] at hstep
      obtain ⟨hp, rfl⟩ := hstep
      exact counted_unregister h hp
  | waitUntil p t | waitOn p evt =>
      simp only [step, Option.ite_none_right_eq_some, Option.some.injEq] at hstep
      obtain ⟨hp, rfl⟩ := hstep
      exact counted_push h hp rfl rfl
  | notifyAt t evt =>
      simp only [step, Option.some.injEq] at hstep
      subst hstep
      refine ⟨h.nodup, h.hwPrc, h.alivePrc, h.lockedPrc, ?_⟩
      intro q
      have hqueue := pushOrder_queued s (.notifyAt t evt)
      have hq := h.places q
      show s.registered.count q = s.running.count q + (s.locked.count q +
        ((queued { s with api := s.api.pushOrder (.notifyAt t evt) }).count q +
          (s.sleeping ++ s.waiting).count q))
      rw [hqueue, show (haltedBy (.notifyAt t evt)).toList = [] from rfl, List.append_nil]
      exact hq
  | lock p =>
      simp only [step, Option.ite_none_right_eq_some, Option.some.injEq] at hstep
      obtain ⟨hp, rfl⟩ := hstep
      exact counted_lock h hp
  | unlock p =>
      simp only [step, Option.ite_none_right_eq_some, Option.some.injEq] at hstep
      obtain ⟨hp, rfl⟩ := hstep
      exact counted_unlock h hp
  | drain =>
      simp only [step] at hstep
      split at hstep
      · cases hstep
      · rename_i order rest hqueue
        simp only [Option.some.injEq] at hstep
        subst hstep
        exact counted_recv h hqueue
  | updateTick =>
      simp only [step] at hstep
      split at hstep
      · simp only [Option.some.injEq] at hstep
        subst hstep
        exact ⟨h.nodup, h.hwPrc, h.alivePrc, h.lockedPrc, h.places⟩
      · cases hstep
  | clearEvents =>
      simp only [step, Option.ite_none_right_eq_some, Option.some.injEq] at hstep
      obtain ⟨hidle, rfl⟩ := hstep
      have halive := h.alivePrc
      rw [hidle] at halive
      exact ⟨h.nodup, h.hwPrc, halive, h.lockedPrc, h.places⟩
  | serve x =>
      simp only [step] at hstep
      split at hstep
      · rename_i n hwoken
        simp only [Option.ite_none_right_eq_some, Option.some.injEq] at hstep
        obtain ⟨⟨hx, -⟩, rfl⟩ := hstep
        exact counted_serve h hwoken hx
      · cases hstep
  | endWake =>
      simp only [step] at hstep
      split at hstep
      · rename_i n hwoken
        simp only [Option.ite_none_right_eq_some, Option.some.injEq] at hstep
        obtain ⟨-, rfl⟩ := hstep
        have halive := h.alivePrc
        rw [hwoken] at halive
        refine ⟨h.nodup, h.hwPrc, ?_, h.lockedPrc, h.places⟩
        show s.api.alivePrc + (n : Int) + ((0 : Nat) : Int) = (s.running.length : Int)
        simp only [Option.getD_some] at halive
        omega
      · cases hstep

/-! ### A process is in one place -/

/-- The places a process can be, one by one. -/
theorem Counted.once {s : System} (h : s.Counted) (p : Pid) :
    s.running.count p + s.locked.count p + s.queued.count p + s.sleeping.count p +
        s.waiting.count p = s.registered.count p ∧ s.registered.count p ≤ 1 := by
  have hplaces := h.places p
  unfold System.places at hplaces
  rw [List.count_append] at hplaces
  exact ⟨by omega, List.nodup_iff_count_le_one.1 h.nodup p⟩

/-- A process that runs, is locked or is not registered has nothing pending. -/
theorem Counted.apart {s : System} (h : s.Counted) {p : Pid}
    (hp : p ∈ s.running ∨ p ∈ s.locked ∨ p ∉ s.registered) :
    p ∉ s.queued ∧ p ∉ s.sleeping ∧ p ∉ s.waiting := by
  obtain ⟨hplaces, honce⟩ := h.once p
  have hzero : s.queued.count p + s.sleeping.count p + s.waiting.count p = 0 := by
    rcases hp with hp | hp | hp
    · have := List.count_pos_iff.2 hp
      omega
    · have := List.count_pos_iff.2 hp
      omega
    · have := List.count_eq_zero.2 hp
      omega
  refine ⟨?_, ?_, ?_⟩
  · exact List.count_eq_zero.1 (by omega)
  · exact List.count_eq_zero.1 (by omega)
  · exact List.count_eq_zero.1 (by omega)

/-- A process runs once, and not while it is locked. -/
theorem Counted.running_once {s : System} (h : s.Counted) {p : Pid} (hp : p ∈ s.running) :
    p ∉ s.running.erase p ∧ p ∉ s.locked ∧ p ∈ s.registered := by
  obtain ⟨hplaces, honce⟩ := h.once p
  have hrun := List.count_pos_iff.2 hp
  refine ⟨?_, ?_, ?_⟩
  · refine List.count_eq_zero.1 ?_
    rw [List.count_erase_self]
    omega
  · exact List.count_eq_zero.1 (by omega)
  · exact List.count_pos_iff.1 (by omega)

/-- A process with a blocking order in the queue neither sleeps nor waits. -/
theorem Counted.queued_apart {s : System} (h : s.Counted) {p : Pid} (hp : p ∈ s.queued) :
    p ∉ s.sleeping ++ s.waiting := by
  obtain ⟨hplaces, honce⟩ := h.once p
  have hqueue := List.count_pos_iff.2 hp
  refine List.count_eq_zero.1 ?_
  rw [List.count_append]
  omega

/-- A process waits on one event. -/
theorem Counted.waiting_once {s : System} (h : s.Counted) {p : Pid} (hp : p ∈ s.waiting) :
    s.waiting.count p = 1 := by
  obtain ⟨hplaces, honce⟩ := h.once p
  have hwait := List.count_pos_iff.2 hp
  omega

/-- When the delta-cycle has ended no process runs. -/
theorem Counted.ended {s : System} (h : s.Counted) (hidle : s.wokenPrc = none)
    (hended : s.api.deltaCycleEnded = true) : s.running = [] := by
  have halive := h.alivePrc
  have hzero : (0 : Int) = s.api.alivePrc := by simpa [SchedulerAPI.deltaCycleEnded] using hended
  rw [hidle, ← hzero] at halive
  apply List.eq_nil_of_length_eq_zero
  simpa using halive.symm

/-- The waiters of an event are among those waiting. -/
theorem mem_waiting_of_waiters {s : System} {p : Pid} {evt : Nat} (h : p ∈ s.sched.waiters evt) :
    p ∈ s.waiting :=
  (waiting_perm s evt).mem_iff.2 (List.mem_append_left _ h)

/-! ### The conservation law -/

/-- The registered processes are those of the five places. -/
theorem Counted.perm {s : System} (h : s.Counted) :
    s.registered.Perm
      (s.running ++ (s.locked ++ (s.queued ++ (s.sleeping ++ s.waiting)))) := by
  rw [List.perm_iff_count]
  intro p
  rw [h.places p, List.count_append, List.count_append, List.count_append]
  rfl

/-- In every state that can be reached the process counter is the sum of the places a process can be
in; and when the scheduler finds no process alive and the queue drained, every registered process
is in exactly one of the lock, the heap and the event map. -/
theorem processes_conserved {now : Tick} {s : System}
    (h : Runs.Reachable step (init now) s) :
    (s.api.hwPrc : Int) = s.api.alivePrc + (s.wokenPrc.getD 0 : Nat) + s.api.lockedPrc +
        s.queued.length + s.sleeping.length + s.waiting.length ∧
      (s.wokenPrc = none → s.api.deltaCycleEnded = true → s.api.orderQ = [] →
        s.registered.Nodup ∧ s.registered.Perm (s.locked ++ (s.sleeping ++ s.waiting)) ∧
          ∀ p ∈ s.registered, (p ∈ s.locked ∧ p ∉ s.sleeping ∧ p ∉ s.waiting) ∨
            (p ∉ s.locked ∧ p ∈ s.sleeping ∧ p ∉ s.waiting) ∨
            (p ∉ s.locked ∧ p ∉ s.sleeping ∧ p ∈ s.waiting)) := by
  have hinv : s.Counted := h.inv (fun _ _ _ hi hs => counted_step hi hs) (counted_init now)
  have hperm := hinv.perm
  refine ⟨?_, ?_⟩
  · have hlen := hperm.length_eq
    have hhw := hinv.hwPrc
    have halive := hinv.alivePrc
    have hlocked := hinv.lockedPrc
    rw [List.length_append, List.length_append, List.length_append, List.length_append] at hlen
    omega
  · intro hidle hended hdrained
    have hrun := hinv.ended hidle hended
    have hqueue : s.queued = [] := by
      unfold queued
      rw [hdrained]
      rfl
    rw [hrun, hqueue, List.nil_append, List.nil_append] at hperm
    refine ⟨hinv.nodup, hperm, ?_⟩
    intro p hp
    have hnodup := hperm.nodup_iff.1 hinv.nodup
    rw [List.nodup_append, List.nodup_append] at hnodup
    obtain ⟨-, ⟨-, -, hsw⟩, hlw⟩ := hnodup
    rcases List.mem_append.1 (hperm.mem_iff.1 hp) with hl | hl
    · refine Or.inl ⟨hl, ?_, ?_⟩
      · intro hs
        exact hlw p hl p (List.mem_append_left _ hs) rfl
      · intro hw
        exact hlw p hl p (List.mem_append_right _ hw) rfl
    · rcases List.mem_append.1 hl with hs | hw
      · refine Or.inr (Or.inl ⟨?_, hs, fun hw => hsw p hs p hw rfl⟩)
        intro hlk
        exact hlw p hlk p hl rfl
      · refine Or.inr (Or.inr ⟨?_, fun hs => hsw p hs p hw rfl, hw⟩)
        intro hlk
        exact hlw p hlk p hl rfl

/-- A process that waits on event 3 is in the event map once its order is drained. -/
theorem waiter_conserved :
    ∃ s, Runs.run step (init 0) [.register 7, .waitOn 7 3, .drain] = some s ∧
      s.registered.Perm (s.locked ++ (s.sleeping ++ s.waiting)) ∧ s.waiting = [7] := by
  have hrun : ∃ s, Runs.run step (init 0) [.register 7, .waitOn 7 3, .drain] = some s ∧
      s.wokenPrc = none ∧ s.api.deltaCycleEnded = true ∧ s.api.orderQ = [] ∧ s.waiting = [7] :=
    ⟨_, rfl, rfl, rfl, rfl, rfl⟩
  obtain ⟨s, hrun, hidle, hended, hdrained, hwait⟩ := hrun
  exact ⟨s, hrun, ((processes_conserved ⟨_, hrun⟩).2 hidle hended hdrained).2.1, hwait⟩

end System

end Ra2m
