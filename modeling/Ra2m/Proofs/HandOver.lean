/-
Which hand-overs of a port are resolved in their delta-cycle.

`unlock_evt` should count the hand-overs of the delta-cycle and `unlocked_prc` those
that are over.  Two things can go wrong.  The scheduler reads `unlock_evt` once: a
process that comes back while the hand-overs are being resolved, and hands the port on
before it halts, counts an event the scheduler does not look at.  And a process that
has been refused but is not announced yet is not seen by the guard's `Drop`: it gets
the port with no event counted.

`Accounted` excludes both, step by step, and in a run that meets it no process is
left in `lock` with the port granted when the scheduler moves on.  The invariant is
that `unlock_evt` covers the processes unlocked and those the port is being handed
to.
-/
import Ra2m.Sim.PortLock

namespace Ra2m

namespace PortLock

open Tally

variable {n : Nat} {s s' : PortLock n} {a : Act n}

/-- The number of alive processes. -/
def alives (s : PortLock n) : Nat := tally LockStage.alive s.stage

/-- The number of processes in the middle of a hand-over. -/
def handOvers (s : PortLock n) : Nat := tally LockStage.inHandOver s.stage

/-- The count the wake loop has not added up yet. -/
def wokenPrc (s : PortLock n) : Nat :=
  match s.loop with
  | .wake wokenPrc => wokenPrc
  | _ => 0

/-- The action gives the port to a process in `lock` without an unlock event of its own: a blocked
acquire that finds the port free, or a release whose guard saw no waiter. -/
def uncounted (s : PortLock n) : Act n → Bool
  | .acquire _ => !s.held
  | .release p => s.stage p = .releasing false && !s.queue.isEmpty
  | _ => false

/-- What a step must meet: an unlock event is left over for a process that gets the port without
one, and the second wait ends with no more unlock events than processes unlocked. -/
def Accounted (s : PortLock n) (a : Act n) : Prop :=
  (s.uncounted a = true → s.unlockedPrc + s.handOvers < s.unlockEvt) ∧
    (a = .endedAgain → s.unlockEvt ≤ s.unlockedPrc)

instance (s : PortLock n) (a : Act n) : Decidable (s.Accounted a) :=
  inferInstanceAs (Decidable (_ ∧ _))

/-- The queue holds the processes blocked on the inner mutex. -/
structure Queued (s : PortLock n) : Prop where
  nodup : s.queue.Nodup
  stage : ∀ q ∈ s.queue, s.stage q = .queued

/-- What a step of a process does to the counters and to what they count. -/
structure Shift (s s' : PortLock n) (uncounted : Nat) : Prop where
  loop : s'.loop = s.loop
  grow : s.unlockEvt ≤ s'.unlockEvt
  alive : s'.alivePrc - s'.alives = s.alivePrc - s.alives
  covered : s'.unlockedPrc + s'.handOvers + s.unlockEvt ≤
    s.unlockedPrc + s.handOvers + s'.unlockEvt + uncounted
  /-- With no process alive and no hand-over under way only an uncounted one can start. -/
  still : s.alives = 0 → s.handOvers = 0 → s'.alives = 0 ∧ s'.handOvers ≤ uncounted ∧
    s'.unlockEvt = s.unlockEvt ∧ s'.unlockedPrc = s.unlockedPrc

theorem tally_move {P : LockStage → Bool} {p : Fin n} {x y : LockStage} (h : s.stage p = y) :
    tally P (s.move p x).stage + (P y).toNat = tally P s.stage + (P x).toNat := by
  have hmove := tally_update (P := P) (f := s.stage) p x
  rw [h] at hmove
  exact hmove

theorem tally_stage_pos {P : LockStage → Bool} {p : Fin n} {y : LockStage} (h : s.stage p = y)
    (hy : P y = true) : 0 < tally P s.stage :=
  tally_pos (i := p) (by rw [h]; exact hy)

/-- A process that is not in the queue can move without disturbing it. -/
theorem Queued.of_move (h : Queued s) {p : Fin n} {x y : LockStage} (hp : s.stage p = y)
    (hy : y ≠ .queued) (hstage : s'.stage = (s.move p x).stage) (hqueue : s'.queue = s.queue) :
    Queued s' := by
  refine ⟨hqueue ▸ h.nodup, ?_⟩
  intro q hq
  rw [hqueue] at hq
  have hne : q ≠ p := by
    intro hqp
    exact hy (hp.symm.trans (hqp ▸ h.stage q hq))
  rw [hstage]
  exact (Function.update_of_ne hne _ _).trans (h.stage q hq)

/-- A step that moves one process and touches the counters. -/
theorem shift_of_move {p : Fin n} {x y : LockStage} {u : Nat} (hp : s.stage p = y)
    (hstage : s'.stage = (s.move p x).stage) (hloop : s'.loop = s.loop)
    (hgrow : s.unlockEvt ≤ s'.unlockEvt)
    (halive : s'.alivePrc + y.alive.toNat = s.alivePrc + x.alive.toNat)
    (hcovered : s'.unlockedPrc + x.inHandOver.toNat + s.unlockEvt ≤
      s.unlockedPrc + y.inHandOver.toNat + s'.unlockEvt + u)
    (hstill : y.alive = false → y.inHandOver = false → x.alive = false ∧
      x.inHandOver.toNat ≤ u ∧ s'.unlockEvt = s.unlockEvt ∧ s'.unlockedPrc = s.unlockedPrc) :
    Shift s s' u := by
  have hA : s'.alives + y.alive.toNat = s.alives + x.alive.toNat := by
    unfold alives
    rw [hstage]
    exact tally_move hp
  have hH : s'.handOvers + y.inHandOver.toNat = s.handOvers + x.inHandOver.toNat := by
    unfold handOvers
    rw [hstage]
    exact tally_move hp
  refine ⟨hloop, hgrow, by omega, by omega, ?_⟩
  intro hA0 hH0
  have hy : y.alive = false := by
    by_contra hy
    have := tally_stage_pos hp (Bool.not_eq_false _ ▸ hy)
    unfold alives at hA0
    omega
  have hy' : y.inHandOver = false := by
    by_contra hy'
    have := tally_stage_pos hp (Bool.not_eq_false _ ▸ hy')
    unfold handOvers at hH0
    omega
  obtain ⟨hx, hx', hevt, hprc⟩ := hstill hy hy'
  rw [hx, hy] at hA
  rw [hy'] at hH
  simp only [Bool.toNat_false] at hA hH
  exact ⟨by omega, by omega, hevt, hprc⟩

/-- The steps of a process. -/
def Act.isPrc : Act n → Bool
  | tryLock _ => true
  | yielded _ => true
  | lockPrc _ => true
  | announce _ => true
  | acquire _ => true
  | rise _ => true
  | countUnlocked _ => true
  | retire _ => true
  | halt _ => true
  | loadWaiters _ => true
  | unlockEvt _ => true
  | release _ => true
  | _ => false

/-- A blocked process joins the queue. -/
theorem Queued.enqueue (h : Queued s) {p : Fin n} (hp : s.stage p = .announced) :
    Queued { s.move p .queued with queue := s.queue ++ [p] } := by
  have hnew : p ∉ s.queue := by
    intro hmem
    cases hp.symm.trans (h.stage p hmem)
  refine ⟨?_, ?_⟩
  · show (s.queue ++ [p]).Nodup
    rw [List.nodup_append]
    refine ⟨h.nodup, List.nodup_singleton p, ?_⟩
    intro q hq r hr
    rw [List.mem_singleton.1 hr]
    exact fun heq => hnew (heq ▸ hq)
  · intro q hq
    rcases List.mem_append.1 hq with hq | hq
    · exact (h.of_move (x := .queued) hp LockStage.noConfusion rfl rfl).stage q hq
    · rw [List.mem_singleton.1 hq]
      exact Function.update_self _ _ _

/-- The first of the queue gets the inner mutex. -/
theorem Queued.grant (h : Queued s) {q : Fin n} {rest : List (Fin n)}
    (hqueue : s.queue = q :: rest) : Queued { s.move q .granted with queue := rest } := by
  have hnodup := h.nodup
  rw [hqueue, List.nodup_cons] at hnodup
  refine ⟨hnodup.2, ?_⟩
  intro r hr
  have hne : r ≠ q := fun heq => hnodup.1 (heq ▸ hr)
  refine (Function.update_of_ne hne _ _).trans (h.stage r ?_)
  rw [hqueue]
  exact List.mem_cons_of_mem q hr

/-- Letting go of the inner mutex takes the dropping process out of the hand-over and puts the next
one in. -/
theorem release_shift (hq : Queued s) {p : Fin n} {c : Bool} (hp : s.stage p = .releasing c) :
    Shift s (s.move p .run).handOver (s.uncounted (.release p)).toNat ∧
      Queued (s.move p .run).handOver := by
  have hq₁ : Queued (s.move p .run) := hq.of_move hp LockStage.noConfusion rfl rfl
  have halive : (LockStage.releasing c).alive = true := rfl
  unfold handOver
  split
  · rename_i hempty
    refine ⟨shift_of_move hp rfl rfl (le_refl _) rfl ?_ ?_, hq₁.1, hq₁.2⟩
    · simp [move, LockStage.inHandOver]
      omega
    · intro hy
      cases halive.symm.trans hy
  · rename_i q rest hqueue
    refine ⟨?_, hq₁.grant hqueue⟩
    have hnext : (s.move p .run).stage q = .queued :=
      hq₁.stage q (hqueue ▸ List.mem_cons_self)
    have hA := tally_move (P := LockStage.alive) (x := .run) hp
    have hA' := tally_move (P := LockStage.alive) (x := .granted) hnext
    have hH := tally_move (P := LockStage.inHandOver) (x := .run) hp
    have hH' := tally_move (P := LockStage.inHandOver) (x := .granted) hnext
    have hpos := tally_stage_pos (P := LockStage.alive) hp halive
    rw [halive] at hA
    have hcounted : c.toNat + (s.uncounted (.release p)).toNat = 1 := by
      have hqueue : s.queue = q :: rest := hqueue
      cases c with
      | true => simp [uncounted, hp]
      | false => simp [uncounted, hp, hqueue]
    have hover : (LockStage.releasing c).inHandOver.toNat = c.toNat := by
      cases c with
      | true => rfl
      | false => rfl
    rw [hover] at hH
    simp only [LockStage.alive, LockStage.inHandOver, Bool.toNat_true,
      Bool.toNat_false] at hA hA' hH hH'
    refine ⟨rfl, le_refl _, ?_, ?_, ?_⟩
    · show s.alivePrc -
          ((tally LockStage.alive ((s.move p .run).move q .granted).stage : Nat) : Int) =
        s.alivePrc - ((tally LockStage.alive s.stage : Nat) : Int)
      omega
    · show s.unlockedPrc + tally LockStage.inHandOver ((s.move p .run).move q .granted).stage +
        s.unlockEvt ≤ s.unlockedPrc + tally LockStage.inHandOver s.stage + s.unlockEvt + _
      omega
    · intro hA0
      unfold alives at hA0
      omega

/-- A step of a process shifts the counters as it should, up to a hand-over that is not counted. -/
theorem prc_shift (hq : Queued s) (hstep : s.step a = some s') (ha : a.isPrc = true) :
    Shift s s' (s.uncounted a).toNat ∧ Queued s' := by
  cases a with
  | tryLock p | loadWaiters p =>
      simp only [step, Option.ite_none_right_eq_some] at hstep
      obtain ⟨hp, hstep⟩ := hstep
      split at hstep
      · obtain rfl := Option.some.inj hstep
        refine ⟨shift_of_move hp rfl rfl (le_refl _) rfl ?_ ?_,
          hq.of_move hp LockStage.noConfusion rfl rfl⟩
        · simp [move, LockStage.inHandOver]
        · simp [LockStage.alive]
      · obtain rfl := Option.some.inj hstep
        refine ⟨shift_of_move hp rfl rfl (le_refl _) rfl ?_ ?_,
          hq.of_move hp LockStage.noConfusion rfl rfl⟩
        · simp [move, LockStage.inHandOver]
        · simp [LockStage.alive]
  | yielded p | retire p =>
      simp only [step, Option.ite_none_right_eq_some, Option.some.injEq] at hstep
      obtain ⟨hp, rfl⟩ := hstep
      refine ⟨shift_of_move hp rfl rfl (le_refl _) rfl ?_ ?_,
        hq.of_move hp LockStage.noConfusion rfl rfl⟩
      · simp [move, LockStage.inHandOver, uncounted]
      · simp [move, LockStage.alive, LockStage.inHandOver, uncounted]
  | lockPrc p | rise p =>
      simp only [step, Option.ite_none_right_eq_some, Option.some.injEq] at hstep
      obtain ⟨hp, rfl⟩ := hstep
      refine ⟨shift_of_move hp rfl rfl (le_refl _) ?_ ?_ ?_,
        hq.of_move hp LockStage.noConfusion rfl rfl⟩
      · simp [LockStage.alive]
      · simp [move, LockStage.inHandOver, uncounted]
      · simp [move, LockStage.alive, LockStage.inHandOver, uncounted]
  | announce p | countUnlocked p =>
      simp only [step, Option.ite_none_right_eq_some, Option.some.injEq] at hstep
      obtain ⟨hp, rfl⟩ := hstep
      refine ⟨shift_of_move hp rfl rfl (le_refl _) ?_ ?_ ?_,
        hq.of_move hp LockStage.noConfusion rfl rfl⟩
      · simp [move, LockStage.alive]
      · simp [move, LockStage.inHandOver, uncounted]
      · simp [move, LockStage.alive, LockStage.inHandOver, uncounted]
  | unlockEvt p =>
      simp only [step, Option.ite_none_right_eq_some, Option.some.injEq] at hstep
      obtain ⟨hp, rfl⟩ := hstep
      refine ⟨shift_of_move hp rfl rfl (Nat.le_succ _) ?_ ?_ ?_,
        hq.of_move hp LockStage.noConfusion rfl rfl⟩
      · simp [move, LockStage.alive]
      · simp [move, LockStage.inHandOver, uncounted]
        omega
      · simp [move, LockStage.alive, LockStage.inHandOver, uncounted]
  | acquire p =>
      simp only [step, Option.ite_none_right_eq_some] at hstep
      obtain ⟨hp, hstep⟩ := hstep
      by_cases hheld : s.held = true
      · rw [if_pos hheld] at hstep
        obtain rfl := Option.some.inj hstep
        refine ⟨shift_of_move hp rfl rfl (le_refl _) rfl ?_ ?_, hq.enqueue hp⟩
        · simp [move, LockStage.inHandOver]
        · simp [LockStage.alive, LockStage.inHandOver, move]
      · rw [if_neg hheld] at hstep
        obtain rfl := Option.some.inj hstep
        have hun : s.uncounted (.acquire p) = true := by simp [uncounted, hheld]
        rw [hun]
        refine ⟨shift_of_move hp rfl rfl (le_refl _) rfl ?_ ?_,
          hq.of_move hp LockStage.noConfusion rfl rfl⟩
        · simp [move, LockStage.inHandOver]
          omega
        · simp [LockStage.alive, LockStage.inHandOver, move]
  | halt p =>
      simp only [step] at hstep
      split at hstep
      · rename_i hp
        obtain rfl := Option.some.inj hstep
        refine ⟨shift_of_move hp rfl rfl (le_refl _) ?_ ?_ ?_,
          hq.of_move hp LockStage.noConfusion rfl rfl⟩
        · simp [LockStage.alive]
        · simp [move, LockStage.inHandOver]
        · simp [LockStage.alive]
      · simp only [Option.ite_none_right_eq_some, Option.some.injEq] at hstep
        obtain ⟨hp, rfl⟩ := hstep
        refine ⟨shift_of_move hp rfl rfl (le_refl _) ?_ ?_ ?_,
          hq.of_move hp LockStage.noConfusion rfl rfl⟩
        · simp [LockStage.alive]
        · simp [move, LockStage.inHandOver]
        · simp [LockStage.alive]
  | release p =>
      simp only [step, Option.ite_none_right_eq_some, Option.some.injEq] at hstep
      obtain ⟨hp, rfl⟩ := hstep
      rcases hp with hp | hp
      · exact release_shift hq hp
      · exact release_shift hq hp
  | _ => cases ha

/-! ### The invariant -/

/-- The scheduler is past the waits, or will not wait again. -/
def Closing (s : PortLock n) : Prop :=
  s.loop = .clearEvt ∨ s.loop = .clearPrc ∨ s.loop = .drain ∨
    (s.loop = .sample ∧ s.unlockEvt = 0)

structure Inv (s : PortLock n) : Prop where
  queued : Queued s
  alive : s.alivePrc + s.wokenPrc = s.alives
  /-- The unlock events cover the processes unlocked and the hand-overs under way. -/
  covered : s.loop ≠ .clearPrc → s.unlockedPrc + s.handOvers ≤ s.unlockEvt
  closing : s.Closing → s.alives = 0 ∧ s.handOvers = 0 ∧ s.unlockEvt ≤ s.unlockedPrc
  cleared : s.loop = .clearPrc ∨ s.loop = .drain → s.unlockEvt = 0

theorem inv_init : Inv (init n) := by
  have hover : (init n).handOvers = 0 := tally_const LockStage.run
  have halives : (init n).alives = n := (tally_const LockStage.run).trans (Fintype.card_fin n)
  refine ⟨⟨List.nodup_nil, fun q hq => by cases hq⟩, ?_, ?_, ?_, ?_⟩
  · rw [halives]
    exact Int.add_zero _
  · intro _
    rw [hover]
    exact le_refl _
  · intro hc
    simp [Closing, init] at hc
  · intro hc
    simp [init] at hc

/-- A step of a process keeps the invariant when it is accounted for. -/
theorem inv_prc (h : Inv s) (hacc : s.Accounted a) (hstep : s.step a = some s')
    (ha : a.isPrc = true) : Inv s' := by
  obtain ⟨hshift, hq⟩ := prc_shift h.queued hstep ha
  have hwoken : s'.wokenPrc = s.wokenPrc := by
    unfold wokenPrc
    rw [hshift.loop]
  have hclosing : s'.Closing → s.Closing := by
    unfold Closing
    rw [hshift.loop]
    have := hshift.grow
    exact Or.imp_right (Or.imp_right (Or.imp_right (And.imp_right fun h => by omega)))
  have hcount : (s.uncounted a).toNat = 0 ∨
      s.unlockedPrc + s.handOvers < s.unlockEvt ∧ (s.uncounted a).toNat = 1 := by
    by_cases hun : s.uncounted a = true
    · exact Or.inr ⟨hacc.1 hun, by rw [hun]; rfl⟩
    · exact Or.inl (by rw [Bool.eq_false_of_not_eq_true hun]; rfl)
  have hover := hshift.covered
  have hstill := hshift.still
  refine ⟨hq, ?_, ?_, ?_, ?_⟩
  · have halive := hshift.alive
    have := h.alive
    omega
  · intro hne
    have := h.covered (hshift.loop ▸ hne)
    omega
  · intro hc
    obtain ⟨hA, hH, hle⟩ := h.closing (hclosing hc)
    obtain ⟨hA', hH', hevt, hprc⟩ := hstill hA hH
    omega
  · intro hc
    have hzero := h.cleared (hshift.loop ▸ hc)
    have hc : s.Closing := by
      rw [hshift.loop] at hc
      exact hc.elim (fun hc => Or.inr (Or.inl hc)) fun hc => Or.inr (Or.inr (Or.inl hc))
    obtain ⟨hA, hH, -⟩ := h.closing hc
    rw [(hstill hA hH).2.2.1, hzero]

/-- The scheduler finds no process alive. -/
theorem Inv.ended (h : Inv s) (hloop : ∀ m, s.loop ≠ .wake m) (hended : s.deltaCycleEnded = true) :
    s.alives = 0 := by
  have halive := h.alive
  have hzero : (0 : Int) = s.alivePrc := by simpa [deltaCycleEnded] using hended
  have hwoken : s.wokenPrc = 0 := by
    unfold wokenPrc
    split
    · rename_i m hm
      exact absurd hm (hloop m)
    · rfl
  omega

/-- A process the wake loop wakes. -/
theorem wakePrc_inv (h : Inv s) {p : Fin n} {m : Nat} {x y : LockStage} (hm : s.loop = .wake m)
    (hp : s.stage p = y) (hq : y ≠ .queued) (hy : y.alive = false) (hx : x.alive = true)
    (hover : x.inHandOver = y.inHandOver) :
    Inv { s.move p x with loop := .wake (m + 1) } := by
  have hA : tally LockStage.alive (s.move p x).stage = s.alives + 1 := by
    have := tally_move (P := LockStage.alive) (x := x) hp
    rw [hy, hx] at this
    exact this
  have hH : tally LockStage.inHandOver (s.move p x).stage = s.handOvers := by
    have := tally_move (P := LockStage.inHandOver) (x := x) hp
    rw [hover] at this
    exact Nat.add_right_cancel this
  have hwoken : s.wokenPrc = m := by
    unfold wokenPrc
    rw [hm]
  refine ⟨h.queued.of_move hp hq rfl rfl, ?_, ?_, ?_, ?_⟩
  · have halive := h.alive
    show s.alivePrc + ((m + 1 : Nat) : Int) =
      ((tally LockStage.alive (s.move p x).stage : Nat) : Int)
    omega
  · intro _
    have hcovered := h.covered (by rw [hm]; exact LoopStage.noConfusion)
    show s.unlockedPrc + tally LockStage.inHandOver (s.move p x).stage ≤ s.unlockEvt
    omega
  · intro hc
    simp [Closing] at hc
  · intro hc
    simp at hc

/-- A step of the scheduler that wakes nobody. -/
theorem Inv.of_loop (h : Inv s) {l : LoopStage} {evt prc : Nat}
    (hwoken : wokenPrc { s with loop := l } = s.wokenPrc)
    (hcovered : l ≠ .clearPrc → prc + s.handOvers ≤ evt)
    (hclosing : Closing { s with loop := l, unlockEvt := evt } →
      s.alives = 0 ∧ s.handOvers = 0 ∧ evt ≤ prc)
    (hcleared : l = .clearPrc ∨ l = .drain → evt = 0) :
    Inv { s with loop := l, unlockEvt := evt, unlockedPrc := prc } :=
  ⟨⟨h.queued.nodup, h.queued.stage⟩,
    (congrArg (fun m : Nat => s.alivePrc + m) hwoken).trans h.alive, hcovered, hclosing, hcleared⟩

theorem wokenPrc_of_ne {l : LoopStage} (hl : ∀ m, l ≠ .wake m) :
    wokenPrc { s with loop := l } = 0 := by
  unfold wokenPrc
  split
  · rename_i m hm
    exact absurd hm (hl m)
  · rfl

/-- A step of the scheduler keeps the invariant when it is accounted for. -/
theorem inv_loop (h : Inv s) (hacc : s.Accounted a) (hstep : s.step a = some s')
    (ha : a.isPrc ≠ true) : Inv s' := by
  have hidle : ∀ {x : LoopStage}, s.loop = x → (∀ m, x ≠ .wake m) → s.wokenPrc = 0 := by
    rintro x rfl hx
    exact wokenPrc_of_ne (s := s) hx
  cases a with
  | cycleEnded =>
      simp only [step, Option.ite_none_right_eq_some, Option.some.injEq] at hstep
      obtain ⟨⟨hloop, hended⟩, rfl⟩ := hstep
      have hcovered := h.covered (by rw [hloop]; exact LoopStage.noConfusion)
      have hA := h.ended (fun m hm => by cases hloop.symm.trans hm) hended
      refine h.of_loop (hidle hloop fun _ => LoopStage.noConfusion).symm (fun _ => hcovered)
        ?_ (by simp)
      intro hc
      have hevt : s.unlockEvt = 0 := by simpa [Closing] using hc
      exact ⟨hA, by omega, by omega⟩
  | sample =>
      simp only [step, Option.ite_none_right_eq_some] at hstep
      obtain ⟨hloop, hstep⟩ := hstep
      have hcovered := h.covered (by rw [hloop]; exact LoopStage.noConfusion)
      have hwoken := (hidle hloop fun _ => LoopStage.noConfusion).symm
      by_cases hevt : 0 < s.unlockEvt
      · rw [if_pos hevt] at hstep
        obtain rfl := Option.some.inj hstep
        exact h.of_loop hwoken (fun _ => hcovered) (fun hc => by simp [Closing] at hc) (by simp)
      · rw [if_neg hevt] at hstep
        obtain rfl := Option.some.inj hstep
        have hzero : s.unlockEvt = 0 := Nat.eq_zero_of_not_pos hevt
        exact h.of_loop hwoken (fun _ => hcovered)
          (fun _ => h.closing (Or.inr (Or.inr (Or.inr ⟨hloop, hzero⟩)))) (by simp)
  | settled =>
      simp only [step] at hstep
      split at hstep
      · rename_i m hloop
        simp only [Option.ite_none_right_eq_some, Option.some.injEq] at hstep
        obtain ⟨-, rfl⟩ := hstep
        have hcovered := h.covered (by rw [hloop]; exact LoopStage.noConfusion)
        exact h.of_loop (hidle hloop fun _ => LoopStage.noConfusion).symm (fun _ => hcovered)
          (fun hc => by simp [Closing] at hc) (by simp)
      · cases hstep
  | endedAgain =>
      simp only [step, Option.ite_none_right_eq_some, Option.some.injEq] at hstep
      obtain ⟨⟨hloop, hended⟩, rfl⟩ := hstep
      have hcovered := h.covered (by rw [hloop]; exact LoopStage.noConfusion)
      have hA := h.ended (fun m hm => by cases hloop.symm.trans hm) hended
      have hle := hacc.2 rfl
      exact h.of_loop (hidle hloop fun _ => LoopStage.noConfusion).symm (fun _ => hcovered)
        (fun _ => ⟨hA, by omega, hle⟩) (by simp)
  | clearEvt =>
      simp only [step, Option.ite_none_right_eq_some, Option.some.injEq] at hstep
      obtain ⟨hloop, rfl⟩ := hstep
      obtain ⟨hA, hH, -⟩ := h.closing (Or.inl hloop)
      exact h.of_loop (hidle hloop fun _ => LoopStage.noConfusion).symm (fun hne => absurd rfl hne)
        (fun _ => ⟨hA, hH, Nat.zero_le _⟩) (fun _ => rfl)
  | clearPrc =>
      simp only [step, Option.ite_none_right_eq_some, Option.some.injEq] at hstep
      obtain ⟨hloop, rfl⟩ := hstep
      obtain ⟨hA, hH, -⟩ := h.closing (Or.inr (Or.inl hloop))
      have hzero := h.cleared (Or.inl hloop)
      exact h.of_loop (hidle hloop fun _ => LoopStage.noConfusion).symm (fun _ => by omega)
        (fun _ => ⟨hA, hH, by omega⟩) (fun _ => hzero)
  | advance =>
      simp only [step, Option.ite_none_right_eq_some, Option.some.injEq] at hstep
      obtain ⟨hloop, rfl⟩ := hstep
      have hcovered := h.covered (by rw [hloop]; exact LoopStage.noConfusion)
      exact h.of_loop (hidle hloop fun _ => LoopStage.noConfusion).symm (fun _ => hcovered)
        (fun hc => by simp [Closing] at hc) (by simp)
  | wakePrc p =>
      simp only [step] at hstep
      split at hstep
      · rename_i m hm
        split at hstep
        · rename_i hp
          obtain rfl := Option.some.inj hstep
          exact wakePrc_inv h hm hp LockStage.noConfusion rfl rfl rfl
        · simp only [Option.ite_none_right_eq_some, Option.some.injEq] at hstep
          obtain ⟨hp, rfl⟩ := hstep
          exact wakePrc_inv h hm hp LockStage.noConfusion rfl rfl rfl
      · cases hstep
  | endWake =>
      simp only [step] at hstep
      split at hstep
      · rename_i m hm
        obtain rfl := Option.some.inj hstep
        have halive := h.alive
        have hcovered := h.covered (by rw [hm]; exact LoopStage.noConfusion)
        unfold wokenPrc at halive
        rw [hm] at halive
        refine ⟨⟨h.queued.nodup, h.queued.stage⟩, ?_, fun _ => hcovered,
          fun hc => by simp [Closing] at hc, by simp⟩
        exact (Int.add_zero _).trans halive
      · cases hstep
  | _ => exact absurd rfl ha

/-! ### The hand-over -/

theorem inv_step (h : Inv s) (hacc : s.Accounted a) (hstep : s.step a = some s') : Inv s' := by
  by_cases ha : a.isPrc = true
  · exact inv_prc h hacc hstep ha
  · exact inv_loop h hacc hstep ha

/-- In a run whose steps are all accounted for, whenever the scheduler drains the orders and
advances the tick no process has been granted the port and is still in `lock`. -/
theorem handOver_resolved {acts : List (Act n)} (hacc : Runs.Along step Accounted (init n) acts)
    (hrun : Runs.run step (init n) acts = some s) (hdrain : s.loop = .drain) (p : Fin n) :
    (s.stage p).inLock = false := by
  have hinv : Inv s :=
    Runs.run_inv_along (fun _ _ _ hi ha hs => inv_step hi ha hs) inv_init hacc hrun
  obtain ⟨hA, hH, -⟩ := hinv.closing (Or.inr (Or.inr (Or.inl hdrain)))
  have halive := tally_eq_zero_iff.1 hA p
  have hover := tally_eq_zero_iff.1 hH p
  cases hp : s.stage p with
  | yielding => rw [hp] at halive; cases halive
  | granted => rw [hp] at hover; cases hover
  | rising => rw [hp] at hover; cases hover
  | resumed => rw [hp] at halive; cases halive
  | _ => rfl

/-- Process 1 gets the port from process 0 and halts with it before the delta-cycle ends. -/
theorem oneHandOver_resolved :
    ∃ s, Runs.run step (init 2) [.tryLock 0, .yielded 0, .tryLock 1, .lockPrc 1, .announce 1,
        .acquire 1, .loadWaiters 0, .unlockEvt 0, .release 0, .halt 0, .cycleEnded, .sample,
        .rise 1, .countUnlocked 1, .retire 1, .settled, .halt 1, .endedAgain, .clearEvt,
        .clearPrc] = some s ∧
      s.loop = .drain ∧ ∀ p, (s.stage p).inLock = false := by
  have hacc : Runs.Along step Accounted (init 2) [.tryLock 0, .yielded 0, .tryLock 1, .lockPrc 1,
      .announce 1, .acquire 1, .loadWaiters 0, .unlockEvt 0, .release 0, .halt 0, .cycleEnded,
      .sample, .rise 1, .countUnlocked 1, .retire 1, .settled, .halt 1, .endedAgain, .clearEvt,
      .clearPrc] := by decide
  exact ⟨_, rfl, rfl, handOver_resolved hacc rfl rfl⟩

/-- With a third process the hand-over made while the first one is resolved is missed; and so is the
port taken by a process that was refused but not announced when the guard was dropped. -/
theorem handOver_missed :
    (∃ s, Runs.run step (init 3) [.tryLock 0, .yielded 0, .tryLock 1, .lockPrc 1, .announce 1,
        .acquire 1, .tryLock 2, .lockPrc 2, .announce 2, .acquire 2, .loadWaiters 0, .unlockEvt 0,
        .release 0, .halt 0, .cycleEnded, .sample, .rise 1, .countUnlocked 1, .retire 1, .settled,
        .loadWaiters 1, .unlockEvt 1, .release 1, .halt 1, .endedAgain, .clearEvt, .clearPrc] =
          some s ∧ s.loop = .drain ∧ s.stage 2 = .granted) ∧
    ∃ s, Runs.run step (init 2) [.tryLock 0, .yielded 0, .tryLock 1, .lockPrc 1, .loadWaiters 0,
        .release 0, .halt 0, .cycleEnded, .announce 1, .acquire 1, .sample, .clearEvt, .clearPrc] =
          some s ∧ s.loop = .drain ∧ s.stage 1 = .granted :=
  ⟨⟨_, rfl, rfl, rfl⟩, ⟨_, rfl, rfl, rfl⟩⟩

end PortLock

end Ra2m
