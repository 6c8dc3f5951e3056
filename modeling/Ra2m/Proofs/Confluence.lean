/-
The order of the queue does not matter.

Processes of one delta-cycle reach the order queue in any order, and the heap pops
tasks of one tick in any order.  `Sim.Same` relates two states of the loop that
hold the same tasks and, for every event, the same waiters, each as a multiset; it
is kept by a turn on two permutations of the same orders, and the two delta-cycles
have the same tick, fire the same events and call the same wakers.  By induction
two runs fed with permutations of the same batches stay the same throughout.

The point where order could matter is an event that is waited on and notified in
the same batch; it does not, because a drained notification fires in a later
delta-cycle, when all waiters of the batch are registered.
-/
import Ra2m.Sim.Scheduler
import Mathlib.Algebra.BigOperators.Group.Finset.Basic
import Mathlib.Algebra.Order.Group.Multiset
import Mathlib.Data.List.TakeWhile
import Mathlib.Tactic.Abel

namespace Ra2m

open Scheduler

variable {W : Type} {duration : Tick}

/-- The same tick, the same tasks and the same waiters. -/
structure Sim.Same (sim sim' : Sim W) : Prop where
  now : sim.now = sim'.now
  heap : sim.sched.waitOnTick.Perm sim'.sched.waitOnTick
  waiters : ∀ evt, (sim.sched.waiters evt).Perm (sim'.sched.waiters evt)

/-- Both stop alike, or both enter a delta-cycle of the same tick, events and wakes. -/
inductive Outcome.Same : Outcome W → Outcome W → Prop
  | stop (kind : ExitKind) : Outcome.Same (.stop kind) (.stop kind)
  | enter {c c' : Cycle W} (htick : c.tick = c'.tick) (htrig : c.triggered.Perm c'.triggered)
      (hwoken : c.woken.Perm c'.woken) : Outcome.Same (.enter c) (.enter c')

structure Turn.Same (t t' : Turn W) : Prop where
  now : t.now = t'.now
  orders : t.orders.Perm t'.orders
  outcome : t.outcome.Same t'.outcome

theorem Sim.Same.refl (sim : Sim W) : sim.Same sim :=
  ⟨rfl, List.Perm.refl _, fun _ => List.Perm.refl _⟩

/-! ### Draining -/

/-- No order of the list is an `Exit`. -/
def NoExit (orders : List (Order W)) : Prop := ∀ kind, .exit kind ∉ orders

theorem NoExit.perm {orders orders' : List (Order W)} (h : NoExit orders)
    (hp : orders.Perm orders') : NoExit orders' :=
  fun kind hk => h kind (hp.mem_iff.2 hk)

theorem NoExit.beforeExit {orders : List (Order W)} (h : NoExit orders) :
    beforeExit orders = orders := by
  unfold Scheduler.beforeExit
  rw [List.takeWhile_eq_self_iff]
  intro o ho
  cases o with
  | exit kind => exact absurd ho (h kind)
  | waitUntil t w => rfl
  | waitOn e w => rfl
  | notifyAt t e => rfl

/-- Draining two permutations of the same orders gives the same tasks and the same waiters. -/
theorem drain_same {sim sim' : Sim W} {orders orders' : List (Order W)} {s s' : Scheduler W}
    {r r' : Option ExitKind} (hsame : sim.Same sim') (hp : orders.Perm orders')
    (hexit : NoExit orders) (h : sim.sched.drain sim.now orders = (s, r))
    (h' : sim'.sched.drain sim'.now orders' = (s', r')) :
    s.waitOnTick.Perm s'.waitOnTick ∧ (∀ evt, (s.waiters evt).Perm (s'.waiters evt)) ∧ r = none ∧
      r' = none := by
  have hexit' := hexit.perm hp
  have hheap := drain_waitOnTick sim.now sim.sched orders
  have hheap' := drain_waitOnTick sim'.now sim'.sched orders'
  have hnone := (drain_snd_eq_none_iff sim.now sim.sched orders).2 hexit
  have hnone' := (drain_snd_eq_none_iff sim'.now sim'.sched orders').2 hexit'
  rw [h] at hheap hnone
  rw [h'] at hheap' hnone'
  rw [hexit.beforeExit] at hheap
  rw [hexit'.beforeExit, ← hsame.now] at hheap'
  refine ⟨?_, ?_, hnone, hnone'⟩
  · rw [hheap, hheap']
    exact hsame.heap.append (hp.filterMap _)
  · intro evt
    have hwait := drain_waiters sim.now sim.sched orders evt
    have hwait' := drain_waiters sim'.now sim'.sched orders' evt
    rw [h, hexit.beforeExit] at hwait
    rw [h', hexit'.beforeExit] at hwait'
    rw [hwait, hwait']
    exact (hsame.waiters evt).append (hp.filterMap _)

/-! ### The wake loop -/

/-- The wakers called for the tasks `xs`: those of the wakeups, and the waiters of every event that
fires, once however often it fires. -/
theorem foldl_woken (b : Batch W) (xs : List (Task W)) :
    (((xs.foldl wakeTask b).wakes.flatMap Prod.snd : List W) : Multiset W) =
      (b.wakes.flatMap Prod.snd : List W) + (xs.filterMap Task.waker? : List W) +
        ∑ evt ∈ (xs.filterMap Task.event?).toFinset, (b.sched.waiters evt : Multiset W) := by
  induction xs generalizing b with
  | nil => simp
  | cons x xs ih =>
      rw [List.foldl_cons, ih, wakeTask_wakes, List.flatMap_append, List.flatMap_singleton,
        ← Multiset.coe_add]
      cases x with
      | wakeup t w =>
          have hsum : ∀ evt, (wakeTask b (.wakeup t w)).sched.waiters evt = b.sched.waiters evt :=
            fun evt => by rw [wakeTask_waiters]; rfl
          simp only [hsum, List.filterMap_cons, Task.waker?, Task.event?, called,
            ← Multiset.cons_coe, Multiset.coe_nil, Multiset.cons_zero]
          rw [← Multiset.singleton_add]
          abel
      | notify t e =>
          have hself : (wakeTask b (.notify t e)).sched.waiters e = [] := by
            rw [wakeTask_waiters]
            exact if_pos rfl
          have hother : ∀ evt, evt ≠ e →
              (wakeTask b (.notify t e)).sched.waiters evt = b.sched.waiters evt := by
            intro evt hne
            rw [wakeTask_waiters]
            exact if_neg fun h => hne (Option.some.inj h).symm
          have hrest : ∑ evt ∈ (xs.filterMap Task.event?).toFinset,
                ((wakeTask b (.notify t e)).sched.waiters evt : Multiset W) =
              ∑ evt ∈ (xs.filterMap Task.event?).toFinset.erase e,
                (b.sched.waiters evt : Multiset W) := by
            refine (Finset.sum_erase _ ?_).symm.trans (Finset.sum_congr rfl ?_)
            · rw [hself]
              rfl
            · intro evt hevt
              rw [hother evt (Finset.ne_of_mem_erase hevt)]
          have hsplit := Finset.add_sum_erase (insert e (xs.filterMap Task.event?).toFinset)
            (fun evt => (b.sched.waiters evt : Multiset W)) (Finset.mem_insert_self e _)
          rw [Finset.erase_insert_eq_erase] at hsplit
          simp only [List.filterMap_cons, Task.waker?, Task.event?, called, List.toFinset_cons]
          rw [hrest, ← hsplit]
          abel

/-- The wake loop on the same tasks, in any order, from the same waiters. -/
theorem wakes_same (b b' : Batch W) {xs xs' : List (Task W)} (hp : xs.Perm xs')
    (hwait : ∀ evt, (b.sched.waiters evt).Perm (b'.sched.waiters evt)) (hb : b.wakes = [])
    (hb' : b'.wakes = []) :
    ((xs.foldl wakeTask b).wakes.flatMap Prod.snd).Perm
        ((xs'.foldl wakeTask b').wakes.flatMap Prod.snd) ∧
      ∀ evt, ((xs.foldl wakeTask b).sched.waiters evt).Perm
        ((xs'.foldl wakeTask b').sched.waiters evt) := by
  refine ⟨?_, ?_⟩
  · rw [← Multiset.coe_eq_coe, foldl_woken, foldl_woken, hb, hb',
      Multiset.coe_eq_coe.2 (hp.filterMap Task.waker?),
      List.toFinset_eq_of_perm _ _ (hp.filterMap Task.event?)]
    congr 1
    apply Finset.sum_congr rfl
    intro evt _
    exact Multiset.coe_eq_coe.2 (hwait evt)
  · intro evt
    rw [foldl_waiters, foldl_waiters]
    by_cases hmem : evt ∈ xs.filterMap Task.event?
    · rw [if_pos hmem, if_pos ((hp.filterMap _).mem_iff.1 hmem)]
    · rw [if_neg hmem, if_neg fun h => hmem ((hp.filterMap _).mem_iff.2 h)]
      exact hwait evt

/-! ### Turns and runs -/

/-- A turn whose drain meets no `Exit` stops on an empty heap, stops before the next tick, or enters
it. -/
private theorem turn_cases {sim sim₁ : Sim W} {orders : List (Order W)} {early : Bool}
    {o : Outcome W} {s : Scheduler W} (hdrain : sim.sched.drain sim.now orders = (s, none))
    (h : TurnStep duration sim orders early o sim₁) :
    (MinHeap.peek Task.tick s.waitOnTick = none ∧ o = .stop .noHwPrc ∧ sim₁ = ⟨sim.now, s⟩) ∨
    (∃ t, MinHeap.peek Task.tick s.waitOnTick = some t ∧ ¬ (t ≤ duration ∧ early = false) ∧
      o = .stop .endOfTick ∧ sim₁ = ⟨sim.now, s⟩) ∨
    ∃ t popped rest b, MinHeap.peek Task.tick s.waitOnTick = some t ∧
      (t ≤ duration ∧ early = false) ∧ MinHeap.PopUpTo Task.tick t s.waitOnTick popped rest ∧
      popped.foldl wakeTask { sched := { s with waitOnTick := rest } } = b ∧
      o = .enter ⟨t, b.wakes, b.keeper.triggeredEvents⟩ ∧ sim₁ = ⟨t, b.sched⟩ := by
  cases h with
  | exit hd =>
      rw [hdrain] at hd
      cases hd
  | noHwPrc hd hpeek =>
      rw [hdrain] at hd
      cases hd
      exact Or.inl ⟨hpeek, rfl, rfl⟩
  | endOfTick hd hpeek hend =>
      rw [hdrain] at hd
      cases hd
      exact Or.inr (Or.inl ⟨_, hpeek, fun h => not_le.2 hend h.1, rfl, rfl⟩)
  | earlyExit hd hpeek hin hearly =>
      rw [hdrain] at hd
      cases hd
      refine Or.inr (Or.inl ⟨_, hpeek, ?_, rfl, rfl⟩)
      intro h
      rw [hearly] at h
      cases h.2
  | enter hd hpeek hin hearly hpop hwake =>
      rw [hdrain] at hd
      cases hd
      exact Or.inr (Or.inr ⟨_, _, _, _, hpeek, ⟨hin, hearly⟩, hpop, hwake, rfl, rfl⟩)

/-- A turn on permuted orders from the same state has the same outcome and leads to the same
state. -/
theorem turn_same {sim sim' sim₁ sim₁' : Sim W} {orders orders' : List (Order W)}
    {early early' : Bool} {o o' : Outcome W} (hsame : sim.Same sim') (hp : orders.Perm orders')
    (hearly : early = early') (hexit : NoExit orders)
    (h : TurnStep duration sim orders early o sim₁)
    (h' : TurnStep duration sim' orders' early' o' sim₁') : o.Same o' ∧ sim₁.Same sim₁' := by
  subst hearly
  rcases hd : sim.sched.drain sim.now orders with ⟨s, r⟩
  rcases hd' : sim'.sched.drain sim'.now orders' with ⟨s', r'⟩
  obtain ⟨hheap, hwait, rfl, rfl⟩ := drain_same hsame hp hexit hd hd'
  have hpeeks : MinHeap.peek Task.tick s.waitOnTick = MinHeap.peek Task.tick s'.waitOnTick :=
    MinHeap.peek_perm hheap
  have hdrained : Sim.Same ⟨sim.now, s⟩ ⟨sim'.now, s'⟩ := ⟨hsame.now, hheap, hwait⟩
  rcases turn_cases hd h with ⟨hpeek, rfl, rfl⟩ | ⟨t, hpeek, hno, rfl, rfl⟩ |
    ⟨t, popped, rest, b, hpeek, hgo, hpop, hb, rfl, rfl⟩
  · rcases turn_cases hd' h' with ⟨-, rfl, rfl⟩ | ⟨t', hpeek', -⟩ | ⟨t', _, _, _, hpeek', -⟩
    · exact ⟨Outcome.Same.stop _, hdrained⟩
    · rw [← hpeeks, hpeek] at hpeek'
      cases hpeek'
    · rw [← hpeeks, hpeek] at hpeek'
      cases hpeek'
  · rcases turn_cases hd' h' with
      ⟨hpeek', -⟩ | ⟨t', -, -, rfl, rfl⟩ | ⟨t', _, _, _, hpeek', hgo', -⟩
    · rw [← hpeeks, hpeek] at hpeek'
      cases hpeek'
    · exact ⟨Outcome.Same.stop _, hdrained⟩
    · rw [← hpeeks, hpeek] at hpeek'
      cases hpeek'
      exact absurd hgo' hno
  · rcases turn_cases hd' h' with ⟨hpeek', -⟩ | ⟨t', hpeek', hno', -⟩ |
      ⟨t', popped', rest', b', hpeek', -, hpop', hb', rfl, rfl⟩
    · rw [← hpeeks, hpeek] at hpeek'
      cases hpeek'
    · rw [← hpeeks, hpeek] at hpeek'
      cases hpeek'
      exact absurd hgo hno'
    · rw [← hpeeks, hpeek] at hpeek'
      obtain rfl := Option.some.inj hpeek'
      have hpopped : popped.Perm popped' :=
        hpop.popped_perm.trans ((hheap.filter _).trans hpop'.popped_perm.symm)
      have hrest : rest.Perm rest' :=
        hpop.left_perm.trans ((hheap.filter _).trans hpop'.left_perm.symm)
      obtain ⟨hwoken, hafter⟩ := wakes_same (Batch.mk { s with waitOnTick := rest } {} [])
        (Batch.mk { s' with waitOnTick := rest' } {} []) hpopped hwait rfl rfl
      obtain ⟨hleft, htrig, -⟩ := foldl_wakeTask { sched := { s with waitOnTick := rest } } popped
      obtain ⟨hleft', htrig', -⟩ :=
        foldl_wakeTask { sched := { s' with waitOnTick := rest' } } popped'
      rw [hb] at hwoken hafter hleft htrig
      rw [hb'] at hwoken hafter hleft' htrig'
      refine ⟨Outcome.Same.enter rfl ?_ hwoken, rfl, ?_, hafter⟩
      · show b.keeper.triggeredEvents.Perm b'.keeper.triggeredEvents
        rw [htrig, htrig']
        exact (hpopped.filterMap _).append_left _
      · show b.sched.waitOnTick.Perm b'.sched.waitOnTick
        rw [hleft, hleft']
        exact hrest

/-- Every state of the loop has a turn on every batch of orders. -/
theorem exists_turn (duration : Tick) (sim : Sim W) (orders : List (Order W)) (early : Bool) :
    ∃ o sim', TurnStep duration sim orders early o sim' := by
  cases hdrain : sim.sched.drain sim.now orders with
  | mk s r =>
      cases r with
      | some kind => exact ⟨_, _, TurnStep.exit hdrain⟩
      | none =>
          cases hpeek : MinHeap.peek Task.tick s.waitOnTick with
          | none => exact ⟨_, _, TurnStep.noHwPrc hdrain hpeek⟩
          | some nextTick =>
              by_cases hin : nextTick ≤ duration
              · cases early with
                | true => exact ⟨_, _, TurnStep.earlyExit hdrain hpeek hin rfl⟩
                | false =>
                    obtain ⟨popped, rest, hpop⟩ :
                        ∃ xs rest, MinHeap.PopUpTo Task.tick nextTick s.waitOnTick xs rest :=
                      MinHeap.PopUpTo.exists_run nextTick s.waitOnTick
                    exact ⟨_, _, TurnStep.enter hdrain hpeek hin rfl hpop rfl⟩
              · exact ⟨_, _, TurnStep.endOfTick hdrain hpeek (not_le.1 hin)⟩

/-- Two turns are given the same orders, in any order, and the same exit request. -/
structure Turn.SameInput (t t' : Turn W) : Prop where
  orders : t.orders.Perm t'.orders
  earlyExit : t.earlyExit = t'.earlyExit

/-- Two runs from the same state with the same inputs do the same, turn by turn. -/
private theorem runs_same {sim sim' sim₂ sim₂' : Sim W} {turns turns₂ : List (Turn W)}
    (hsame : sim.Same sim₂) (h : Simulate duration sim turns sim')
    (hexit : ∀ t ∈ turns, NoExit t.orders) (h₂ : Simulate duration sim₂ turns₂ sim₂')
    (hin : List.Forall₂ Turn.SameInput turns turns₂) :
    List.Forall₂ Turn.Same turns turns₂ ∧ sim'.Same sim₂' := by
  induction h generalizing sim₂ turns₂ with
  | start sim =>
      cases hin
      cases h₂
      exact ⟨List.Forall₂.nil, hsame⟩
  | @stop sim sim' orders early kind hturn =>
      obtain ⟨t₂, rest, hhead, htail, rfl⟩ := List.forall₂_cons_left_iff.1 hin
      cases htail
      cases h₂ with
      | stop hturn₂ =>
          obtain ⟨hout, hend⟩ := turn_same hsame hhead.orders hhead.earlyExit
            (hexit _ List.mem_cons_self) hturn hturn₂
          exact ⟨List.Forall₂.cons ⟨hsame.now, hhead.orders, hout⟩ List.Forall₂.nil, hend⟩
      | turn hturn₂ hrest₂ =>
          obtain ⟨hout, -⟩ := turn_same hsame hhead.orders hhead.earlyExit
            (hexit _ List.mem_cons_self) hturn hturn₂
          cases hout
  | @turn sim sim₁ sim' orders early c turns hturn hrest ih =>
      obtain ⟨t₂, rest, hhead, htail, rfl⟩ := List.forall₂_cons_left_iff.1 hin
      cases h₂ with
      | stop hturn₂ =>
          obtain ⟨hout, -⟩ := turn_same hsame hhead.orders hhead.earlyExit
            (hexit _ List.mem_cons_self) hturn hturn₂
          cases hout
      | turn hturn₂ hrest₂ =>
          obtain ⟨hout, hmid⟩ := turn_same hsame hhead.orders hhead.earlyExit
            (hexit _ List.mem_cons_self) hturn hturn₂
          obtain ⟨hall, hend⟩ := ih hmid (fun t ht => hexit t (List.mem_cons_of_mem _ ht)) hrest₂
            htail
          exact ⟨List.Forall₂.cons ⟨hsame.now, hhead.orders, hout⟩ hall, hend⟩

/-- A run can be repeated on any permutation of its batches. -/
private theorem exists_run {sim sim' sim₂ : Sim W} {turns : List (Turn W)}
    (hsame : sim.Same sim₂) (h : Simulate duration sim turns sim')
    (hexit : ∀ t ∈ turns, NoExit t.orders) {batches : List (List (Order W))}
    (hin : List.Forall₂ (fun t batch => t.orders.Perm batch) turns batches) :
    ∃ turns₂ sim₂', Simulate duration sim₂ turns₂ sim₂' ∧ turns₂.map Turn.orders = batches ∧
      List.Forall₂ Turn.SameInput turns turns₂ := by
  induction h generalizing sim₂ batches with
  | start sim =>
      cases hin
      exact ⟨[], sim₂, Simulate.start sim₂, rfl, List.Forall₂.nil⟩
  | @stop sim sim' orders early kind hturn =>
      obtain ⟨batch, rest, hhead, htail, rfl⟩ := List.forall₂_cons_left_iff.1 hin
      cases htail
      obtain ⟨o, sim₂', hturn₂⟩ := exists_turn duration sim₂ batch early
      obtain ⟨hout, -⟩ := turn_same hsame hhead rfl (hexit _ List.mem_cons_self) hturn hturn₂
      cases hout
      exact ⟨_, _, Simulate.stop hturn₂, rfl, List.Forall₂.cons ⟨hhead, rfl⟩ List.Forall₂.nil⟩
  | @turn sim sim₁ sim' orders early c turns hturn hrest ih =>
      obtain ⟨batch, rest, hhead, htail, rfl⟩ := List.forall₂_cons_left_iff.1 hin
      obtain ⟨o, sim₂', hturn₂⟩ := exists_turn duration sim₂ batch early
      obtain ⟨hout, hmid⟩ := turn_same hsame hhead rfl (hexit _ List.mem_cons_self) hturn hturn₂
      cases hout
      obtain ⟨turns₂, sim₃, hrest₂, rfl, hall⟩ :=
        ih hmid (fun t ht => hexit t (List.mem_cons_of_mem _ ht)) htail
      exact ⟨_, _, Simulate.turn hturn₂ hrest₂, rfl, List.Forall₂.cons ⟨hhead, rfl⟩ hall⟩

private theorem sameInput_of {turns turns₂ : List (Turn W)}
    (hperm : List.Forall₂ (fun t batch => t.orders.Perm batch) turns (turns₂.map Turn.orders))
    (hearly : turns₂.map Turn.earlyExit = turns.map Turn.earlyExit) :
    List.Forall₂ Turn.SameInput turns turns₂ := by
  induction turns generalizing turns₂ with
  | nil =>
      cases turns₂ with
      | nil => exact List.Forall₂.nil
      | cons t₂ rest => cases hearly
  | cons t rest ih =>
      cases turns₂ with
      | nil => cases hearly
      | cons t₂ rest₂ =>
          obtain ⟨he, hes⟩ := List.cons.inj hearly
          obtain ⟨hhead, htail⟩ := List.forall₂_cons.1 hperm
          exact List.Forall₂.cons ⟨hhead, he.symm⟩ (ih htail hes)

/-- Whatever the order in which the orders of each batch reach the queue, a run can be made on them,
and every such run enters the same ticks, fires the same events, calls the same wakers and ends in
the same state. -/
theorem simulate_order_independent {sim sim' sim₂ : Sim W} {turns : List (Turn W)}
    {batches : List (List (Order W))} (hsame : sim.Same sim₂)
    (h : Simulate duration sim turns sim') (hexit : ∀ t ∈ turns, NoExit t.orders)
    (hperm : List.Forall₂ (fun t batch => t.orders.Perm batch) turns batches) :
    (∃ turns₂ sim₂', Simulate duration sim₂ turns₂ sim₂' ∧ turns₂.map Turn.orders = batches ∧
      List.Forall₂ Turn.SameInput turns turns₂) ∧
    ∀ turns₂ sim₂', Simulate duration sim₂ turns₂ sim₂' → turns₂.map Turn.orders = batches →
      turns₂.map Turn.earlyExit = turns.map Turn.earlyExit →
        List.Forall₂ Turn.Same turns turns₂ ∧ sim'.Same sim₂' := by
  refine ⟨exists_run hsame h hexit hperm, ?_⟩
  intro turns₂ sim₂' h₂ hbatches hearly
  exact runs_same hsame h hexit h₂ (sameInput_of (hbatches ▸ hperm) hearly)

/-- Process 7 waits on event 3 in the delta-cycle that notifies it. -/
theorem waitAndNotify : Simulate 10 (⟨0, Scheduler.new⟩ : Sim Nat)
    [⟨0, [.waitOn 3 7, .notifyAt 0 3], false, .enter ⟨1, [(.notify 1 3, [7])], [3]⟩⟩]
    ⟨1, Scheduler.new⟩ := by
  have hpop : MinHeap.PopUpTo Task.tick 1 [(Task.notify 1 3 : Task Nat)] [.notify 1 3] [] := by
    refine MinHeap.PopUpTo.pop ⟨List.Perm.refl _, ?_⟩ (le_refl _) (MinHeap.PopUpTo.stop ?_)
    · intro y hy
      cases hy
    · intro y hy
      cases hy
  exact Simulate.turn (TurnStep.enter (s := ⟨[.notify 1 3], ⟨[(3, [7])], by simp⟩⟩)
    (b := ⟨Scheduler.new, ⟨[3], []⟩, [(.notify 1 3, [7])]⟩) rfl rfl (by decide) rfl hpop rfl)
    (Simulate.start _)

theorem waitAndNotify_swapped :
    ∃ turns₂ sim₂', Simulate 10 (⟨0, Scheduler.new⟩ : Sim Nat) turns₂ sim₂' ∧
      turns₂.map Turn.orders = [[.notifyAt 0 3, .waitOn 3 7]] ∧
      (⟨1, Scheduler.new⟩ : Sim Nat).Same sim₂' := by
  have hexit : ∀ t ∈ ([⟨0, [.waitOn 3 7, .notifyAt 0 3], false,
      .enter ⟨1, [(.notify 1 3, [7])], [3]⟩⟩] : List (Turn Nat)), NoExit t.orders := by
    intro t ht kind hk
    rw [List.mem_singleton.1 ht] at hk
    simp at hk
  have hswap : [(.waitOn 3 7 : Order Nat), .notifyAt 0 3].Perm [.notifyAt 0 3, .waitOn 3 7] :=
    List.Perm.swap _ _ _
  obtain ⟨⟨turns₂, sim₂', hrun, hbatch, hin⟩, hall⟩ := simulate_order_independent
    (Sim.Same.refl _) waitAndNotify hexit (List.Forall₂.cons hswap List.Forall₂.nil)
  refine ⟨turns₂, sim₂', hrun, hbatch, (hall turns₂ sim₂' hrun hbatch ?_).2⟩
  obtain ⟨t₂, rest, hhead, htail, rfl⟩ := List.forall₂_cons_left_iff.1 hin
  cases htail
  rw [List.map_singleton, List.map_singleton, hhead.earlyExit]

end Ra2m
