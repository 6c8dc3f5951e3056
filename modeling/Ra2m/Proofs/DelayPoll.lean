/-
Which polls a delay survives.

The assertion of `Delay::poll` stands in front of the test for an order that has been
pushed already.  It holds for a poll in the tick the delay was made at, and it is not
reached from the wake tick on; a poll in between panics, whoever caused it.  Without
such a poll the delay does what it should over every sequence of polls.
-/
import Ra2m.Sim.Delay
import Ra2m.Lib.ExceptMap

namespace Ra2m

namespace Delay

variable {W : Type} {d d' : Delay} {polls : List (Tick × W)}

/-- Whether a poll at the tick returns `Ready`. -/
def due (self : Delay) (ltick : Tick) : Poll := if self.wakeAt ≤ ltick then .ready else .pending

/-- A poll outside the span in which it panics. -/
def Harmless (self : Delay) (ltick : Tick) : Prop := ltick = self.forgedAt ∨ self.wakeAt ≤ ltick

instance (self : Delay) (ltick : Tick) : Decidable (self.Harmless ltick) :=
  inferInstanceAs (Decidable (_ ∨ _))

/-! ### One poll -/

/-- A poll returns only outside the span, and only an order that was not pushed before. -/
theorem poll_eq_ok {ltick : Tick} {w : W} {p : Polled W} (h : d.poll ltick w = .ok (p, d')) :
    d.Harmless ltick ∧ p.poll = d.due ltick ∧ d'.wakeAt = d.wakeAt ∧ d'.forgedAt = d.forgedAt ∧
      (p.orders = [] ∧ d' = d ∨
        d.orderPushed = false ∧ d'.orderPushed = true ∧ p.orders = [.waitUntil d.wakeAt w]) := by
  unfold poll at h
  by_cases hdue : d.wakeAt ≤ ltick
  · rw [if_pos hdue] at h
    obtain ⟨rfl, rfl⟩ := Prod.mk.inj (Except.ok.inj h)
    exact ⟨Or.inr hdue, (if_pos hdue).symm, rfl, rfl, Or.inl ⟨rfl, rfl⟩⟩
  · rw [if_neg hdue] at h
    by_cases hforged : ltick = d.forgedAt
    · rw [if_pos hforged] at h
      by_cases hpushed : d.orderPushed = true
      · rw [if_pos hpushed] at h
        obtain ⟨rfl, rfl⟩ := Prod.mk.inj (Except.ok.inj h)
        exact ⟨Or.inl hforged, (if_neg hdue).symm, rfl, rfl, Or.inl ⟨rfl, rfl⟩⟩
      · rw [if_neg hpushed] at h
        obtain ⟨rfl, rfl⟩ := Prod.mk.inj (Except.ok.inj h)
        exact ⟨Or.inl hforged, (if_neg hdue).symm, rfl, rfl,
          Or.inr ⟨Bool.eq_false_iff.mpr hpushed, rfl, rfl⟩⟩
    · rw [if_neg hforged] at h
      cases h

theorem poll_of_harmless {ltick : Tick} (h : d.Harmless ltick) (w : W) :
    ∃ p d', d.poll ltick w = .ok (p, d') := by
  unfold poll
  by_cases hdue : d.wakeAt ≤ ltick
  · rw [if_pos hdue]
    exact ⟨_, _, rfl⟩
  · rw [if_neg hdue, if_pos (h.resolve_right hdue)]
    by_cases hpushed : d.orderPushed = true
    · rw [if_pos hpushed]
      exact ⟨_, _, rfl⟩
    · rw [if_neg hpushed]
      exact ⟨_, _, rfl⟩

/-! ### Sequences of polls -/

/-- The polls return exactly when none of them is inside the span. -/
theorem pollAll_ok_iff (d : Delay) (polls : List (Tick × W)) :
    (∃ ps, d.pollAll polls = .ok ps) ↔ ∀ p ∈ polls, d.Harmless p.1 := by
  induction polls generalizing d with
  | nil => exact ⟨fun _ p hp => absurd hp List.not_mem_nil, fun _ => ⟨[], rfl⟩⟩
  | cons x rest ih =>
      obtain ⟨ltick, w⟩ := x
      rw [List.forall_mem_cons]
      constructor
      · rintro ⟨ps, hps⟩
        obtain ⟨⟨p, d'⟩, hp, hps⟩ := ExceptMap.bind_eq_ok_iff.mp hps
        obtain ⟨rest', hrest, -⟩ := ExceptMap.bind_eq_ok_iff.mp hps
        obtain ⟨hharmless, -, hwake, hforged, -⟩ := poll_eq_ok hp
        refine ⟨hharmless, fun q hq => ?_⟩
        have hq' := (ih d').mp ⟨rest', hrest⟩ q hq
        unfold Harmless at hq' ⊢
        rwa [hwake, hforged] at hq'
      · rintro ⟨hfirst, hrest⟩
        obtain ⟨p, d', hp⟩ := poll_of_harmless hfirst w
        obtain ⟨-, -, hwake, hforged, -⟩ := poll_eq_ok hp
        obtain ⟨ps, hps⟩ := (ih d').mpr fun q hq => by
          unfold Harmless
          rw [hwake, hforged]
          exact hrest q hq
        exact ⟨p :: ps, ExceptMap.bind_eq_ok_iff.mpr ⟨(p, d'), hp,
          ExceptMap.bind_eq_ok_iff.mpr ⟨ps, hps, rfl⟩⟩⟩

/-- Each poll that returns says whether the tick has come. -/
theorem pollAll_due {ps : List (Polled W)} (h : d.pollAll polls = .ok ps) :
    ps.map Polled.poll = polls.map fun p => d.due p.1 := by
  induction polls generalizing d ps with
  | nil =>
      obtain rfl := Except.ok.inj h
      rfl
  | cons x rest ih =>
      obtain ⟨ltick, w⟩ := x
      obtain ⟨⟨p, d'⟩, hp, h⟩ := ExceptMap.bind_eq_ok_iff.mp h
      obtain ⟨rest', hrest, h⟩ := ExceptMap.bind_eq_ok_iff.mp h
      obtain rfl := Except.ok.inj h
      obtain ⟨-, hdue, hwake, -⟩ := poll_eq_ok hp
      have htail : (rest.map fun p => d'.due p.1) = rest.map fun p => d.due p.1 := by
        unfold due
        rw [hwake]
      rw [List.map_cons, List.map_cons, hdue, ih hrest, htail]

/-- No order is pushed where the first poll has pushed one, or where the tick had come by then. -/
theorem pollAll_orders {ps : List (Polled W)} (h : d.pollAll polls = .ok ps)
    (hpushed : d.orderPushed = true ∨ d.wakeAt ≤ d.forgedAt) : ∀ p ∈ ps, p.orders = [] := by
  induction polls generalizing d ps with
  | nil =>
      obtain rfl := Except.ok.inj h
      exact fun p hp => absurd hp List.not_mem_nil
  | cons x rest ih =>
      obtain ⟨ltick, w⟩ := x
      obtain ⟨⟨p, d'⟩, hp, h⟩ := ExceptMap.bind_eq_ok_iff.mp h
      obtain ⟨rest', hrest, h⟩ := ExceptMap.bind_eq_ok_iff.mp h
      obtain rfl := Except.ok.inj h
      obtain ⟨hnone, rfl⟩ : p.orders = [] ∧ d' = d := by
        rcases hpushed with hpushed | hpast
        · obtain ⟨-, -, -, -, hsame | ⟨hfalse, -⟩⟩ := poll_eq_ok hp
          · exact hsame
          · cases hpushed.symm.trans hfalse
        · have hdue : d.wakeAt ≤ ltick := by
            obtain ⟨rfl | hdue, -⟩ := poll_eq_ok hp
            · exact hpast
            · exact hdue
          unfold poll at hp
          rw [if_pos hdue] at hp
          obtain ⟨rfl, rfl⟩ := Prod.mk.inj (Except.ok.inj hp)
          exact ⟨rfl, rfl⟩
      exact List.forall_mem_cons.mpr ⟨hnone, ih hrest hpushed⟩

/-- What is asked of a delay and its polls: none panics, each returns `Ready` exactly when the tick
has come, and only the first may push an order. -/
def Sound (d : Delay) (polls : List (Tick × W)) : Prop :=
  ∃ ps, d.pollAll polls = .ok ps ∧ (ps.map Polled.poll = polls.map fun p => d.due p.1) ∧
    (∀ p ∈ ps.tail, p.orders = []) ∧
    ∀ p ∈ ps.head?, p.orders = [] ∨ ∃ w, p.orders = [.waitUntil d.wakeAt w]

theorem sound_iff (hnew : d.orderPushed = false) (w : W) (rest : List (Tick × W)) :
    Sound d ((d.forgedAt, w) :: rest) ↔ ∀ p ∈ rest, d.Harmless p.1 := by
  constructor
  · rintro ⟨ps, hps, -⟩
    exact (List.forall_mem_cons.mp ((pollAll_ok_iff d _).mp ⟨ps, hps⟩)).2
  · intro hrest
    obtain ⟨ps, hps⟩ := (pollAll_ok_iff d ((d.forgedAt, w) :: rest)).mpr
      (List.forall_mem_cons.mpr ⟨Or.inl rfl, hrest⟩)
    refine ⟨ps, hps, pollAll_due hps, ?_⟩
    obtain ⟨⟨p, d'⟩, hp, h⟩ := ExceptMap.bind_eq_ok_iff.mp hps
    obtain ⟨rest', hrest', h⟩ := ExceptMap.bind_eq_ok_iff.mp h
    obtain rfl := Except.ok.inj h
    obtain ⟨-, -, -, -, hcase⟩ := poll_eq_ok hp
    constructor
    · refine pollAll_orders hrest' ?_
      rcases hcase with ⟨hnone, rfl⟩ | ⟨-, hpushed, -⟩
      · -- the first poll pushed nothing, so its tick was the wake tick or later
        right
        by_contra hbefore
        unfold poll at hp
        rw [if_neg hbefore, if_pos rfl, hnew] at hp
        obtain ⟨rfl, -⟩ := Prod.mk.inj (Except.ok.inj hp)
        cases hnone
      · exact Or.inl hpushed
    · intro q hq
      obtain rfl := Option.some.inj hq
      exact hcase.imp (·.1) fun hpush => ⟨w, hpush.2.2⟩

/-- **Polling a delay.**  First polled in the tick it was made at, a delay does what it should
exactly when no later poll falls behind that tick and before its wake tick. -/
theorem poll_sound_iff (now tick : Tick) (w : W) (rest : List (Tick × W)) :
    (Sound (waitFor now tick) ((now, w) :: rest) ↔ ∀ p ∈ rest, p.1 = now ∨ now + tick ≤ p.1) ∧
      (Sound (waitUntil now tick) ((now, w) :: rest) ↔ ∀ p ∈ rest, p.1 = now ∨ tick ≤ p.1) :=
  ⟨sound_iff (d := waitFor now tick) rfl w rest, sound_iff (d := waitUntil now tick) rfl w rest⟩

/-- A delay until tick 10 made at tick 0, polled once more at tick 5. -/
theorem polled_between :
    (waitUntil 0 10).pollAll [(0, ()), (5, ())] =
        .error ⟨"Delay not directly awaited: await@5 forged@0"⟩ ∧
      ¬ Sound (waitUntil 0 10) [(0, ()), (5, ())] := by
  refine ⟨rfl, ?_⟩
  rintro ⟨ps, hps, -⟩
  cases hps

end Delay

end Ra2m
