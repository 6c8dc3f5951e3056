/-
Which delays can be drawn.

The random part of a latency is drawn from the ticks of its variance, and there is nothing
to draw from when the variance is less than half a femtosecond: the range is empty, and the
generator panics.  That is the only way a delay can panic; any other latency lies where it
should.
-/
import Mathlib.Algebra.Order.Floor.Semiring
import Ra2m.Proofs.ClockTick
import Ra2m.Proofs.TransferTime

namespace Ra2m

namespace Units

variable {ts : Time} {f : Frequency} {latency : Latency} {bw : BW} {params : DelayParams}
  {randomRange randomRange' : Tick → Exec Tick}

/-- What `random_range(0..n)` is documented to do: a number below `n`, and a panic if there is
none. -/
structure IsRandomRange (randomRange : Tick → Exec Tick) : Prop where
  empty : ∃ e, randomRange 0 = .error e
  drawn : ∀ n, 0 < n → ∃ k < n, randomRange n = .ok k

/-- There is something to draw from. -/
def Latency.Draws : Latency → Prop
  | cycle _ => True
  | time _ var => 0 < var.intoFs.toNat

/-- The conversion of the cycles fits. -/
def Latency.Fits (f : Frequency) : Latency → Prop
  | cycle c => f.period * c.n.toNat + f.quarter < 2 ^ 64
  | time _ _ => True

/-- The ticks lie between the average and the average with all of the variance. -/
def Latency.Within (ts : Time) (t : Tick) : Latency → Prop
  | cycle _ => True
  | time avg var =>
      ⌈(avg.intoFs.toNat / ts.intoFs.toNat : ℚ)⌉₊ ≤ t ∧
        t ≤ ⌈(avg.intoFs.toNat / ts.intoFs.toNat : ℚ)⌉₊ +
          ⌈(var.intoFs.toNat / ts.intoFs.toNat : ℚ)⌉₊

/-- The computation does not panic. -/
def Returns (x : Exec Tick) : Prop := ∃ t, x = .ok t

/-! ### Rounding up -/

theorem divCeil_le_iff {n d m : Nat} (hd : 0 < d) : divCeil n d ≤ m ↔ n ≤ m * d := by
  have hsplit := Nat.div_add_mod n d
  unfold divCeil
  by_cases hmod : n % d = 0
  · rw [if_pos hmod]
    constructor
    · intro hle
      have hmul := Nat.mul_le_mul_left d hle
      rw [Nat.mul_comm m d]
      omega
    · intro hle
      exact (Nat.div_le_div_right hle).trans_eq (Nat.mul_div_cancel m hd)
  · rw [if_neg hmod, Nat.succ_le_iff, Nat.div_lt_iff_lt_mul hd]
    constructor
    · exact le_of_lt
    · intro hle
      refine lt_of_le_of_ne hle ?_
      rintro rfl
      exact hmod (Nat.mul_mod_left m d)

theorem divCeil_eq (n : Nat) {d : Nat} (hd : 0 < d) : divCeil n d = ⌈(n / d : ℚ)⌉₊ := by
  have hd' : (0 : ℚ) < d := by exact_mod_cast hd
  refine eq_of_forall_ge_iff fun m => ?_
  rw [divCeil_le_iff hd, Nat.ceil_le, div_le_iff₀ hd']
  exact_mod_cast Iff.rfl

theorem divCeil_pos_iff {n d : Nat} (hd : 0 < d) : 0 < divCeil n d ↔ 0 < n := by
  rw [← not_iff_not, Nat.not_lt, Nat.not_lt, divCeil_le_iff hd, Nat.zero_mul]

theorem tickOfTimeRef_eq {t : Time} (hts : 0 < ts.intoFs.toNat) :
    tickOfTimeRef ts t = .ok (divCeil t.intoFs.toNat ts.intoFs.toNat) := by
  have hne : ts.intoFs ≠ 0 := by
    intro h
    rw [h] at hts
    exact absurd hts (by decide)
  exact if_neg hne

/-! ### Latencies -/

section

variable (hts : 0 < ts.intoFs.toNat) (hrng : IsRandomRange randomRange)

include hts hrng

/-- What is drawn for a time lies where it should. -/
theorem within_of_intoTick {clkDomain : ClockDomain} {t : Tick}
    (h : latency.intoTick ts randomRange clkDomain = .ok t) : latency.Within ts t := by
  cases latency with
  | cycle c => trivial
  | time avg var =>
      unfold Latency.intoTick at h
      simp only [tickOfTimeRef_eq hts, bind, Except.bind] at h
      simp only [Latency.Within, ← divCeil_eq _ hts]
      rcases Nat.eq_zero_or_pos (divCeil var.intoFs.toNat ts.intoFs.toNat) with hzero | hpos
      · obtain ⟨e, he⟩ := hrng.empty
        rw [hzero, he] at h
        cases h
      · obtain ⟨k, hk, hdrawn⟩ := hrng.drawn _ hpos
        rw [hdrawn] at h
        obtain rfl := Except.ok.inj h
        exact ⟨Nat.le_add_right _ _, Nat.add_le_add_left hk.le _⟩

/-- A latency returns exactly when there is something to draw from. -/
theorem intoTick_returns_iff (hhz : 0 < f.intoHz.toNat) (hfit : latency.Fits f) :
    Returns (latency.intoTick ts randomRange ⟨f⟩) ↔ latency.Draws := by
  cases latency with
  | cycle c =>
      have hinto := ClockDomain.intoTick_eq Binary64.keepsShort_id hhz rfl hts hfit
      exact iff_of_true ⟨_, hinto⟩ trivial
  | time avg var =>
      unfold Latency.intoTick Returns
      simp only [tickOfTimeRef_eq hts, bind, Except.bind]
      constructor
      · rintro ⟨t, ht⟩
        by_contra hnone
        have hzero : divCeil var.intoFs.toNat ts.intoFs.toNat = 0 :=
          Nat.eq_zero_of_not_pos fun hpos => hnone ((divCeil_pos_iff hts).mp hpos)
        obtain ⟨e, he⟩ := hrng.empty
        rw [hzero, he] at ht
        cases ht
      · intro hdraws
        obtain ⟨k, hk, hdrawn⟩ := hrng.drawn _ ((divCeil_pos_iff hts).mpr hdraws)
        rw [hdrawn]
        exact ⟨_, rfl⟩

end

/-! ### Delays -/

/-- Moving data never panics. -/
theorem transferTerm_returns (hts : 0 < ts.intoFs.toNat) (hbw : 0 < bw.intoByteS.toNat)
    (size : Data) : Returns (transferTerm ts bw size) := by
  unfold Returns transferTerm
  simp only [div_eq hts hbw, tickOfTime_eq hts, bind, Except.bind]
  exact ⟨_, rfl⟩

/-- A computation returns exactly when its first part does, if the rest does then. -/
theorem returns_bind_iff {x : Exec Tick} {g : Tick → Exec Tick} (hg : ∀ t, Returns (g t)) :
    Returns (x >>= g) ↔ Returns x := by
  cases x with
  | error e =>
      refine iff_of_false ?_ ?_
      · rintro ⟨t, ht⟩
        cases ht
      · rintro ⟨t, ht⟩
        cases ht
  | ok a => exact iff_of_true (hg a) ⟨a, rfl⟩

theorem transfer_returns (hts : 0 < ts.intoFs.toNat) (hbw : 0 < bw.intoByteS.toNat) (size : Data)
    (g : Tick → Tick) : Returns (transferTerm ts bw size >>= fun transfer => .ok (g transfer)) :=
  (returns_bind_iff fun t => ⟨g t, rfl⟩).mpr (transferTerm_returns hts hbw size)

/-- A latency and what follows it. -/
theorem intoTick_bind_returns_iff {g : Tick → Exec Tick} (hts : 0 < ts.intoFs.toNat)
    (hrng : IsRandomRange randomRange) (hhz : 0 < f.intoHz.toNat) (hfit : latency.Fits f)
    (hg : ∀ t, Returns (g t)) :
    Returns (latency.intoTick ts randomRange ⟨f⟩ >>= g) ↔ latency.Draws :=
  (returns_bind_iff hg).trans (intoTick_returns_iff hts hrng hhz hfit)

theorem xbarForwardDelay_returns_iff (hts : 0 < ts.intoFs.toNat)
    (hrng : IsRandomRange randomRange) (hrng' : IsRandomRange randomRange')
    (hhz : 0 < f.intoHz.toNat) (hbw : 0 < params.bandwidth.intoByteS.toNat)
    (hfit : params.frontendLatency.Fits f) (hfit' : params.forwardLatency.Fits f) (size : Data) :
    Returns (xbarForwardDelay ts ⟨f⟩ params randomRange randomRange' size) ↔
      params.frontendLatency.Draws ∧ params.forwardLatency.Draws := by
  unfold xbarForwardDelay
  by_cases hfront : params.frontendLatency.Draws
  · obtain ⟨t, ht⟩ := (intoTick_returns_iff hts hrng hhz hfit).mpr hfront
    rw [ht]
    show Returns (params.forwardLatency.intoTick ts randomRange' ⟨f⟩ >>= _) ↔ _
    rw [intoTick_bind_returns_iff hts hrng' hhz hfit' fun _ => transfer_returns hts hbw size _]
    exact (and_iff_right hfront).symm
  · refine iff_of_false ?_ fun h => hfront h.1
    rintro ⟨t, ht⟩
    cases hinto : params.frontendLatency.intoTick ts randomRange ⟨f⟩ with
    | error e =>
        rw [hinto] at ht
        cases ht
    | ok t' => exact hfront ((intoTick_returns_iff hts hrng hhz hfit).mp ⟨t', hinto⟩)

theorem npRamDelay_returns_iff (hts : 0 < ts.intoFs.toNat) (hrng : IsRandomRange randomRange)
    (hhz : 0 < f.intoHz.toNat) (hbw : 0 < bw.intoByteS.toNat) (hfit : latency.Fits f)
    (served : Option Data) :
    Returns (npRamDelay ts ⟨f⟩ latency bw randomRange served) ↔ latency.Draws := by
  refine intoTick_bind_returns_iff hts hrng hhz hfit fun t => ?_
  cases served with
  | none => exact ⟨t, rfl⟩
  | some len => exact transfer_returns hts hbw len _

/-- A generator that draws the greatest number of the range. -/
def drawLast (n : Tick) : Exec Tick :=
  if n = 0 then .error ⟨"cannot sample empty range"⟩ else .ok (n - 1)

theorem drawLast_isRandomRange : IsRandomRange drawLast where
  empty := ⟨_, rfl⟩
  drawn _ hn := ⟨_, Nat.sub_lt hn Nat.one_pos, if_neg hn.ne'⟩

end Units

end Ra2m
