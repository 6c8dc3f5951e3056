/-
Cycles to ticks and back.

A number of cycles is sampled a quarter of a period after its edge, and the way to ticks
rounds down to the timescale.  The way back lands in the same cycle exactly when the
rounding takes off no more than the quarter.

What the conversions compute is shown for any arithmetic that keeps short numbers, which
both the exact one and that of `f64` do: a period is short.
-/
import Mathlib.Algebra.Order.Floor.Semifield
import Mathlib.Tactic.Ring
import Ra2m.Sim.Clock

namespace Ra2m

namespace Units

open Binary64 (KeepsShort keepsShort_id)

variable {ts : Time} {f : Frequency} {S : Nat} {fl : ℚ → ℚ}

/-- The femtoseconds of a period. -/
def Frequency.period (f : Frequency) (fl : ℚ → ℚ := id) : Nat := 10 ^ 15 / (f.intoHz fl).toNat

/-- The offset of the sampling, in femtoseconds. -/
def Frequency.quarter (f : Frequency) (fl : ℚ → ℚ := id) : Nat := (f.period fl + 2) / 4

/-! ### What the conversions compute -/

/-- A quarter of a number is rounded to the nearest, from two quarters on up. -/
theorem roundToUsize_quarter (n : Nat) :
    roundToUsize (n / 4) = UInt64.ofNat (min (2 ^ 64 - 1) ((n + 2) / 4)) := by
  have hsum : (n : ℚ) / 4 + 1 / 2 = ((n + 2 : Nat) : ℚ) / (4 : Nat) := by
    push_cast
    ring
  unfold roundToUsize
  rw [hsum, Nat.floor_div_eq_div]

theorem toNat_ofNat_min (n : Nat) :
    (UInt64.ofNat (min (2 ^ 64 - 1) n)).toNat = min (2 ^ 64 - 1) n :=
  UInt64.toNat_ofNat_of_lt' (by
    show min (2 ^ 64 - 1) n < 2 ^ 64
    omega)

theorem period_le (f : Frequency) (fl : ℚ → ℚ) : f.period fl ≤ 10 ^ 15 := Nat.div_le_self _ _

theorem intoHz_pos (hperiod : 0 < f.period fl) : 0 < (f.intoHz fl).toNat := by
  rcases Nat.eq_zero_or_pos (f.intoHz fl).toNat with hzero | hpos
  · rw [Frequency.period, hzero] at hperiod
    exact absurd hperiod (by decide)
  · exact hpos

/-- A positive frequency has a period. -/
theorem timeOfFrequency_eq (hfl : KeepsShort fl) (hhz : 0 < (f.intoHz fl).toNat) :
    ∃ period, timeOfFrequency f fl = .ok (.fs period) ∧ period.toNat = f.period fl := by
  have hne : f.intoHz fl ≠ 0 := by
    intro h
    rw [h] at hhz
    exact absurd hhz (by decide)
  refine ⟨_, if_neg hne, ?_⟩
  rw [UInt64.toNat_div, intoFs_second hfl]
  rfl

/-- Without a frequency there is none. -/
theorem timeOfFrequency_zero (hhz : (f.intoHz fl).toNat = 0) :
    timeOfFrequency f fl = .error ⟨"attempt to divide by zero"⟩ :=
  if_pos (UInt64.toNat_inj.mp hhz)

/-- A quarter of a period is a short number. -/
theorem quarter_eq (hfl : KeepsShort fl) {period : UInt64} (hp : period.toNat = f.period fl) :
    (((Time.fs period).div 4 fl).intoFs fl).toNat = f.quarter fl := by
  have hle := period_le f fl
  have hkeep := hfl.natCast (show period.toNat ≤ 2 ^ 53 by omega)
  have hdiv := hfl period.toNat (-2)
    (by rw [Nat.abs_cast, hp]; exact_mod_cast hle.trans (by decide))
  have hfour : (2 : ℚ) ^ (-2 : ℤ) = 1 / 4 := by norm_num
  rw [hfour, mul_one_div, Int.cast_natCast] at hdiv
  show (roundToUsize (fl (fl period.toNat / 4))).toNat = f.quarter fl
  rw [hkeep, hdiv, roundToUsize_quarter, toNat_ofNat_min, hp]
  unfold Frequency.quarter
  omega

theorem exactFs_fs (t : UInt64) : (Time.fs t).exactFs = (t.toNat : Nat) := rfl

/-- The timescale of a whole number of femtoseconds. -/
theorem intoFs_of_exact (hts : ts.exactFs = S) (hfit : S < 2 ^ 64) : ts.intoFs.toNat = S := by
  have hround : (roundToUsize (S : ℚ)).toNat = S := by
    rw [roundToUsize_natCast, toNat_ofNat_min]
    omega
  cases ts with
  | fs t =>
      have hts : (t.toNat : ℚ) = S := hts
      exact_mod_cast hts
  | ps t | ns t | us t | ms t | s t =>
      simp only [Time.exactFs] at hts
      simp only [Time.intoFs]
      rw [hts]
      exact hround

theorem intoFs_timeOfTick (hts : ts.exactFs = S) (tick : Tick) :
    (timeOfTick ts tick).intoFs.toNat = min (2 ^ 64 - 1) (S * tick) := by
  have hround : (roundToUsize ((S : ℚ) * tick)).toNat = min (2 ^ 64 - 1) (S * tick) := by
    have hcast : (S : ℚ) * tick = ((S * tick : Nat) : ℚ) := by push_cast; rfl
    rw [hcast, roundToUsize_natCast, toNat_ofNat_min]
  cases ts with
  | fs t =>
      have hts : (t.toNat : ℚ) = S := hts
      show (roundToUsize (t.toNat * (tick : ℚ))).toNat = _
      rw [hts]
      exact hround
  | ps t | ns t | us t | ms t | s t =>
      simp only [Time.exactFs] at hts
      show (roundToUsize (_ * (t * (tick : ℚ)))).toNat = _
      rw [← mul_assoc, hts]
      exact hround

namespace ClockDomain

theorem intoTick_eq (hfl : KeepsShort fl) {c : Cycles} (hhz : 0 < (f.intoHz fl).toNat)
    (hts : (ts.intoFs fl).toNat = S) (hS : 0 < S)
    (hfit : f.period fl * c.n.toNat + f.quarter fl < 2 ^ 64) :
    intoTick ts ⟨f⟩ c fl = .ok ((f.period fl * c.n.toNat + f.quarter fl) / S) := by
  obtain ⟨period, hperiod, hp⟩ := timeOfFrequency_eq hfl hhz
  have hquarter := quarter_eq hfl hp
  have hmul : period.toNat * c.n.toNat < 2 ^ 64 := by
    rw [hp]
    omega
  have hedge : (period * c.n).toNat = f.period fl * c.n.toNat := by
    rw [UInt64.toNat_mul, Nat.mod_eq_of_lt hmul, hp]
  have hadd : ((Time.fs (period * c.n)).intoFs fl).toNat +
      (((Time.fs period).div 4 fl).intoFs fl).toNat < 2 ^ 64 := by
    rw [hquarter]
    show (period * c.n).toNat + f.quarter fl < 2 ^ 64
    rw [hedge]
    exact hfit
  unfold intoTick
  simp only [hperiod, Time.mulCycles, if_pos hmul, Time.add, if_pos hadd, bind, Except.bind]
  rw [tickOfTime_eq (hts ▸ hS), hts]
  show Except.ok (((period * c.n) + ((Time.fs period).div 4 fl).intoFs fl).toNat / S) = _
  rw [UInt64.toNat_add, hedge, hquarter, Nat.mod_eq_of_lt hfit]

theorem fromTick_eq (ts : Time) (hfl : KeepsShort fl) (hperiod : 0 < f.period fl) (tick : Tick) :
    ∃ c, fromTick ts ⟨f⟩ tick fl = .ok c ∧
      c.n.toNat = ((timeOfTick ts tick fl).intoFs fl).toNat / f.period fl := by
  obtain ⟨period, hof, hp⟩ := timeOfFrequency_eq hfl (intoHz_pos hperiod)
  have hne : (Time.fs period).intoFs fl ≠ 0 := by
    intro hzero
    have hzero : period = 0 := hzero
    rw [← hp, hzero] at hperiod
    exact absurd hperiod (by decide)
  unfold fromTick
  simp only [hof, bind, Except.bind]
  refine ⟨_, if_neg hne, ?_⟩
  show ((timeOfTick ts tick fl).intoFs fl / period).toNat = _
  rw [UInt64.toNat_div, hp]

end ClockDomain

theorem ClockDomain.fromTick_ne_ok (hfl : KeepsShort fl) {tick : Tick} {c : Cycles}
    (hzero : f.period fl = 0) : fromTick ts ⟨f⟩ tick fl ≠ .ok c := by
  intro hok
  rcases Nat.eq_zero_or_pos (f.intoHz fl).toNat with hhz | hhz
  · simp [fromTick, timeOfFrequency_zero hhz, bind, Except.bind] at hok
  obtain ⟨period, hof, hp⟩ := timeOfFrequency_eq hfl hhz
  have hnil : (Time.fs period).intoFs fl = 0 := UInt64.toNat_inj.mp (hp.trans hzero)
  unfold fromTick at hok
  simp only [hof, bind, Except.bind, if_pos hnil] at hok
  cases hok

/-! ### There and back -/

/-- What rounding down to a multiple of `S` may take off. -/
theorem mul_div_div_eq_iff {P c r : Nat} (hr : r < P) :
    S * ((P * c + r) / S) / P = c ↔ (P * c + r) % S ≤ r := by
  have hsplit := Nat.div_add_mod (P * c + r) S
  have hP : 0 < P := by omega
  constructor
  · intro hback
    have hle : P * c ≤ S * ((P * c + r) / S) := by
      have hmul := Nat.mul_div_le (S * ((P * c + r) / S)) P
      rw [hback] at hmul
      exact hmul
    omega
  · intro hmod
    refine Nat.div_eq_of_lt_le ?_ ?_
    · rw [Nat.mul_comm c P]
      omega
    · rw [Nat.mul_comm (c + 1) P, Nat.mul_add]
      omega

theorem quarter_lt (hperiod : 0 < f.period) : f.quarter < f.period := by
  unfold Frequency.quarter
  omega

/-- **There and back.**  A number of cycles comes back from its tick exactly when rounding its
sample down to the timescale takes off no more than the quarter of a period. -/
theorem fromTick_intoTick_iff {c : Cycles} (hts : ts.exactFs = S) (hS : 1 ≤ S)
    (hSP : S ≤ f.period) (hfit : f.period * c.n.toNat + f.quarter < 2 ^ 64) :
    ∃ t, ClockDomain.intoTick ts ⟨f⟩ c = .ok t ∧
      (ClockDomain.fromTick ts ⟨f⟩ t = .ok c ↔
        (f.period * c.n.toNat + f.quarter) % S ≤ f.quarter) := by
  have hperiod : 0 < f.period := by omega
  have hS64 : S < 2 ^ 64 := by
    have hle := period_le f id
    omega
  refine ⟨_, ClockDomain.intoTick_eq keepsShort_id (intoHz_pos hperiod)
    (intoFs_of_exact hts hS64) hS hfit, ?_⟩
  obtain ⟨c', hback, hc'⟩ := ClockDomain.fromTick_eq ts keepsShort_id hperiod
    ((f.period * c.n.toNat + f.quarter) / S)
  rw [intoFs_timeOfTick hts] at hc'
  have hmin : min (2 ^ 64 - 1) (S * ((f.period * c.n.toNat + f.quarter) / S)) =
      S * ((f.period * c.n.toNat + f.quarter) / S) := by
    have hle := Nat.mul_div_le (f.period * c.n.toNat + f.quarter) S
    omega
  rw [hmin] at hc'
  rw [hback, ← mul_div_div_eq_iff (quarter_lt hperiod), ← hc']
  constructor
  · intro heq
    exact congrArg (fun c => c.n.toNat) (Except.ok.inj heq)
  · intro heq
    obtain ⟨n⟩ := c
    obtain ⟨n'⟩ := c'
    exact congrArg (fun n => Except.ok (Cycles.mk n)) (UInt64.toNat_inj.mp heq)

/-- 1 GHz and 1 ps. -/
theorem fromTick_intoTick_picosecond : ∃ t,
    ClockDomain.intoTick (.fs 1000) ⟨.hz 1000000000⟩ ⟨5⟩ = .ok t ∧
      (ClockDomain.fromTick (.fs 1000) ⟨.hz 1000000000⟩ t = .ok ⟨5⟩ ↔
        ((Frequency.hz 1000000000).period * 5 + (Frequency.hz 1000000000).quarter) % 1000 ≤
          (Frequency.hz 1000000000).quarter) :=
  fromTick_intoTick_iff (S := 1000) (c := ⟨5⟩) (exactFs_fs 1000) (by decide) (by decide)
    (by decide)

/-- 1 GHz and 600 ps: cycle 2 comes back as cycle 1. -/
theorem fromTick_intoTick_coarse : ∃ t,
    ClockDomain.intoTick (.fs 600000) ⟨.hz 1000000000⟩ ⟨2⟩ = .ok t ∧
      ClockDomain.fromTick (.fs 600000) ⟨.hz 1000000000⟩ t ≠ .ok ⟨2⟩ := by
  have hinto : ClockDomain.intoTick (.fs 600000) ⟨.hz 1000000000⟩ ⟨2⟩ = .ok 3 :=
    ClockDomain.intoTick_eq (S := 600000) keepsShort_id (by decide) rfl (by decide) (by decide)
  obtain ⟨c, hc, hn⟩ := ClockDomain.fromTick_eq (f := .hz 1000000000) (.fs 600000)
    keepsShort_id (by decide) 3
  rw [intoFs_timeOfTick (S := 600000) (exactFs_fs 600000)] at hn
  refine ⟨3, hinto, fun hback => ?_⟩
  have hc2 : c = ⟨2⟩ := Except.ok.inj (hc.symm.trans hback)
  rw [hc2] at hn
  exact absurd hn (by decide)

end Units

end Ra2m
