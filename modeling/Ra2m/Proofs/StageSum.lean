/-
The latencies of a packet's way, added up.

A sum of latencies has the quarter of a period of every one of them in it: four make up a
cycle.  The way back to cycles multiplies by the timescale in `f64`, and what that adds to
the femtoseconds or takes off them, the drift, comes on top.  There is none for less than
half a second, and otherwise it is less than one part in `2 ^ 50`.
-/
import Ra2m.Proofs.ClockTick

namespace Ra2m

namespace Units

open Binary64 (KeepsShort Within keepsShort_round within_self)

variable {ts : Time} {f : Frequency} {S : Nat} {tick : Tick}

/-! ### Ticks read in `f64` -/

/-- The timescale is `S` femtoseconds: an `f64` holds the number of its unit nearest to them. -/
def Time.Holds (S : Nat) : Time → Prop
  | fs t => t.toNat = S
  | ps t => t = f64 (S / 10 ^ 3)
  | ns t => t = f64 (S / 10 ^ 6)
  | us t => t = f64 (S / 10 ^ 9)
  | ms t => t = f64 (S / 10 ^ 12)
  | s t => t = f64 (S / 10 ^ 15)

/-- The femtoseconds that a number of ticks is read as. -/
def ticksInFs (ts : Time) (tick : Tick) : Nat := ((timeOfTick ts tick f64).intoFs f64).toNat

/-- What the arithmetic of `f64` adds to that many ticks of `S` femtoseconds, or takes off. -/
def drift (ts : Time) (S : Nat) (tick : Tick) : ℤ := ticksInFs ts tick - (S * tick : Nat)

theorem keepsShort_f64 : KeepsShort f64 := keepsShort_round

theorem within_f64 (x : ℚ) : Within 1 x (f64 x) := (within_self x).round

/-- What is read off a number that is nearly `n`, where nothing saturates. -/
theorem abs_roundToUsize_sub_le {x : ℚ} {n : Nat} (hx : Within 4 n x) (hn : n < 2 ^ 63) :
    |((roundToUsize x).toNat : ℚ) - n| ≤ n / 2 ^ 50 + 1 / 2 := by
  have hnear := hx.abs_sub_le
  rw [Nat.abs_cast] at hnear
  have hsmall : (n : ℚ) / 2 ^ 50 ≤ n := div_le_self (Nat.cast_nonneg n) (by norm_num)
  have hnq : (n : ℚ) < 2 ^ 63 := by exact_mod_cast hn
  obtain ⟨hlow, hhigh⟩ := abs_le.mp hnear
  have hpos : 0 ≤ x + 1 / 2 := by linarith
  have hle := Nat.floor_le hpos
  have hlt := Nat.lt_floor_add_one (x + 1 / 2)
  have hfit : ⌊x + 1 / 2⌋₊ < 2 ^ 64 := by
    refine (Nat.floor_lt hpos).mpr ?_
    have hbound : (n : ℚ) / 2 ^ 50 ≤ 2 ^ 13 := by
      rw [div_le_iff₀ (by norm_num)]
      linarith
    push_cast
    linarith
  have hfloor : (roundToUsize x).toNat = ⌊x + 1 / 2⌋₊ := by
    unfold roundToUsize
    rw [toNat_ofNat_min]
    omega
  rw [hfloor, abs_le]
  constructor <;> linarith

/-- Up to half a second nothing is lost. -/
theorem roundToUsize_of_within {x : ℚ} {n : Nat} (hx : Within 4 n x) (hn : n < 2 ^ 49) :
    (roundToUsize x).toNat = n := by
  have hle := abs_roundToUsize_sub_le hx (hn.trans (by norm_num))
  have hsmall : (n : ℚ) / 2 ^ 50 < 1 / 2 := by
    rw [div_lt_iff₀ (by norm_num)]
    have hcast : (n : ℚ) < 2 ^ 49 := by exact_mod_cast hn
    linarith
  have hone : |((roundToUsize x).toNat : ℤ) - n| < 1 := by
    have hlt : |((roundToUsize x).toNat : ℚ) - n| < 1 := by linarith
    exact_mod_cast hlt
  have hzero := Int.abs_lt_one_iff.mp hone
  omega

/-- An amount of femtoseconds in the unit of `u` of them, times a number of ticks. -/
theorem within_unit {u : ℚ} (hu : u ≠ 0) (S tick : ℚ) :
    Within 4 (S * tick) (f64 (u * f64 (f64 (S / u) * f64 tick))) := by
  have hexact : S * tick = u * (S / u * tick) := by
    rw [← mul_assoc, mul_div_cancel₀ S hu]
  have hproduct := ((within_f64 (S / u)).mul (within_f64 tick)).round
  rw [hexact]
  exact ((within_self u).mul hproduct).round.mono (by omega)

theorem ticksInFs_within (hts : ts.Holds S) (tick : Tick) :
    ∃ x, ticksInFs ts tick = (roundToUsize x).toNat ∧ Within 4 ((S * tick : Nat) : ℚ) x := by
  rw [Nat.cast_mul]
  cases ts with
  | fs t =>
      have ht : t.toNat = S := hts
      refine ⟨f64 (f64 S * f64 tick), ?_, ?_⟩
      · rw [← ht]
        rfl
      · exact ((within_f64 S).mul (within_f64 tick)).round.mono (by omega)
  | ps t | ns t | us t | ms t | s t =>
      refine ⟨_, rfl, ?_⟩
      rw [show t = _ from hts]
      exact within_unit (by norm_num) S tick

/-- **The drift.**  It is below one part in `2 ^ 50`, but for the last rounding. -/
theorem abs_drift_le (hts : ts.Holds S) (hfit : S * tick < 2 ^ 63) :
    |(drift ts S tick : ℚ)| ≤ (S * tick : Nat) / 2 ^ 50 + 1 / 2 := by
  obtain ⟨x, hread, hx⟩ := ticksInFs_within hts tick
  unfold drift
  rw [hread]
  push_cast
  exact_mod_cast abs_roundToUsize_sub_le hx hfit

theorem drift_eq_zero (hts : ts.Holds S) (hsmall : S * tick < 2 ^ 49) : drift ts S tick = 0 := by
  obtain ⟨x, hread, hx⟩ := ticksInFs_within hts tick
  unfold drift
  rw [hread, roundToUsize_of_within hx hsmall, sub_self]

theorem within_read {u : ℚ} (hu : u ≠ 0) (S : ℚ) : Within 4 S (f64 (u * f64 (S / u))) := by
  have hexact : S = u * (S / u) := (mul_div_cancel₀ S hu).symm
  conv => arg 2; rw [hexact]
  exact ((within_self u).mul (within_f64 (S / u))).round.mono (by omega)

/-- The timescale itself is read right. -/
theorem intoFs_of_holds (hts : ts.Holds S) (hS : S < 2 ^ 49) : (ts.intoFs f64).toNat = S := by
  cases ts with
  | fs t => exact hts
  | ps t | ns t | us t | ms t | s t =>
      refine roundToUsize_of_within ?_ hS
      rw [show t = _ from hts]
      exact within_read (by norm_num) S

/-! ### One stage of many -/

/-- A quarter of a period that is a whole number of ticks is not rounded. -/
theorem quarter_of_dvd {fl : ℚ → ℚ} {q : Nat} (hperiod : f.period fl = 4 * q) :
    f.quarter fl = q := by
  unfold Frequency.quarter
  omega

theorem intoTick_of_dvd {c : Cycles} {k : Nat} (hts : ts.Holds S) (hS : 1 ≤ S) (hk : 0 < k)
    (hperiod : f.period f64 = 4 * (S * k))
    (hfit : f.period f64 * c.n.toNat + f.quarter f64 < 2 ^ 64) :
    ClockDomain.intoTick ts ⟨f⟩ c f64 = .ok (k * (4 * c.n.toNat + 1)) := by
  have hpos : 0 < S * k := Nat.mul_pos hS hk
  have hS49 : S < 2 ^ 49 := by
    have hle := period_le f f64
    have hSk : S ≤ S * k := Nat.le_mul_of_pos_right S hk
    omega
  rw [ClockDomain.intoTick_eq keepsShort_f64 (intoHz_pos (by omega)) (intoFs_of_holds hts hS49)
    hS hfit, quarter_of_dvd hperiod, hperiod]
  have hmul : 4 * (S * k) * c.n.toNat + S * k = S * (k * (4 * c.n.toNat + 1)) := by ring
  rw [hmul, Nat.mul_div_cancel_left _ hS]

/-- A conversion that does not fit panics. -/
theorem intoTick_ne_ok {fl : ℚ → ℚ} (hfl : KeepsShort fl) {c : Cycles} {t : Tick}
    (hfit : ¬ f.period fl * c.n.toNat + f.quarter fl < 2 ^ 64) :
    ClockDomain.intoTick ts ⟨f⟩ c fl ≠ .ok t := by
  intro hok
  rcases Nat.eq_zero_or_pos (f.intoHz fl).toNat with hzero | hhz
  · simp [ClockDomain.intoTick, timeOfFrequency_zero hzero, bind, Except.bind] at hok
  obtain ⟨period, hperiod, hp⟩ := timeOfFrequency_eq hfl hhz
  have hquarter := quarter_eq hfl hp
  unfold ClockDomain.intoTick at hok
  simp only [hperiod, Time.mulCycles, bind, Except.bind] at hok
  by_cases hmul : period.toNat * c.n.toNat < 2 ^ 64
  · have hedge : (period * c.n).toNat = f.period fl * c.n.toNat := by
      rw [UInt64.toNat_mul, Nat.mod_eq_of_lt hmul, hp]
    have hadd : ¬ ((Time.fs (period * c.n)).intoFs fl).toNat +
        (((Time.fs period).div 4 fl).intoFs fl).toNat < 2 ^ 64 := by
      rw [hquarter]
      show ¬ (period * c.n).toNat + f.quarter fl < 2 ^ 64
      rw [hedge]
      exact hfit
    rw [if_pos hmul] at hok
    simp only [Time.add, if_neg hadd] at hok
    cases hok
  · rw [if_neg hmul] at hok
    cases hok

end Units

open Ra2m.Units

variable {T : Type} {pkt pkt' : Packet T} {ts : Time} {f : Frequency} {S : Nat} {cs : List Cycles}
  {randomRange : Tick → Exec Tick}

/-! ### A delay that adds up -/

/-- The cycles of all stages. -/
def totalCycles (cs : List Cycles) : Nat := (cs.map fun c => c.n.toNat).sum

/-- The ticks of all stages: their cycles, and a quarter of a period for every one of them. -/
def totalTicks (f : Frequency) (S : Nat) (cs : List Cycles) : Tick :=
  (f.period f64 * totalCycles cs + cs.length * f.quarter f64) / S

/-- The delay that the stages add to a packet, read back in cycles, is the sum of theirs. -/
def AddsUp (ts : Time) (clkDomain : ClockDomain) (randomRange : Tick → Exec Tick) (pkt : Packet T)
    (cs : List Cycles) : Prop :=
  ∃ pkt' c, pkt.appendLatencies ts clkDomain randomRange (cs.map .cycle) = .ok pkt' ∧
    clkDomain.fromTick ts (pkt'.readyAt - pkt.readyAt) f64 = .ok c ∧ c.n.toNat = totalCycles cs

/-- That many quarters of a period and the drift are still in one period. -/
def InsidePeriod (quarter n : Nat) (drift : ℤ) : Prop :=
  0 ≤ n * quarter + drift ∧ n * quarter + drift < 4 * quarter

theorem Packet.appendDelay_appendDelay (d d' : Tick) :
    (pkt.appendDelay d).appendDelay d' = pkt.appendDelay (d + d') := by
  unfold Packet.appendDelay
  rw [Nat.add_assoc]

/-- Every stage adds its cycles, and a quarter of a period. -/
theorem appendLatencies_eq_ok_iff {k : Nat} (hts : ts.Holds S) (hS : 1 ≤ S) (hk : 0 < k)
    (hperiod : f.period f64 = 4 * (S * k)) (hready : pkt.readyAt < 2 ^ 64) :
    pkt.appendLatencies ts ⟨f⟩ randomRange (cs.map .cycle) = .ok pkt' ↔
      (∀ c ∈ cs, f.period f64 * c.n.toNat + f.quarter f64 < 2 ^ 64) ∧
        pkt.readyAt + k * (4 * totalCycles cs + cs.length) < 2 ^ 64 ∧
        pkt' = pkt.appendDelay (k * (4 * totalCycles cs + cs.length)) := by
  induction cs generalizing pkt with
  | nil =>
      constructor
      · intro h
        obtain rfl := Except.ok.inj h
        exact ⟨fun c hc => absurd hc List.not_mem_nil, hready, rfl⟩
      · rintro ⟨-, -, rfl⟩
        rfl
  | cons c cs ih =>
      have hunfold : pkt.appendLatencies ts ⟨f⟩ randomRange ((c :: cs).map .cycle) =
          (ClockDomain.intoTick ts ⟨f⟩ c f64 >>= fun delay =>
            pkt.appendDelayChecked delay >>= fun pkt =>
              pkt.appendLatencies ts ⟨f⟩ randomRange (cs.map .cycle)) := by
        show (List.foldlM _ _ (Latency.cycle c :: cs.map .cycle)) = _
        rw [List.foldlM_cons]
        show (ClockDomain.intoTick ts ⟨f⟩ c f64 >>= _) >>= _ = _
        rw [bind_assoc]
        rfl
      have hsum : k * (4 * c.n.toNat + 1) + k * (4 * totalCycles cs + cs.length) =
          k * (4 * totalCycles (c :: cs) + (c :: cs).length) := by
        unfold totalCycles
        rw [List.map_cons, List.sum_cons, List.length_cons]
        ring
      rw [hunfold, List.forall_mem_cons, ← hsum, ← Nat.add_assoc]
      by_cases hfit : f.period f64 * c.n.toNat + f.quarter f64 < 2 ^ 64
      · rw [intoTick_of_dvd hts hS hk hperiod hfit]
        show pkt.appendDelayChecked _ >>= _ = .ok pkt' ↔ _
        by_cases hadd : pkt.readyAt + k * (4 * c.n.toNat + 1) < 2 ^ 64
        · rw [Packet.appendDelayChecked, if_pos hadd]
          show (pkt.appendDelay _).appendLatencies ts ⟨f⟩ randomRange (cs.map .cycle) = .ok pkt' ↔ _
          rw [ih hadd, Packet.appendDelay_appendDelay]
          exact ⟨fun h => ⟨⟨hfit, h.1⟩, h.2⟩, fun h => ⟨h.1.2, h.2⟩⟩
        · rw [Packet.appendDelayChecked, if_neg hadd]
          refine iff_of_false (fun h => nomatch h) fun h => ?_
          exact hadd (lt_of_le_of_lt (Nat.le_add_right _ _) h.2.1)
      · constructor
        · intro h
          cases hinto : ClockDomain.intoTick ts ⟨f⟩ c f64 with
          | error e =>
              rw [hinto] at h
              cases h
          | ok t => exact absurd hinto (intoTick_ne_ok keepsShort_f64 hfit)
        · intro h
          exact absurd h.1.1 hfit

/-! ### Reading it back -/

/-- What is read as `t` femtoseconds is `x` whole periods of four quarters `q` exactly when what
is left of `t` is inside a period. -/
theorem div_eq_iff_inside {q x n t : Nat} {drift : ℤ} (hq : 0 < q)
    (ht : (t : ℤ) = 4 * q * x + n * q + drift) :
    t / (4 * q) = x ↔ InsidePeriod q n drift := by
  have hdiv : t / (4 * q) = x ↔ 4 * q * x ≤ t ∧ t < 4 * q * x + 4 * q := by
    rw [Nat.div_eq_iff (by omega), Nat.mul_comm x]
    omega
  unfold InsidePeriod
  rw [hdiv]
  zify
  rw [ht]
  constructor
  · rintro ⟨hle, hlt⟩
    exact ⟨by linarith, by linarith⟩
  · rintro ⟨hle, hlt⟩
    exact ⟨by linarith, by linarith⟩

/-- Without drift there is room for three quarters. -/
theorem insidePeriod_iff_lt_four {q n : Nat} (hq : 0 < q) : InsidePeriod q n 0 ↔ n < 4 := by
  have hmul : n * q < 4 * q ↔ n < 4 := Nat.mul_lt_mul_right hq
  unfold InsidePeriod
  rw [← hmul, add_zero]
  constructor
  · rintro ⟨-, hlt⟩
    exact_mod_cast hlt
  · intro hlt
    exact ⟨by positivity, by exact_mod_cast hlt⟩

/-- With a drift below a quarter there is room for at least one and up to three. -/
theorem insidePeriod_of_abs_lt {q n : Nat} {drift : ℤ} (hdrift : |drift| < q) (hone : 1 ≤ n)
    (hn : n < 4) : InsidePeriod q n drift := by
  have hlow : 1 * q ≤ n * q := Nat.mul_le_mul_right q hone
  have hhigh : n * q ≤ 3 * q := Nat.mul_le_mul_right q (by omega)
  obtain ⟨hneg, hpos⟩ := abs_lt.mp hdrift
  unfold InsidePeriod
  zify at hlow hhigh
  exact ⟨by linarith, by linarith⟩

/-- Any delay of up to three latencies is read right at a clock slow enough for it. -/
theorem insidePeriod_of_lt_four (hts : ts.Holds S) (hfit : S * totalTicks f S cs < 2 ^ 63)
    (hslow : S * totalTicks f S cs + 2 ^ 49 < 2 ^ 50 * f.quarter f64) (hone : 1 ≤ cs.length)
    (hn : cs.length < 4) :
    InsidePeriod (f.quarter f64) cs.length (drift ts S (totalTicks f S cs)) := by
  have hdrift := abs_drift_le hts hfit
  have hlt : |(drift ts S (totalTicks f S cs) : ℚ)| < f.quarter f64 := by
    refine lt_of_le_of_lt hdrift ?_
    have hslow : ((S * totalTicks f S cs : Nat) : ℚ) + 2 ^ 49 < 2 ^ 50 * f.quarter f64 := by
      exact_mod_cast hslow
    rw [div_add' _ _ _ (by norm_num), div_lt_iff₀ (by norm_num)]
    linarith
  exact insidePeriod_of_abs_lt (by exact_mod_cast hlt) hone hn

section

variable (hts : ts.Holds S) (hS : 1 ≤ S) (hdvd : 4 * S ∣ f.period f64)

include hS hdvd

/-- A period of a whole number of ticks to the quarter, with the ticks of all stages. -/
theorem exists_ticks (hpos : 0 < f.period f64) (cs : List Cycles) :
    ∃ k, 0 < k ∧ f.period f64 = 4 * (S * k) ∧ f.quarter f64 = S * k ∧
      totalTicks f S cs = k * (4 * totalCycles cs + cs.length) := by
  obtain ⟨k, hk⟩ := hdvd
  have hperiod : f.period f64 = 4 * (S * k) := by rw [hk, Nat.mul_assoc]
  have hkpos : 0 < k := by
    rcases Nat.eq_zero_or_pos k with rfl | hk
    · omega
    · exact hk
  refine ⟨k, hkpos, hperiod, quarter_of_dvd hperiod, ?_⟩
  have hmul : 4 * (S * k) * totalCycles cs + cs.length * (S * k) =
      S * (k * (4 * totalCycles cs + cs.length)) := by ring
  unfold totalTicks
  rw [quarter_of_dvd hperiod, hperiod, hmul, Nat.mul_div_cancel_left _ hS]

include hts

/-- **Stages add up.**  The cycles of the stages of a packet add up exactly when all sums fit and
the quarters of all of them, with the drift, are inside one period; for less than half a second
of delay that is when there are fewer than four. -/
theorem addsUp_iff (hready : pkt.readyAt < 2 ^ 64) :
    (AddsUp ts ⟨f⟩ randomRange pkt cs ↔
      0 < f.period f64 ∧
        (∀ c ∈ cs, f.period f64 * c.n.toNat + f.quarter f64 < 2 ^ 64) ∧
        pkt.readyAt + totalTicks f S cs < 2 ^ 64 ∧
        InsidePeriod (f.quarter f64) cs.length (drift ts S (totalTicks f S cs))) ∧
      (0 < f.period f64 → S * totalTicks f S cs < 2 ^ 49 →
        (InsidePeriod (f.quarter f64) cs.length (drift ts S (totalTicks f S cs)) ↔
          cs.length < 4)) := by
  constructor
  · rcases Nat.eq_zero_or_pos (f.period f64) with hzero | hpos
    · refine iff_of_false ?_ fun h => absurd h.1 (by omega)
      rintro ⟨pkt', c, -, hback, -⟩
      exact ClockDomain.fromTick_ne_ok keepsShort_f64 hzero hback
    obtain ⟨k, hk, hperiod, hquarter, hticks⟩ := exists_ticks hS hdvd hpos cs
    have hq : 0 < f.quarter f64 := by omega
    have hfs : (ticksInFs ts (totalTicks f S cs) : ℤ) =
        4 * f.quarter f64 * totalCycles cs + cs.length * f.quarter f64 +
          drift ts S (totalTicks f S cs) := by
      unfold drift
      rw [hquarter, hticks]
      push_cast
      ring
    obtain ⟨c, hc, hn⟩ := ClockDomain.fromTick_eq ts keepsShort_f64 hpos
      (totalTicks f S cs)
    have hback : c.n.toNat = totalCycles cs ↔
        InsidePeriod (f.quarter f64) cs.length (drift ts S (totalTicks f S cs)) := by
      rw [hn, ← div_eq_iff_inside hq hfs, hquarter, ← hperiod]
      rfl
    have hdelay : (pkt.appendDelay (totalTicks f S cs)).readyAt - pkt.readyAt =
        totalTicks f S cs := Nat.add_sub_cancel_left _ _
    unfold AddsUp
    simp only [appendLatencies_eq_ok_iff hts hS hk hperiod hready, ← hticks]
    constructor
    · rintro ⟨pkt', c', ⟨hfits, hfit, rfl⟩, hfrom, hsum⟩
      rw [hdelay, hc] at hfrom
      obtain rfl := Except.ok.inj hfrom
      exact ⟨hpos, hfits, hfit, hback.mp hsum⟩
    · rintro ⟨-, hfits, hfit, hinside⟩
      refine ⟨_, c, ⟨hfits, hfit, rfl⟩, ?_, hback.mpr hinside⟩
      rw [hdelay]
      exact hc
  · intro hpos hsmall
    obtain ⟨k, hk, hperiod, hquarter, -⟩ := exists_ticks hS hdvd hpos cs
    rw [drift_eq_zero hts hsmall]
    exact insidePeriod_iff_lt_four (by omega)

end

/-- Two stages of one cycle at 1 GHz and 1 ps. -/
theorem addsUp_two : AddsUp (.fs 1000) ⟨.hz 1000000000⟩ (fun _ => .ok 0)
    ({ uid := 0, payload := () } : Packet Unit) [⟨1⟩, ⟨1⟩] := by
  have hts : (Time.fs 1000).Holds 1000 := rfl
  obtain ⟨hiff, hsmall⟩ := @addsUp_iff Unit { uid := 0, payload := () } (.fs 1000)
    (.hz 1000000000) 1000 [⟨1⟩, ⟨1⟩] (fun _ => .ok 0) hts (by decide) (by decide) (by decide)
  exact hiff.mpr ⟨by decide, by decide, by decide,
    (hsmall (by decide) (by decide)).mpr (by decide)⟩

/-- Four stages of one cycle at 1 GHz and 1 ps take five. -/
theorem addsUp_not_four : ¬ AddsUp (.fs 1000) ⟨.hz 1000000000⟩ (fun _ => .ok 0)
    ({ uid := 0, payload := () } : Packet Unit) [⟨1⟩, ⟨1⟩, ⟨1⟩, ⟨1⟩] := by
  have hts : (Time.fs 1000).Holds 1000 := rfl
  rintro ⟨pkt', c, happ, hfrom, hsum⟩
  obtain ⟨-, -, rfl⟩ := (appendLatencies_eq_ok_iff (S := 1000) (k := 250) hts
    (by decide) (by decide) (by decide) (by decide)).mp happ
  obtain ⟨c', hc', hn⟩ := ClockDomain.fromTick_eq (f := .hz 1000000000) (.fs 1000)
    keepsShort_f64 (by decide) 5000
  obtain rfl := Except.ok.inj (hc'.symm.trans hfrom)
  obtain ⟨x, hread, hx⟩ := ticksInFs_within hts 5000
  have hread : ((timeOfTick (.fs 1000) 5000 f64).intoFs f64).toNat = 5000000 :=
    hread.trans (roundToUsize_of_within hx (by decide))
  rw [hn, hread] at hsum
  exact absurd hsum (by decide)

end Ra2m
