/-
How long moving data takes, and the timescale of the simulation.

An amount of data of `B` bytes moves in `10^15 * B / W` femtoseconds at `W` bytes per
second.  The division of the source scales by one second in ticks, not in
femtoseconds, and then reads the quotient as femtoseconds: its result shrinks with
the timescale, and the number of ticks made of it shrinks with the timescale once
more.  With a timescale of one femtosecond the two units are the same, and a
transfer of less than a femtosecond takes no time in either; in every other case the
result is at most half of what it should be.
-/
import Ra2m.Sim.Unit

namespace Ra2m

namespace Units

variable {ts : Time} {d : Data} {bw : BW}

/-- What the division computes: its scale is one second in ticks. -/
theorem div_eq (hts : 0 < ts.intoFs.toNat) (hbw : 0 < bw.intoByteS.toNat) :
    d.div ts bw = .ok (.fs (UInt64.ofNat
      (10 ^ 15 / ts.intoFs.toNat * d.intoByte.toNat / bw.intoByteS.toNat))) := by
  have hne : bw.intoByteS ≠ 0 := by
    intro h
    rw [h] at hbw
    exact absurd hbw (by decide)
  unfold Data.div
  simp only [tickOfTime_eq hts, intoFs_second Binary64.keepsShort_id, bind, Except.bind]
  rw [if_neg hne]

/-- The number of ticks a delay gets from it, where the femtoseconds fit a `usize`. -/
theorem transferTerm_eq (hts : 0 < ts.intoFs.toNat) (hbw : 0 < bw.intoByteS.toNat)
    (hfit : 10 ^ 15 / ts.intoFs.toNat * d.intoByte.toNat / bw.intoByteS.toNat < 2 ^ 64) :
    transferTerm ts bw d = .ok
      (10 ^ 15 / ts.intoFs.toNat * d.intoByte.toNat / bw.intoByteS.toNat / ts.intoFs.toNat) := by
  unfold transferTerm
  simp only [div_eq hts hbw, tickOfTime_eq hts, bind, Except.bind]
  rw [Time.intoFs, UInt64.toNat_ofNat_of_lt' hfit]

/-! ### The scale in ticks -/

/-- Scaling by the ticks of a second does not exceed scaling by its femtoseconds. -/
theorem scaled_le (s b w : Nat) : 10 ^ 15 / s * b / w ≤ 10 ^ 15 * b / w :=
  Nat.div_le_div_right (Nat.mul_le_mul_right b (Nat.div_le_self _ s))

/-- A timescale of at least two femtoseconds loses at least half. -/
theorem two_mul_scaled_le {s : Nat} (hs : 2 ≤ s) (b w : Nat) :
    2 * (10 ^ 15 / s * b / w) ≤ 10 ^ 15 * b / w := by
  have hhalf : 2 * (10 ^ 15 / s) ≤ 10 ^ 15 := by
    have hle : 10 ^ 15 / s ≤ 10 ^ 15 / 2 := Nat.div_le_div_left hs (by decide)
    omega
  calc 2 * (10 ^ 15 / s * b / w)
      ≤ 2 * (10 ^ 15 / s * b) / w := Nat.mul_div_le_mul_div_assoc _ _ _
    _ = 2 * (10 ^ 15 / s) * b / w := by rw [Nat.mul_assoc]
    _ ≤ 10 ^ 15 * b / w := Nat.div_le_div_right (Nat.mul_le_mul_right b hhalf)

/-- The two scales agree with a timescale of one femtosecond and on transfers of less than one. -/
theorem scaled_eq_iff {s b w : Nat} (hs : 1 ≤ s) (hw : 0 < w) :
    10 ^ 15 / s * b / w = 10 ^ 15 * b / w ↔ s = 1 ∨ 10 ^ 15 * b < w := by
  constructor
  · intro heq
    by_cases hone : s = 1
    · exact Or.inl hone
    · have htwo := two_mul_scaled_le (show 2 ≤ s by omega) b w
      have hzero : 10 ^ 15 * b / w = 0 := by omega
      exact Or.inr ((Nat.div_eq_zero_iff_lt hw).mp hzero)
  · rintro (rfl | hlt)
    · rw [Nat.div_one]
    · have hzero : 10 ^ 15 * b / w = 0 := Nat.div_eq_of_lt hlt
      have hle := scaled_le s b w
      rw [hzero] at hle
      rw [hzero, Nat.le_zero.mp hle]

/-- **The bandwidth term.**  A transfer takes its true time exactly when the timescale is one
femtosecond or the transfer takes less than that. -/
theorem transfer_exact_iff (ts : Time) (d : Data) (bw : BW) (hts : 1 ≤ ts.intoFs.toNat)
    (hbw : 0 < bw.intoByteS.toNat)
    (hfit : 10 ^ 15 * d.intoByte.toNat / bw.intoByteS.toNat < 2 ^ 64) :
    (d.div ts bw = .ok (.fs (UInt64.ofNat (10 ^ 15 * d.intoByte.toNat / bw.intoByteS.toNat))) ∧
        transferTerm ts bw d =
          .ok (10 ^ 15 * d.intoByte.toNat / (bw.intoByteS.toNat * ts.intoFs.toNat))) ↔
      ts.intoFs.toNat = 1 ∨ 10 ^ 15 * d.intoByte.toNat < bw.intoByteS.toNat := by
  have hle := scaled_le ts.intoFs.toNat d.intoByte.toNat bw.intoByteS.toNat
  rw [← scaled_eq_iff hts hbw, div_eq hts hbw, transferTerm_eq hts hbw (by omega),
    ← Nat.div_div_eq_div_mul]
  constructor
  · rintro ⟨hdiv, -⟩
    simp only [Except.ok.injEq, Time.fs.injEq] at hdiv
    have hnat := congrArg UInt64.toNat hdiv
    rwa [UInt64.toNat_ofNat_of_lt' (lt_of_le_of_lt hle hfit),
      UInt64.toNat_ofNat_of_lt' hfit] at hnat
  · intro heq
    rw [heq]
    exact ⟨rfl, rfl⟩

/-- A page at one byte per nanosecond, with a timescale of one femtosecond. -/
theorem transfer_exact_iff_page :
    transferTerm (.fs 1) (.byteS 1000000000) (.byte 4096) = .ok (10 ^ 15 * 4096 / (10 ^ 9 * 1)) :=
  ((transfer_exact_iff (.fs 1) (.byte 4096) (.byteS 1000000000) (by decide) (by decide)
    (by decide)).mpr (Or.inl rfl)).2

/-- The same page in picoseconds: four microseconds become four nanoseconds, and those four
thousand ticks where four million are due. -/
theorem transfer_short_in_ps :
    ((Data.byte 4096).div (.fs 1000) (.byteS 1000000000) = .ok (.fs 4096000) ∧
        (4096000 : UInt64) ≠ UInt64.ofNat (10 ^ 15 * 4096 / 10 ^ 9)) ∧
      transferTerm (.fs 1000) (.byteS 1000000000) (.byte 4096) = .ok 4096 ∧
        4096 ≠ 10 ^ 15 * 4096 / (10 ^ 9 * 1000) := by
  refine ⟨⟨?_, by decide⟩, ?_, by decide⟩
  · rw [div_eq (by decide) (by decide)]
    rfl
  · rw [transferTerm_eq (by decide) (by decide) (by decide)]
    rfl

end Units

end Ra2m
