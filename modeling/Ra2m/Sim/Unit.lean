/-
The unit system (`unit.rs`).

Times, amounts of data and bandwidths carry the unit they were given in; a
conversion reads each as an integer number of femtoseconds, bytes or bytes per
second.  What is an `f64` in the source is a rational here.  `fl` is what an operation
on `f64` makes of its exact result, for the times: `f64` rounds it, and by default it is
exact, so that a conversion rounds once, to the nearest integer, and saturates at the
bounds of a `usize`.

`Tick` is an alias of `usize`, so a time that is turned `into()` a `usize` becomes a
number of ticks.  `Data.div`, which divides an amount of data by a bandwidth, takes
its scale from such a conversion of one second.
-/
import Ra2m.Lib.Binary64
import Ra2m.Sim.Port
import Mathlib.Data.Rat.Floor
import Mathlib.Tactic.Linarith

namespace Ra2m

namespace Units

/-- The rounding of `f64`.  Its exponents are unbounded: what leaves those of an `f64` becomes the
same `usize` here, zero or the highest one. -/
def f64 (x : ℚ) : ℚ := Binary64.round x

/-- `x.round() as usize`: half away from zero, then cut to the bounds of a `usize`. -/
def roundToUsize (x : ℚ) : UInt64 := UInt64.ofNat (min (2 ^ 64 - 1) ⌊x + 1 / 2⌋₊)

inductive Time where
  | fs (t : UInt64)
  | ps (t : ℚ)
  | ns (t : ℚ)
  | us (t : ℚ)
  | ms (t : ℚ)
  | s (t : ℚ)
  deriving DecidableEq

def Time.intoFs (self : Time) (fl : ℚ → ℚ := id) : UInt64 :=
  match self with
  | fs t => t
  | ps t => roundToUsize (fl (10 ^ 3 * t))
  | ns t => roundToUsize (fl (10 ^ 6 * t))
  | us t => roundToUsize (fl (10 ^ 9 * t))
  | ms t => roundToUsize (fl (10 ^ 12 * t))
  | s t => roundToUsize (fl (10 ^ 15 * t))

inductive Data where
  | byte (b : UInt64)
  | kB (b : ℚ)
  | kiB (b : ℚ)
  | mB (b : ℚ)
  | miB (b : ℚ)
  | gB (b : ℚ)
  | giB (b : ℚ)
  | tB (b : ℚ)
  | tiB (b : ℚ)
  | pB (b : ℚ)
  | piB (b : ℚ)
  | zB (b : ℚ)
  | ziB (b : ℚ)
  deriving DecidableEq

def Data.intoByte : Data → UInt64
  | byte b => b
  | kB b => roundToUsize (1000 * b)
  | kiB b => roundToUsize (1024 * b)
  | mB b => roundToUsize (1000 ^ 2 * b)
  | miB b => roundToUsize (1024 ^ 2 * b)
  | gB b => roundToUsize (1000 ^ 3 * b)
  | giB b => roundToUsize (1024 ^ 3 * b)
  | tB b => roundToUsize (1000 ^ 4 * b)
  | tiB b => roundToUsize (1024 ^ 4 * b)
  | pB b => roundToUsize (1000 ^ 5 * b)
  | piB b => roundToUsize (1024 ^ 5 * b)
  | zB b => roundToUsize (1000 ^ 6 * b)
  | ziB b => roundToUsize (1024 ^ 6 * b)

/-- A bandwidth. -/
inductive BW where
  | byteS (b : UInt64)
  | kBS (b : ℚ)
  | kiBS (b : ℚ)
  | mBS (b : ℚ)
  | miBS (b : ℚ)
  | gBS (b : ℚ)
  | giBS (b : ℚ)
  | tBS (b : ℚ)
  | tiBS (b : ℚ)
  | pBS (b : ℚ)
  | piBS (b : ℚ)
  | zBS (b : ℚ)
  | ziBS (b : ℚ)
  deriving DecidableEq

def BW.intoByteS : BW → UInt64
  | byteS b => b
  | kBS b => roundToUsize (1000 * b)
  | kiBS b => roundToUsize (1024 * b)
  | mBS b => roundToUsize (1000 ^ 2 * b)
  | miBS b => roundToUsize (1024 ^ 2 * b)
  | gBS b => roundToUsize (1000 ^ 3 * b)
  | giBS b => roundToUsize (1024 ^ 3 * b)
  | tBS b => roundToUsize (1000 ^ 4 * b)
  | tiBS b => roundToUsize (1024 ^ 4 * b)
  | pBS b => roundToUsize (1000 ^ 5 * b)
  | piBS b => roundToUsize (1024 ^ 5 * b)
  | zBS b => roundToUsize (1000 ^ 6 * b)
  | ziBS b => roundToUsize (1024 ^ 6 * b)

/-- `From<Time> for Tick`, under the timescale `ts` of the simulation. -/
def tickOfTime (ts t : Time) (fl : ℚ → ℚ := id) : Exec Tick :=
  if ts.intoFs fl = 0 then .error ⟨"attempt to divide by zero"⟩
  else .ok (t.intoFs fl / ts.intoFs fl).toNat

/-- `Div<BW> for Data`, under the timescale `ts` of the simulation. -/
def Data.div (ts : Time) (self : Data) (rhs : BW) : Exec Time := do
  let lhsB := self.intoByte
  let rhsBS := rhs.intoByteS
  let scaleSAsFs ← tickOfTime ts (.s 1)
  if rhsBS = 0 then .error ⟨"attempt to divide by zero"⟩
  else
    -- The product of two `usize` fits the `u128` it is computed in.
    .ok (.fs (UInt64.ofNat (scaleSAsFs * lhsB.toNat / rhsBS.toNat)))

/-- `Tick::from(size / bandwidth)`: what moving `size` adds to the delay of a component. -/
def transferTerm (ts : Time) (bandwidth : BW) (size : Data) : Exec Tick := do
  let t ← size.div ts bandwidth
  tickOfTime ts t

/-! ### What the conversions compute -/

/-- An integer number of units is not changed by the rounding. -/
theorem roundToUsize_natCast (n : Nat) : roundToUsize n = UInt64.ofNat (min (2 ^ 64 - 1) n) := by
  have hfloor : ⌊(n : ℚ) + 1 / 2⌋₊ = n := by
    refine (Nat.floor_eq_iff (by positivity)).mpr ⟨?_, ?_⟩
    · linarith
    · linarith
  unfold roundToUsize
  rw [hfloor]

theorem intoFs_second {fl : ℚ → ℚ} (hfl : Binary64.KeepsShort fl) :
    ((Time.s 1).intoFs fl).toNat = 10 ^ 15 := by
  have hkeep := hfl.natCast (show 10 ^ 15 ≤ 2 ^ 53 by norm_num)
  have h : (Time.s 1).intoFs fl = roundToUsize ((10 ^ 15 : Nat) : ℚ) := by
    show roundToUsize (fl (10 ^ 15 * 1)) = _
    rw [mul_one]
    exact_mod_cast congrArg roundToUsize hkeep
  rw [h, roundToUsize_natCast]
  rfl

theorem tickOfTime_eq {ts t : Time} {fl : ℚ → ℚ} (hts : 0 < (ts.intoFs fl).toNat) :
    tickOfTime ts t fl = .ok ((t.intoFs fl).toNat / (ts.intoFs fl).toNat) := by
  have hne : ts.intoFs fl ≠ 0 := by
    intro h
    rw [h] at hts
    exact absurd hts (by decide)
  unfold tickOfTime
  rw [if_neg hne, UInt64.toNat_div]

end Units

end Ra2m
