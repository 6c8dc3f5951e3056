/-
Rounding to a binary format of 53 bits.

A number is written with a significand of 53 bits at the place of its highest bit, the
nearest one and on a tie the even one.  Exponents are unbounded: there is neither an
infinity nor a subnormal number.

A short number, one of at most 53 bits, is kept, and any other moves by at most one part
in `2 ^ 53`.  `Within` counts the roundings of a computation, and so bounds what all of
them move its result by.
-/
import Mathlib.Algebra.Order.Field.Power
import Mathlib.Data.Int.Log
import Mathlib.Data.Rat.Floor
import Mathlib.Tactic.Linarith
import Mathlib.Tactic.Positivity
import Mathlib.Tactic.Ring

namespace Binary64

/-- The nearest integer, the even one of two. -/
def nearestEven (x : ℚ) : ℤ :=
  if Int.fract x < 1 / 2 then ⌊x⌋
  else if 1 / 2 < Int.fract x then ⌊x⌋ + 1
  else if ⌊x⌋ % 2 = 0 then ⌊x⌋
  else ⌊x⌋ + 1

/-- The place of the lowest bit of the significand. -/
def lastPlace (x : ℚ) : ℤ := Int.log 2 |x| - 52

def round (x : ℚ) : ℚ := nearestEven (x / 2 ^ lastPlace x) * 2 ^ lastPlace x

/-- A rounding that keeps the numbers of at most 53 bits. -/
def KeepsShort (fl : ℚ → ℚ) : Prop :=
  ∀ m e : ℤ, |m| ≤ 2 ^ 53 → fl (m * 2 ^ e) = m * 2 ^ e

theorem keepsShort_id : KeepsShort id := fun _ _ _ => rfl

theorem KeepsShort.natCast {fl : ℚ → ℚ} (hfl : KeepsShort fl) {n : Nat} (hn : n ≤ 2 ^ 53) :
    fl n = n := by
  have h := hfl n 0 (by rw [Nat.abs_cast]; exact_mod_cast hn)
  simpa using h

/-! ### The nearest integer -/

theorem nearestEven_intCast (n : ℤ) : nearestEven n = n := by
  unfold nearestEven
  rw [Int.fract_intCast, if_pos (by norm_num), Int.floor_intCast]

theorem abs_nearestEven_sub_le (x : ℚ) : |(nearestEven x : ℚ) - x| ≤ 1 / 2 := by
  have hsplit := Int.floor_add_fract x
  have hnonneg := Int.fract_nonneg x
  have hlt := Int.fract_lt_one x
  unfold nearestEven
  split_ifs with hlow hhigh heven <;> push_cast <;> rw [abs_le] <;> constructor <;> linarith

/-! ### What a rounding keeps -/

theorem round_zero : round 0 = 0 := by
  unfold round
  rw [zero_div]
  show ((nearestEven ((0 : ℤ) : ℚ) : ℤ) : ℚ) * _ = 0
  rw [nearestEven_intCast]
  simp

/-- A multiple of the last place is kept. -/
theorem round_eq_self {x : ℚ} {n : ℤ} (hx : x = n * 2 ^ lastPlace x) : round x = x := by
  have hplace : (2 : ℚ) ^ lastPlace x ≠ 0 := by positivity
  have hdiv : x / 2 ^ lastPlace x = n := by
    rw [div_eq_iff hplace]
    exact hx
  unfold round
  rw [hdiv, nearestEven_intCast]
  exact hx.symm

theorem two_zpow_lastPlace_le {x : ℚ} (hx : x ≠ 0) : 2 ^ 52 * 2 ^ lastPlace x ≤ |x| := by
  have hlog := Int.zpow_log_le_self Nat.one_lt_two (abs_pos.mpr hx)
  have hadd : (2 : ℚ) ^ 52 * 2 ^ lastPlace x = 2 ^ Int.log 2 |x| := by
    unfold lastPlace
    rw [← zpow_natCast, ← zpow_add₀ two_ne_zero]
    congr 1
    omega
  rw [hadd]
  exact_mod_cast hlog

theorem keepsShort_round : KeepsShort round := by
  intro m e hm
  rcases eq_or_ne m 0 with rfl | hne
  · simpa using round_zero
  have hmq : (m : ℚ) ≠ 0 := Int.cast_ne_zero.mpr hne
  have hx : (m : ℚ) * 2 ^ e ≠ 0 := mul_ne_zero hmq (by positivity)
  have habs : |(m : ℚ) * 2 ^ e| = |(m : ℚ)| * 2 ^ e := by
    rw [abs_mul, abs_of_pos (show (0 : ℚ) < 2 ^ e by positivity)]
  have hmle : |(m : ℚ)| ≤ 2 ^ 53 := by exact_mod_cast hm
  have hplace := two_zpow_lastPlace_le hx
  rw [habs] at hplace
  generalize hu : lastPlace ((m : ℚ) * 2 ^ e) = u at hplace
  -- The last place is at most one above the exponent, and then the significand is even.
  rcases le_or_gt u e with hle | hgt
  · refine round_eq_self (n := m * 2 ^ (e - u).toNat) ?_
    have hpow : ((2 : ℚ) ^ (e - u).toNat) = 2 ^ (e - u) := by
      rw [← zpow_natCast, Int.toNat_of_nonneg (by omega)]
    push_cast
    rw [hu, hpow, mul_assoc, ← zpow_add₀ two_ne_zero, Int.sub_add_cancel]
  · have hpos : (0 : ℚ) < 2 ^ e := by positivity
    have hstep : (2 : ℚ) ^ u = 2 ^ (u - e) * 2 ^ e := by
      rw [← zpow_add₀ two_ne_zero, Int.sub_add_cancel]
    have hge : (2 : ℚ) ≤ 2 ^ (u - e) := by
      have hmono := zpow_le_zpow_right₀ (one_le_two (α := ℚ)) (show 1 ≤ u - e by omega)
      simpa using hmono
    have hlow : 2 ^ 52 * 2 ^ (u - e) ≤ |(m : ℚ)| := by
      rw [hstep, ← mul_assoc] at hplace
      exact le_of_mul_le_mul_right hplace hpos
    have heq : |(m : ℚ)| = 2 ^ 53 := by
      refine le_antisymm hmle ?_
      have hmul := mul_le_mul_of_nonneg_left hge (show (0 : ℚ) ≤ 2 ^ 52 by positivity)
      linarith
    have hue : (2 : ℚ) ^ (u - e) = 2 := by
      refine le_antisymm ?_ hge
      rw [heq] at hlow
      linarith
    have hint : |m| = 2 ^ 53 := by exact_mod_cast heq
    refine round_eq_self (n := m / 2) ?_
    have hhalf : m = m / 2 * 2 := by
      rcases abs_choice m with hm | hm <;> omega
    rw [hu, hstep, hue, ← mul_assoc]
    congr 1
    exact_mod_cast hhalf

/-! ### What a rounding moves -/

/-- **Relative error.**  Rounding moves a number by at most one part in `2 ^ 53`. -/
theorem abs_round_sub_le (x : ℚ) : |round x - x| ≤ |x| / 2 ^ 53 := by
  rcases eq_or_ne x 0 with rfl | hx
  · rw [round_zero]
    simp
  have hpos : (0 : ℚ) < 2 ^ lastPlace x := by positivity
  have hplace := two_zpow_lastPlace_le hx
  have hnear := abs_nearestEven_sub_le (x / 2 ^ lastPlace x)
  have hmove : round x - x =
      (nearestEven (x / 2 ^ lastPlace x) - x / 2 ^ lastPlace x) * 2 ^ lastPlace x := by
    unfold round
    rw [sub_mul, div_mul_cancel₀ _ hpos.ne']
  rw [hmove, abs_mul, abs_of_pos hpos]
  have hhalf := mul_le_mul_of_nonneg_right hnear hpos.le
  rw [le_div_iff₀ (by positivity)]
  linarith

/-! ### Several roundings in a row -/

/-- `y` is `x` up to the errors of `k` roundings. -/
def Within (k : Nat) (x y : ℚ) : Prop := |y - x| ≤ |x| * ((1 + 1 / 2 ^ 53) ^ k - 1)

variable {j k : Nat} {x x' y y' : ℚ}

theorem within_self (x : ℚ) : Within 0 x x := by
  unfold Within
  simp

theorem Within.mono (h : Within j x y) (hjk : j ≤ k) : Within k x y := by
  have hpow : (1 + 1 / 2 ^ 53 : ℚ) ^ j ≤ (1 + 1 / 2 ^ 53) ^ k :=
    pow_le_pow_right₀ (by norm_num) hjk
  exact le_trans h (mul_le_mul_of_nonneg_left (by linarith) (abs_nonneg x))

theorem Within.abs_le (h : Within k x y) : |y| ≤ |x| * (1 + 1 / 2 ^ 53) ^ k := by
  have htri := abs_add_le (y - x) x
  rw [sub_add_cancel] at htri
  have h : |y - x| ≤ |x| * ((1 + 1 / 2 ^ 53) ^ k - 1) := h
  rw [mul_sub, mul_one] at h
  linarith

theorem Within.mul (h : Within j x y) (h' : Within k x' y') : Within (j + k) (x * x') (y * y') := by
  have hfirst : |(y - x) * y'| ≤
      |x| * ((1 + 1 / 2 ^ 53) ^ j - 1) * (|x'| * (1 + 1 / 2 ^ 53) ^ k) := by
    rw [abs_mul]
    exact mul_le_mul h h'.abs_le (abs_nonneg _) (le_trans (abs_nonneg _) h)
  have hsecond : |x * (y' - x')| ≤ |x| * (|x'| * ((1 + 1 / 2 ^ 53) ^ k - 1)) := by
    rw [abs_mul]
    exact mul_le_mul_of_nonneg_left h' (abs_nonneg x)
  have hsum : y * y' - x * x' = (y - x) * y' + x * (y' - x') := by ring
  unfold Within
  rw [hsum]
  refine le_trans (abs_add_le _ _) (le_trans (add_le_add hfirst hsecond) (le_of_eq ?_))
  rw [abs_mul]
  ring

theorem Within.round (h : Within k x y) : Within (k + 1) x (round y) := by
  have hround := abs_round_sub_le y
  have hy := h.abs_le
  have htri := abs_add_le (Binary64.round y - y) (y - x)
  rw [sub_add_sub_cancel] at htri
  have hone : |x| * ((1 + 1 / 2 ^ 53) ^ (k + 1) - 1) =
      |x| * (1 + 1 / 2 ^ 53) ^ k / 2 ^ 53 + |x| * ((1 + 1 / 2 ^ 53) ^ k - 1) := by ring
  unfold Within
  rw [hone]
  refine le_trans htri (add_le_add (le_trans hround ?_) h)
  exact div_le_div_of_nonneg_right hy (by norm_num)

/-- Four roundings move a number by less than one part in `2 ^ 50`. -/
theorem Within.abs_sub_le (h : Within 4 x y) : |y - x| ≤ |x| / 2 ^ 50 := by
  have hfour : (1 + 1 / 2 ^ 53 : ℚ) ^ 4 - 1 ≤ 1 / 2 ^ 50 := by norm_num
  have hmul := mul_le_mul_of_nonneg_left hfour (abs_nonneg x)
  rw [mul_one_div] at hmul
  exact le_trans h hmul

end Binary64
