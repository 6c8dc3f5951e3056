/-
Addition and subtraction of word lists.

The loops of an addition keep the carry in the result vector, in the word above the
ones that are done.  After `k` rounds the vector stands for the sum of the first `k`
words of both operands, whether the shorter operand still has words or not; the last
carry is the word that is popped.  So the sum is right up to the words of the longer
operand, and the assertion fires when something does not fit.

A subtraction adds the complement of the subtrahend at the subtrahend's own length.
The carry out of the sum is what makes the difference right, and it is the overflow that the
assertion refuses; a longer minuend has words above the complement, where the carry
stays.
-/
import Mathlib.Tactic.LinearCombination
import Ra2m.Sim.UInt

namespace Ra2m

namespace Types

/-- The number that a list of words stands for. -/
def value (l : List UInt64) : Nat := Words.value (2 ^ 64) UInt64.toNat l

/-! ### Words -/

theorem one_lt_base : 1 < 2 ^ 64 := by norm_num

theorem value_lt (l : List UInt64) : value l < 2 ^ (64 * l.length) := by
  rw [pow_mul]
  exact Words.value_lt one_lt_base UInt64.toNat_lt l

theorem value_nil : value [] = 0 := rfl

theorem value_cons (x : UInt64) (l : List UInt64) :
    value (x :: l) = x.toNat + 2 ^ 64 * value l := Words.value_cons x

theorem value_append (l m : List UInt64) :
    value (l ++ m) = value l + (2 ^ 64) ^ l.length * value m := Words.value_append

theorem value_zeros (n : Nat) : value (List.replicate n 0) = 0 :=
  Words.value_replicate UInt64.toNat_zero n

theorem value_take_succ (l : List UInt64) (i : Nat) :
    value (l.take (i + 1)) = value (l.take i) + (2 ^ 64) ^ i * (l.getD i 0).toNat :=
  Words.value_take_succ UInt64.toNat_zero l i

theorem value_take (l : List UInt64) (k : Nat) : value (l.take k) = value l % 2 ^ (64 * k) := by
  rw [pow_mul]
  exact Words.value_take (Nat.two_pow_pos 64) UInt64.toNat_lt l k

theorem value_drop (l : List UInt64) (k : Nat) : value (l.drop k) = value l / 2 ^ (64 * k) := by
  rw [pow_mul]
  exact Words.value_drop (Nat.two_pow_pos 64) UInt64.toNat_lt l k

/-- A number cut between two of its words. -/
theorem value_cut (l : List UInt64) (k : Nat) :
    value l = value (l.take k) + 2 ^ (64 * k) * value (l.drop k) := by
  rw [value_take, value_drop, Nat.mod_add_div]

theorem one_le_toNat {w : UInt64} (h : w ≠ 0) : 1 ≤ w.toNat :=
  Nat.pos_of_ne_zero fun hz => h (UInt64.toNat.inj hz)

theorem resizeVec_of_le {vec : List UInt64} {len : Nat} (h : len ≤ vec.length) :
    resizeVec vec len = vec.take len := by
  unfold resizeVec
  rw [Nat.sub_eq_zero_of_le h, List.replicate_zero, List.append_nil]

theorem wide_toNat (w : UInt64) : (wide w).toNat = w.toNat := by
  unfold wide
  rw [BitVec.toNat_setWidth]
  exact Nat.mod_eq_of_lt (lt_trans w.toNat_lt (by norm_num))

theorem narrow_toNat (val : BitVec 128) : (narrow val).toNat = val.toNat % 2 ^ 64 := by
  show (val.setWidth 64).toNat = _
  rw [BitVec.toNat_setWidth]

/-- The mask keeps a bit too many, which the cast to a word drops. -/
theorem split_toNat (val : BitVec 128) :
    (split val).1.toNat = val.toNat / 2 ^ 64 ∧ (split val).2.toNat = val.toNat % 2 ^ 64 := by
  have hmask : (~~~((~~~1#128) <<< 64)).toNat = 2 ^ 65 - 1 := by decide
  constructor
  · show (narrow (val >>> 64)).toNat = _
    rw [narrow_toNat, BitVec.toNat_ushiftRight, Nat.shiftRight_eq_div_pow]
    have hval := val.isLt
    exact Nat.mod_eq_of_lt (by omega)
  · show (narrow (val &&& ~~~((~~~1#128) <<< 64))).toNat = _
    rw [narrow_toNat, BitVec.toNat_and, hmask, Nat.and_two_pow_sub_one_eq_mod]
    omega

/-- A sum of three words fits in 128 bits. -/
theorem wide_add_toNat (x y z : UInt64) :
    (wide x + wide y + wide z).toNat = x.toNat + y.toNat + z.toNat := by
  have hx := x.toNat_lt
  have hy := y.toNat_lt
  have hz := z.toNat_lt
  rw [BitVec.toNat_add, BitVec.toNat_add, wide_toNat, wide_toNat, wide_toNat]
  omega

/-! ### The loops of an addition -/

variable {shortOp longOp res a b : List UInt64} {k : Nat}

/-- After `k` rounds: the words that are done, the carry, and the words not reached. -/
structure Summed (shortOp longOp : List UInt64) (k : Nat) (res : List UInt64) : Prop where
  words : ∃ done carry, res = done ++ carry :: List.replicate (longOp.length - k) 0 ∧
    done.length = k
  total : value res = value (shortOp.take k) + value (longOp.take k)

theorem Summed.start (shortOp longOp : List UInt64) :
    Summed shortOp longOp 0 (List.replicate (longOp.length + 1) 0) := by
  refine ⟨⟨[], 0, ?_, rfl⟩, ?_⟩
  · rw [Nat.sub_zero, List.nil_append, List.replicate_succ]
  · exact value_zeros _

theorem Summed.step (h : Summed shortOp longOp k res) (hk : k < longOp.length) :
    Summed shortOp longOp (k + 1) (addCommon shortOp longOp res k) := by
  obtain ⟨⟨done, carry, rfl, rfl⟩, htotal⟩ := h
  have hfree : longOp.length - done.length = longOp.length - (done.length + 1) + 1 := by omega
  have hsum := wide_add_toNat carry (shortOp.getD done.length 0) (longOp.getD done.length 0)
  obtain ⟨hhi, hlo⟩ := split_toNat
    (wide carry + wide (shortOp.getD done.length 0) + wide (longOp.getD done.length 0))
  have hres : addCommon shortOp longOp
      (done ++ carry :: List.replicate (longOp.length - done.length) 0) done.length =
      (done ++ [(split (wide carry + wide (shortOp.getD done.length 0) +
        wide (longOp.getD done.length 0))).2]) ++
      (split (wide carry + wide (shortOp.getD done.length 0) +
        wide (longOp.getD done.length 0))).1 ::
        List.replicate (longOp.length - (done.length + 1)) 0 := by
    unfold addCommon
    rw [Words.getD_middle rfl, hfree, List.replicate_succ]
    dsimp only
    rw [Words.set_next rfl, Words.set_middle rfl, List.append_assoc, List.singleton_append]
  rw [hres]
  refine ⟨⟨_, _, rfl, by rw [List.length_append, List.length_singleton]⟩, ?_⟩
  -- The carry, the two words and what is done add up to the same before and after.
  rw [value_take_succ, value_take_succ]
  rw [value_append, value_cons, value_zeros] at htotal
  rw [value_append, value_append, value_cons, value_cons,
    value_zeros, value_nil, List.length_append, List.length_singleton, hhi, hlo,
    hsum, pow_succ (2 ^ 64) done.length]
  have hdiv := Nat.mod_add_div (carry.toNat + (shortOp.getD done.length 0).toNat +
    (longOp.getD done.length 0).toNat) (2 ^ 64)
  generalize (carry.toNat + (shortOp.getD done.length 0).toNat +
    (longOp.getD done.length 0).toNat) % 2 ^ 64 = lo at hdiv ⊢
  generalize (carry.toNat + (shortOp.getD done.length 0).toNat +
    (longOp.getD done.length 0).toNat) / 2 ^ 64 = hi at hdiv ⊢
  generalize (2 ^ 64) ^ done.length = p at htotal ⊢
  linear_combination htotal + p * hdiv

/-- Behind the shorter operand a round goes on as if its words were zero. -/
theorem addTail_eq (h : shortOp.length ≤ k) :
    addTail longOp res k = addCommon shortOp longOp res k := by
  unfold addTail addCommon
  rw [List.getD_eq_default shortOp _ h, show wide 0 = 0#128 from rfl, BitVec.add_zero]

theorem summed_common (hlen : shortOp.length ≤ longOp.length) (hk : k ≤ shortOp.length) :
    Summed shortOp longOp k (addCommonRounds shortOp longOp k) := by
  refine Words.foldl_range ?_ (Summed.start shortOp longOp)
  intro i s hi h
  exact h.step (by omega)

theorem summed_tail (hlen : shortOp.length ≤ longOp.length)
    (hk : k ≤ longOp.length - shortOp.length) :
    Summed shortOp longOp (shortOp.length + k) (addTailRounds shortOp longOp k) := by
  unfold addTailRounds
  rw [List.range'_eq_map_range, List.foldl_map]
  refine Words.foldl_range (P := fun i s => Summed shortOp longOp (shortOp.length + i) s) ?_
    (summed_common hlen (Nat.le_refl _))
  intro i s hi h
  have htail : addTail longOp s (shortOp.length + i) =
      addCommon shortOp longOp s (shortOp.length + i) := addTail_eq (Nat.le_add_right _ _)
  rw [htail]
  exact h.step (by omega)

/-! ### The sum -/

theorem longShort_spec (a b : List UInt64) :
    (longShort a b).2.length ≤ (longShort a b).1.length ∧
      (longShort a b).1.length = max a.length b.length ∧
      value (longShort a b).2 + value (longShort a b).1 = value a + value b := by
  unfold longShort
  split
  · rename_i h
    exact ⟨h, (Nat.max_eq_left h).symm, Nat.add_comm _ _⟩
  · rename_i h
    have hle : a.length ≤ b.length := Nat.le_of_not_le h
    exact ⟨hle, (Nat.max_eq_right hle).symm, rfl⟩

/-- The words of a sum and the carry out of it, whatever the build does with the carry. -/
theorem slicedAdd_parts (a b : List UInt64) :
    ∃ (sum : List UInt64) (carry : UInt64), sum.length = max a.length b.length ∧
      value sum + 2 ^ (64 * max a.length b.length) * carry.toNat = value a + value b ∧
      ∀ debug, slicedAdd debug a b =
        if debug = true ∧ carry ≠ 0 then .error ⟨"Sliced operation overflowed"⟩ else .ok sum := by
  obtain ⟨hle, hmax, hval⟩ := longShort_spec a b
  have h := summed_tail hle (Nat.le_refl _)
  rw [Nat.add_sub_cancel' hle] at h
  obtain ⟨⟨sum, carry, hres, hlen⟩, htotal⟩ := h
  rw [Nat.sub_self, List.replicate_zero] at hres
  refine ⟨sum, carry, hlen.trans hmax, ?_, ?_⟩
  · rw [hres, value_append, value_cons, value_nil, Nat.mul_zero, Nat.add_zero, hlen, hmax,
      List.take_of_length_le (hle.trans (Nat.le_of_eq hmax)),
      List.take_of_length_le (Nat.le_of_eq hmax), hval] at htotal
    rw [pow_mul]
    exact htotal
  · intro debug
    have hpair : longShort a b = ((longShort a b).1, (longShort a b).2) := rfl
    unfold slicedAdd
    rw [hpair]
    dsimp only
    rw [hres, List.getLastD_concat, List.dropLast_concat]

/-- **Addition is exact up to the longer operand.**  The sum has the words of the longer operand
and is the sum of the numbers modulo the power of two that they span; the assertion fires exactly
when the sum of the numbers does not fit, and after every round of either loop the
vector stands for the sum of the words that were read. -/
theorem slicedAdd_correct (a b : List UInt64) :
    ∃ sum, slicedAdd false a b = .ok sum ∧ sum.length = max a.length b.length ∧
      value sum = (value a + value b) % 2 ^ (64 * max a.length b.length) ∧
      slicedAdd true a b = (if value a + value b < 2 ^ (64 * max a.length b.length) then .ok sum
        else .error ⟨"Sliced operation overflowed"⟩) ∧
      (∀ k ≤ (longShort a b).2.length,
        value (addCommonRounds (longShort a b).2 (longShort a b).1 k) =
          value ((longShort a b).2.take k) + value ((longShort a b).1.take k)) ∧
      (∀ k ≤ (longShort a b).1.length - (longShort a b).2.length,
        value (addTailRounds (longShort a b).2 (longShort a b).1 k) =
          value (longShort a b).2 +
            value ((longShort a b).1.take ((longShort a b).2.length + k))) := by
  obtain ⟨hle, hmax, -⟩ := longShort_spec a b
  obtain ⟨sum, carry, hlen, htotal, hbuild⟩ := slicedAdd_parts a b
  have hlt := value_lt sum
  rw [hlen] at hlt
  refine ⟨sum, (hbuild false).trans (if_neg fun h => Bool.false_ne_true h.1), hlen, ?_, ?_, ?_, ?_⟩
  · rw [← htotal, Nat.add_mul_mod_self_left, Nat.mod_eq_of_lt hlt]
  · rw [hbuild true, ← htotal]
    by_cases hcarry : carry = 0
    · rw [if_neg (fun h => h.2 hcarry), hcarry, if_pos]
      rwa [UInt64.toNat_zero, Nat.mul_zero, Nat.add_zero]
    · rw [if_pos ⟨rfl, hcarry⟩, if_neg]
      have hpow := Nat.le_mul_of_pos_right (2 ^ (64 * max a.length b.length)) (one_le_toNat hcarry)
      exact Nat.not_lt_of_le (hpow.trans (Nat.le_add_left _ _))
  · intro k hk
    exact (summed_common hle hk).total
  · intro k hk
    rw [(summed_tail hle hk).total, List.take_of_length_le (Nat.le_add_right _ _)]

/-! ### Differences -/

/-- A complement and its number fill all the bits. -/
theorem value_complement (l : List UInt64) :
    value (l.map (~~~ ·)) + value l + 1 = 2 ^ (64 * l.length) := by
  induction l with
  | nil => rfl
  | cons x l ih =>
      have hx : (~~~x).toNat + x.toNat + 1 = 2 ^ 64 := by
        have hlt := x.toNat_lt
        rw [UInt64.toNat_not]
        show 2 ^ 64 - 1 - x.toNat + x.toNat + 1 = 2 ^ 64
        omega
      rw [List.map_cons, value_cons, value_cons, List.length_cons, Nat.mul_succ, pow_add]
      linear_combination hx + 2 ^ 64 * ih

/-- The two's complement of a number of at least one word, and when its sum overflows. -/
theorem slicedTwoComplement_parts (hb : b ≠ []) :
    ∃ bTc, bTc.length = b.length ∧ value bTc < 2 ^ (64 * b.length) ∧
      (value b = 0 → value bTc = 0) ∧
      (value b ≠ 0 → value bTc + value b = 2 ^ (64 * b.length)) ∧
      ∀ debug, slicedTwoComplement debug b =
        if debug = true ∧ value b = 0 then .error ⟨"Sliced operation overflowed"⟩
        else .ok bTc := by
  have hpos : 1 ≤ b.length := List.length_pos_of_ne_nil hb
  have hone : value [1] = 1 := by
    rw [value_cons, value_nil]
    rfl
  obtain ⟨bTc, carry, hlen, htotal, hbuild⟩ := slicedAdd_parts (b.map (~~~ ·)) [1]
  rw [List.length_map, List.length_singleton, Nat.max_eq_left hpos] at hlen htotal
  have hcompl := value_complement b
  have hlt := value_lt bTc
  have hvb := value_lt b
  rw [hlen] at hlt
  rw [hone] at htotal
  generalize hp : 2 ^ (64 * b.length) = p at *
  have hcarry : carry = 0 ↔ value b ≠ 0 := by
    constructor
    · rintro rfl h
      rw [UInt64.toNat_zero] at htotal
      omega
    · intro h
      by_contra hne
      have hpow := Nat.le_mul_of_pos_right p (one_le_toNat hne)
      omega
  refine ⟨bTc, hlen, hlt, ?_, ?_, ?_⟩
  · intro h
    have hpow := Nat.le_mul_of_pos_right p (one_le_toNat fun hz => hcarry.mp hz h)
    omega
  · intro h
    rw [hcarry.mpr h, UInt64.toNat_zero] at htotal
    omega
  · intro debug
    unfold slicedTwoComplement
    rw [hbuild debug]
    have hiff : (debug = true ∧ carry ≠ 0) ↔ (debug = true ∧ value b = 0) := by
      rw [ne_eq, hcarry, not_not]
    exact if_congr hiff rfl rfl

/-- **Subtraction is right in a release build when the minuend has no words beyond the
subtrahend, or the subtrahend is zero, and never with assertions.** -/
theorem slicedSub_correct_iff (debug : Bool) (a b : List UInt64) (hb : b ≠ [])
    (hle : value b ≤ value a) :
    (∃ l, slicedSub debug a b = .ok l ∧ l.length = max a.length b.length ∧
        value l = value a - value b) ↔
      debug = false ∧ (a.length ≤ b.length ∨ value b = 0) := by
  obtain ⟨bTc, hlen, hlt, hzero, hpos, htc⟩ := slicedTwoComplement_parts hb
  obtain ⟨sum, carry, hsum, htotal, hbuild⟩ := slicedAdd_parts a bTc
  rw [hlen] at hsum htotal
  have hsub : slicedSub debug a b = if debug = true ∧ (value b = 0 ∨ carry ≠ 0) then
      .error ⟨"Sliced operation overflowed"⟩ else .ok sum := by
    unfold slicedSub
    rw [htc debug]
    cases debug with
    | false =>
        rw [if_neg (fun h => Bool.false_ne_true h.1), if_neg (fun h => Bool.false_ne_true h.1)]
        exact (hbuild false).trans (if_neg fun h => Bool.false_ne_true h.1)
    | true =>
        by_cases hz : value b = 0
        · rw [if_pos ⟨rfl, hz⟩, if_pos ⟨rfl, Or.inl hz⟩]
          rfl
        · rw [if_neg (fun h => hz h.2)]
          refine (hbuild true).trans (if_congr ?_ rfl rfl)
          rw [or_iff_right hz]
  have hva := value_lt a
  have hvs := value_lt sum
  rw [hsum] at hvs
  constructor
  · rintro ⟨l, hok, -, hval⟩
    have hno : ¬ (debug = true ∧ (value b = 0 ∨ carry ≠ 0)) := by
      intro h
      rw [hsub, if_pos h] at hok
      cases hok
    rw [hsub, if_neg hno] at hok
    obtain rfl := Except.ok.inj hok
    by_cases hz : value b = 0
    · exact ⟨Bool.eq_false_iff.mpr fun h => hno ⟨h, Or.inl hz⟩, Or.inr hz⟩
    · -- What is left over is the carry, and it is the power the complement was taken from.
      have hcomp := hpos hz
      have hpow : 2 ^ (64 * max a.length b.length) * carry.toNat = 2 ^ (64 * b.length) := by omega
      have hcarry : carry ≠ 0 := by
        rintro rfl
        exact absurd hpow.symm (Nat.ne_of_gt (Nat.two_pow_pos _))
      have hexp : 64 * max a.length b.length ≤ 64 * b.length := by
        refine (Nat.pow_le_pow_iff_right Nat.one_lt_two).mp ?_
        rw [← hpow]
        exact Nat.le_mul_of_pos_right _ (one_le_toNat hcarry)
      exact ⟨Bool.eq_false_iff.mpr fun h => hno ⟨h, Or.inr hcarry⟩, Or.inl (by omega)⟩
  · rintro ⟨rfl, hcond⟩
    refine ⟨sum, hsub.trans (if_neg fun h => Bool.false_ne_true h.1), hsum, ?_⟩
    have hmod : value sum = (value a + value bTc) % 2 ^ (64 * max a.length b.length) := by
      rw [← htotal, Nat.add_mul_mod_self_left, Nat.mod_eq_of_lt hvs]
    by_cases hz : value b = 0
    · rw [hmod, hzero hz, hz, Nat.add_zero, Nat.sub_zero]
      refine Nat.mod_eq_of_lt (hva.trans_le (Nat.pow_le_pow_right Nat.two_pos ?_))
      exact Nat.mul_le_mul_left _ (Nat.le_max_left _ _)
    · have hlen := hcond.resolve_right hz
      have hcomp := hpos hz
      have hdiff : value a + value bTc = value a - value b + 2 ^ (64 * b.length) := by omega
      rw [hmod, hdiff, Nat.max_eq_right hlen, Nat.add_mod_right]
      refine Nat.mod_eq_of_lt ((Nat.sub_le _ _).trans_lt (hva.trans_le ?_))
      exact Nat.pow_le_pow_right Nat.two_pos (Nat.mul_le_mul_left _ hlen)

/-- Twelve minus five, one word each: the assertion fires on the carry that makes the
difference right.  Without assertions a minuend of two words keeps the carry. -/
theorem slicedSub_panics :
    slicedSub true [12] [5] = .error ⟨"Sliced operation overflowed"⟩ ∧
      slicedSub false [12, 0] [5] = .ok [7, 1] ∧
      ¬ (∃ l, slicedSub true [12] [5] = .ok l ∧ l.length = 1 ∧
        value l = value [12] - value [5]) := by
  have herr : slicedSub true [12] [5] = .error ⟨"Sliced operation overflowed"⟩ := by decide
  refine ⟨herr, by decide, ?_⟩
  rintro ⟨l, hok, -⟩
  cases herr.symm.trans hok

/-- A release build and two operands of one word. -/
theorem slicedSub_release :
    ∃ l, slicedSub false [12] [5] = .ok l ∧ l.length = max [12].length [5].length ∧
      value l = value [12] - value [5] :=
  (slicedSub_correct_iff false [12] [5] (by decide) (by decide)).mpr
    ⟨rfl, Or.inl (by decide)⟩

end Types

end Ra2m
