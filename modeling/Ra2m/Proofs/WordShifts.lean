/-
Shifts of word lists.

A shift is a shift by whole words and one by fewer bits than a word has.  The second
goes word by word and hands the bits that leave a word to its neighbour, where they
meet the zeros that the shift of the neighbour has made room with.  The two never
overlap, so the sum of them does not overflow, whatever the build checks.

To the left the loop runs upwards and keeps the shifted number of the words that were
read, the bits handed on included.  To the right it runs downwards, and what is written
is the quotient of the words from there on.
-/
import Ra2m.Proofs.WordSums

namespace Ra2m

namespace Types

variable {val : List UInt64} {sw r : Nat}

/-! ### One word -/

theorem pow_parts (hr : r < 64) : 2 ^ r * 2 ^ (64 - r) = 2 ^ 64 := by
  rw [← pow_add, Nat.add_sub_cancel' (Nat.le_of_lt hr)]

/-- The bits of a word that stay, and the bits that leave it, when it is shifted to the left. -/
theorem shiftLeft_parts (w : UInt64) (hr : r < 64) :
    (w <<< UInt64.ofNat r).toNat + 2 ^ 64 * (narrow (wide w >>> (64 - r))).toNat =
        w.toNat * 2 ^ r ∧
      (w <<< UInt64.ofNat r).toNat + 2 ^ r ≤ 2 ^ 64 ∧
      (narrow (wide w >>> (64 - r))).toNat < 2 ^ r := by
  have hpow : 2 ^ (64 - r) * 2 ^ r = 2 ^ 64 := (Nat.mul_comm _ _).trans (pow_parts hr)
  have hlow : (w <<< UInt64.ofNat r).toNat = w.toNat % 2 ^ (64 - r) * 2 ^ r := by
    rw [UInt64.toNat_shiftLeft, UInt64.toNat_ofNat_of_lt' (hr.trans (by decide)),
      Nat.mod_eq_of_lt hr, Nat.shiftLeft_eq, ← hpow, Nat.mul_mod_mul_right]
  have hdiv : w.toNat / 2 ^ (64 - r) < 2 ^ r := by
    rw [Nat.div_lt_iff_lt_mul (Nat.two_pow_pos _), Nat.mul_comm, hpow]
    exact w.toNat_lt
  have hhigh : (narrow (wide w >>> (64 - r))).toNat = w.toNat / 2 ^ (64 - r) := by
    rw [narrow_toNat, BitVec.toNat_ushiftRight, wide_toNat, Nat.shiftRight_eq_div_pow]
    exact Nat.mod_eq_of_lt ((Nat.div_le_self _ _).trans_lt w.toNat_lt)
  have hmod := Nat.mod_lt w.toNat (Nat.two_pow_pos (64 - r))
  refine ⟨?_, ?_, hhigh ▸ hdiv⟩
  · rw [hlow, hhigh, ← hpow]
    linear_combination 2 ^ r * Nat.mod_add_div w.toNat (2 ^ (64 - r))
  · rw [hlow, ← hpow, ← Nat.succ_mul]
    exact Nat.mul_le_mul_right _ hmod

theorem addWord_eq (debug : Bool) {x y : UInt64} (h : x.toNat + y.toNat < 2 ^ 64) :
    ∃ z, addWord debug x y = .ok z ∧ z.toNat = x.toNat + y.toNat := by
  refine ⟨x + y, ?_, ?_⟩
  · unfold addWord
    rw [if_neg (fun hover => Nat.not_le_of_lt h hover.2)]
  · rw [UInt64.toNat_add, Nat.mod_eq_of_lt h]

/-! ### To the left -/

/-- After `i` words: the zeros of the word shift, the words that are done, the room for the
others, and the bits on their way to the next word. -/
structure Shifted (val : List UInt64) (sw r i : Nat) (st : List UInt64 × UInt64) : Prop where
  words : ∃ done, st.1 = List.replicate sw 0 ++ done ++ List.replicate (val.length - i) 0 ∧
    done.length = i ∧
    value done + (2 ^ 64) ^ i * st.2.toNat = value (val.take i) * 2 ^ r
  carry : st.2.toNat < 2 ^ r

theorem Shifted.start (val : List UInt64) (sw r : Nat) :
    Shifted val sw r 0 (List.replicate (val.length + sw) 0, 0) := by
  refine ⟨⟨[], ?_, rfl, ?_⟩, Nat.two_pow_pos r⟩
  · rw [List.append_nil, Nat.sub_zero, List.replicate_append_replicate, Nat.add_comm]
  · rw [List.take_zero, value_nil, Nat.zero_mul, UInt64.toNat_zero]
    rfl

theorem Shifted.step {i : Nat} {st : List UInt64 × UInt64} (debug : Bool) (hr : r < 64)
    (hi : i < val.length) (h : Shifted val sw r i st) :
    ∃ t, shlStep debug val sw r st i = .ok t ∧ Shifted val sw r (i + 1) t := by
  obtain ⟨res, shiftIn⟩ := st
  obtain ⟨⟨done, hres, rfl, hval⟩, hcarry⟩ := h
  dsimp only at hres hval hcarry
  obtain ⟨hparts, hroom, hnext⟩ := shiftLeft_parts (val.getD done.length 0) hr
  obtain ⟨sum, hsum, hsumNat⟩ := addWord_eq debug
    (x := val.getD done.length 0 <<< UInt64.ofNat r) (y := shiftIn) (by omega)
  have hat : done.length + sw = (List.replicate sw 0 ++ done).length := by
    rw [List.length_append, List.length_replicate, Nat.add_comm]
  have hfree : val.length - done.length = val.length - (done.length + 1) + 1 := by omega
  refine ⟨(List.replicate sw 0 ++ (done ++ [sum]) ++
    List.replicate (val.length - (done.length + 1)) 0,
    narrow (wide (val.getD done.length 0) >>> (64 - r))), ?_,
    ⟨⟨done ++ [sum], rfl, ?_, ?_⟩, hnext⟩⟩
  · unfold shlStep
    dsimp only
    rw [hres, hfree, List.replicate_succ, Words.set_middle hat, Words.getD_middle hat, hsum]
    dsimp only [bind, Except.bind]
    rw [Words.set_middle hat, ← List.append_assoc (List.replicate sw 0), List.append_assoc _ [sum],
      List.singleton_append]
    rfl
  · rw [List.length_append, List.length_singleton]
  · rw [value_append, value_cons, value_nil, value_take_succ, hsumNat,
      pow_succ (2 ^ 64) done.length]
    linear_combination hval + (2 ^ 64) ^ done.length * hparts

/-- A shift to the left drops what leaves the words. -/
theorem slicedShl_eq (debug : Bool) (val : List UInt64) (s : Nat) :
    ∃ l, slicedShl debug val s = .ok l ∧ l.length = val.length ∧
      value l = value val * 2 ^ s % 2 ^ (64 * val.length) := by
  have hr : s % 64 < 64 := Nat.mod_lt _ (by decide)
  obtain ⟨⟨res, shiftIn⟩, hloop, ⟨done, hres, hlen, hval⟩, -⟩ :=
    Words.foldlM_range (P := fun i st => Shifted val (s / 64) (s % 64) i st)
      (fun i st hi h => h.step debug hr hi) (Shifted.start val (s / 64) (s % 64))
  dsimp only at hres hval
  rw [Nat.sub_self, List.replicate_zero, List.append_nil] at hres
  rw [List.take_length] at hval
  have hreslen : res.length = s / 64 + val.length := by
    rw [hres, List.length_append, List.length_replicate, hlen]
  have hresval : value res = (2 ^ 64) ^ (s / 64) * value done := by
    rw [hres, value_append, value_zeros, List.length_replicate, Nat.zero_add]
  have hresize : resizeVec res val.length = res.take val.length := resizeVec_of_le (by omega)
  refine ⟨res.take val.length, ?_, ?_, ?_⟩
  · unfold slicedShl
    dsimp only
    rw [hloop]
    dsimp only [bind, Except.bind]
    rw [hresize]
    rfl
  · rw [List.length_take]
    omega
  · -- The bits handed on by the last word are a multiple of the power that is cut off.
    have hsplit : value val * 2 ^ s =
        value res + 2 ^ (64 * val.length) * ((2 ^ 64) ^ (s / 64) * shiftIn.toNat) := by
      have hs : (2 : Nat) ^ s = (2 ^ 64) ^ (s / 64) * 2 ^ (s % 64) := by
        rw [← pow_mul, ← pow_add, Nat.div_add_mod]
      rw [hs, hresval, pow_mul]
      linear_combination (2 ^ 64) ^ (s / 64) * hval.symm
    rw [value_take, hsplit, Nat.add_mul_mod_self_left]

/-! ### To the right -/

/-- The mask keeps one bit more than the shift drops. -/
theorem mask_toNat :
    ∀ r < 64, (~~~((~~~1 : UInt64) <<< UInt64.ofNat r)).toNat = 2 ^ (r + 1) - 1 := by
  decide

/-- The words from `k` on are done: they are the quotient of the words that were read. -/
structure Quotient (val : List UInt64) (sw r k : Nat) (st : List UInt64 × UInt64) : Prop where
  words : ∃ done, st.1 = List.replicate k 0 ++ done ∧ k + done.length = val.length ∧
    value done = value (val.drop (k + sw)) / 2 ^ r
  carry : st.2.toNat % 2 ^ r = value (val.drop (k + sw)) % 2 ^ r

theorem Quotient.start (val : List UInt64) (sw r : Nat) :
    Quotient val sw r val.length (List.replicate val.length 0, 0) := by
  have hnone : val.drop (val.length + sw) = [] := List.drop_eq_nil_of_le (Nat.le_add_right _ _)
  refine ⟨⟨[], (List.append_nil _).symm, rfl, ?_⟩, ?_⟩
  · rw [hnone, value_nil, Nat.zero_div]
  · rw [hnone, value_nil, UInt64.toNat_zero]

/-- The bits that stay of a word, the bits that come from the word above, and the bits that leave
it, when it is shifted to the right. -/
theorem shiftRight_parts (w shiftIn : UInt64) (hr : r < 64) :
    (w >>> UInt64.ofNat r).toNat = w.toNat / 2 ^ r ∧
      (narrow (wide shiftIn <<< (64 - r))).toNat = shiftIn.toNat % 2 ^ r * 2 ^ (64 - r) ∧
      (w &&& ~~~((~~~1) <<< UInt64.ofNat r)).toNat % 2 ^ r = w.toNat % 2 ^ r := by
  refine ⟨?_, ?_, ?_⟩
  · rw [UInt64.toNat_shiftRight, UInt64.toNat_ofNat_of_lt' (hr.trans (by decide)),
      Nat.mod_eq_of_lt hr, Nat.shiftRight_eq_div_pow]
  · rw [narrow_toNat, BitVec.toNat_shiftLeft, wide_toNat, Nat.shiftLeft_eq,
      Nat.mod_mod_of_dvd _ (Nat.pow_dvd_pow 2 (by decide)), ← pow_parts hr, Nat.mul_mod_mul_right]
  · rw [UInt64.toNat_and, mask_toNat r hr, Nat.and_two_pow_sub_one_eq_mod,
      Nat.mod_mod_of_dvd _ (Nat.pow_dvd_pow 2 (Nat.le_succ r))]

/-- The quotient of a number by fewer bits than a word has, from its lowest word and the rest. -/
theorem div_parts {x V r : Nat} (hx : x < 2 ^ 64) (hr : r < 64) :
    x / 2 ^ r + V % 2 ^ r * 2 ^ (64 - r) < 2 ^ 64 ∧
      (x + 2 ^ 64 * V) / 2 ^ r =
        x / 2 ^ r + V % 2 ^ r * 2 ^ (64 - r) + 2 ^ 64 * (V / 2 ^ r) ∧
      (x + 2 ^ 64 * V) % 2 ^ r = x % 2 ^ r := by
  have hpow : 2 ^ 64 = 2 ^ r * 2 ^ (64 - r) := (pow_parts hr).symm
  have hlow : x / 2 ^ r < 2 ^ (64 - r) := by
    rw [Nat.div_lt_iff_lt_mul (Nat.two_pow_pos _), Nat.mul_comm, ← hpow]
    exact hx
  have hhigh := Nat.mod_lt V (Nat.two_pow_pos r)
  refine ⟨?_, ?_, ?_⟩
  · have h := Nat.mul_le_mul_right (2 ^ (64 - r)) hhigh
    rw [Nat.succ_mul, ← hpow] at h
    omega
  · rw [hpow, Nat.mul_assoc, Nat.add_mul_div_left _ _ (Nat.two_pow_pos r)]
    linear_combination 2 ^ (64 - r) * (Nat.mod_add_div V (2 ^ r)).symm
  · rw [hpow, Nat.mul_assoc, Nat.add_mul_mod_self_left]

theorem Quotient.step {k : Nat} {st : List UInt64 × UInt64} (debug : Bool) (hr : r < 64)
    (h : Quotient val sw r (k + 1) st) :
    ∃ t, shrStep debug val sw r st k = .ok t ∧ Quotient val sw r k t := by
  obtain ⟨res, shiftIn⟩ := st
  obtain ⟨⟨done, hres, hlen, hval⟩, hcarry⟩ := h
  dsimp only at hres hval hcarry
  rw [Nat.add_right_comm] at hval hcarry
  have hisw : (if k + sw < val.length then val.getD (k + sw) 0 else 0) = val.getD (k + sw) 0 := by
    split
    · rfl
    · rename_i hge
      rw [List.getD_eq_default _ _ (Nat.le_of_not_lt hge)]
  have hdrop : value (val.drop (k + sw)) =
      (val.getD (k + sw) 0).toNat + 2 ^ 64 * value (val.drop (k + sw + 1)) :=
    Words.value_drop_eq UInt64.toNat_zero val (k + sw)
  generalize hw : val.getD (k + sw) 0 = w at hisw hdrop
  generalize value (val.drop (k + sw + 1)) = V at hdrop hval hcarry
  obtain ⟨hstay, hcome, hleave⟩ := shiftRight_parts w shiftIn hr
  obtain ⟨hfit, hdiv, hmod⟩ := div_parts (V := V) w.toNat_lt hr
  rw [← hdrop] at hdiv hmod
  obtain ⟨sum, hsum, hsumNat⟩ := addWord_eq debug
    (x := w >>> UInt64.ofNat r) (y := narrow (wide shiftIn <<< (64 - r)))
    (by rw [hstay, hcome, hcarry]; exact hfit)
  have hat : k = (List.replicate k (0 : UInt64)).length := List.length_replicate.symm
  refine ⟨(List.replicate k 0 ++ sum :: done, w &&& ~~~((~~~1) <<< UInt64.ofNat r)), ?_,
    ⟨⟨sum :: done, rfl, ?_, ?_⟩, ?_⟩⟩
  · unfold shrStep
    dsimp only
    rw [hw, hisw, hres, List.replicate_succ', List.append_assoc, List.singleton_append,
      Words.set_middle hat, Words.getD_middle hat, hsum]
    dsimp only [bind, Except.bind]
    rw [Words.set_middle hat]
    rfl
  · rw [List.length_cons]
    omega
  · rw [value_cons, hval, hsumNat, hstay, hcome, hcarry, hdiv]
  · exact hleave.trans hmod.symm

/-- A shift to the right is a division. -/
theorem slicedShr_eq (debug : Bool) (val : List UInt64) (s : Nat) :
    ∃ l, slicedShr debug val s = .ok l ∧ l.length = val.length ∧ value l = value val / 2 ^ s := by
  have hr : s % 64 < 64 := Nat.mod_lt _ (by decide)
  obtain ⟨⟨res, shiftIn⟩, hloop, ⟨done, hres, hlen, hval⟩, -⟩ :=
    Words.foldlM_range_reverse (P := fun k st => Quotient val (s / 64) (s % 64) k st)
      (fun k st _ h => h.step debug hr) (Quotient.start val (s / 64) (s % 64))
  dsimp only at hres
  rw [List.replicate_zero, List.nil_append] at hres
  rw [Nat.zero_add] at hlen hval
  refine ⟨res, ?_, hres ▸ hlen, ?_⟩
  · unfold slicedShr
    dsimp only
    rw [hloop]
    rfl
  · rw [hres, hval, value_drop, Nat.div_div_eq_div_mul, ← pow_add, Nat.div_add_mod]

/-- **Shifts are exact in every build.**  A shift keeps the number of words; to the left it is the
product with the power of two modulo what the words span, to the right the quotient by
it, and no sum of words overflows. -/
theorem sliced_shifts_correct (debug : Bool) (val : List UInt64) (s : Nat) :
    (∃ l, slicedShl debug val s = .ok l ∧ l.length = val.length ∧
      value l = value val * 2 ^ s % 2 ^ (64 * val.length)) ∧
    (∃ l, slicedShr debug val s = .ok l ∧ l.length = val.length ∧
      value l = value val / 2 ^ s) :=
  ⟨slicedShl_eq debug val s, slicedShr_eq debug val s⟩

end Types

end Ra2m
