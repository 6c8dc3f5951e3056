/-
What a fixed width keeps of a number.

`normalize` keeps the words of the width and masks the topmost one.  The mask has one
bit more than the width, and a single bit when the width is a whole number of words, so what
is kept is the remainder by another power of two than the width's.  The two remainders
agree when the number has none of the bits in between.

The overflow status looks at the topmost word before the mask, through a shift by
eight: it says whether that word is 256 or more, and neither the words that were dropped nor
the width enter.
-/
import Ra2m.Proofs.WordShifts

namespace Ra2m

namespace Types

/-- The number of words of a width. -/
abbrev wordCount (W : Nat) : Nat := (W + 63) / 64

/-- The number of bits that the mask of a width leaves. -/
def maskedBits (W : Nat) : Nat := 64 * (wordCount W - 1) + (W % 64 + 1)

/-- The bits in which the width and its mask differ are zero. -/
def BitsAgree (W v : Nat) : Prop :=
  if W % 64 = 0 then v % 2 ^ W < 2 ^ (W - 63) else v.testBit W = false

/-- The topmost word tells that bits are lost when they are: with nothing but zeros above it, it
is on the same side of 256 and of the bits it has in the width; otherwise it is 256 or
more. -/
def FlagAgrees (W : Nat) (vec : List UInt64) : Prop :=
  let msw := (vec.getD (wordCount W - 1) 0).toNat
  let room := 2 ^ (W - 64 * (wordCount W - 1))
  if value (vec.drop (wordCount W)) = 0 then msw < min 256 room ∨ max 256 room ≤ msw
  else 256 ≤ msw

instance (W v : Nat) : Decidable (BitsAgree W v) := by
  unfold BitsAgree
  infer_instance

instance (W : Nat) (vec : List UInt64) : Decidable (FlagAgrees W vec) := by
  unfold FlagAgrees
  infer_instance

variable {W : Nat} {vec : List UInt64}

/-! ### The mask -/

/-- The remainder that the mask leaves is the width's when the bits between are zero. -/
theorem masked_eq_iff (hW : 1 ≤ W) (v : Nat) :
    v % 2 ^ maskedBits W = v % 2 ^ W ↔ BitsAgree W v := by
  unfold BitsAgree maskedBits
  split
  · rename_i hr
    have hbits : 64 * (wordCount W - 1) + (W % 64 + 1) = W - 63 := by
      show 64 * ((W + 63) / 64 - 1) + (W % 64 + 1) = W - 63
      omega
    have hmod : v % 2 ^ W % 2 ^ (W - 63) = v % 2 ^ (W - 63) :=
      Nat.mod_mod_of_dvd v (Nat.pow_dvd_pow 2 (Nat.sub_le W 63))
    rw [hbits]
    constructor
    · intro h
      rw [← h]
      exact Nat.mod_lt _ (Nat.two_pow_pos _)
    · intro h
      rw [← hmod, Nat.mod_eq_of_lt h]
  · rename_i hr
    have hbits : 64 * (wordCount W - 1) + (W % 64 + 1) = W + 1 := by
      show 64 * ((W + 63) / 64 - 1) + (W % 64 + 1) = W + 1
      omega
    rw [hbits, Nat.mod_pow_succ, Nat.testBit_eq_decide_div_mod_eq, decide_eq_false_iff_not]
    have hpos := Nat.two_pow_pos W
    have hbit := Nat.mod_lt (v / 2 ^ W) Nat.two_pos
    constructor
    · intro h hone
      rw [hone] at h
      omega
    · intro h
      have hzero : v / 2 ^ W % 2 = 0 := by omega
      rw [hzero, Nat.mul_zero, Nat.add_zero]

/-- The topmost word of a number and the words above it, on top of the words below. -/
theorem value_at (k : Nat) (vec : List UInt64) :
    value vec = value (vec.take k) +
        2 ^ (64 * k) * ((vec.getD k 0).toNat + 2 ^ 64 * value (vec.drop (k + 1))) ∧
      value (vec.take k) < 2 ^ (64 * k) := by
  have hword : value (vec.drop k) = (vec.getD k 0).toNat + 2 ^ 64 * value (vec.drop (k + 1)) :=
    Words.value_drop_eq UInt64.toNat_zero vec k
  rw [← hword]
  refine ⟨value_cut vec k, ?_⟩
  rw [value_take]
  exact Nat.mod_lt _ (Nat.two_pow_pos _)

/-- What a width keeps of a vector that has its words. -/
theorem normalize_parts (debug : Bool) (hW : 1 ≤ W) (hlen : wordCount W ≤ vec.length) :
    ∃ flag x, UInt.normalize (W := W) debug ⟨vec⟩ = .ok (flag, x) ∧
      x.words.length = wordCount W ∧ value x.words = value vec % 2 ^ maskedBits W ∧
      (flag = true ↔ 256 ≤ (vec.getD (wordCount W - 1) 0).toNat) := by
  obtain ⟨k, hk⟩ : ∃ k, wordCount W = k + 1 := by
    refine ⟨wordCount W - 1, ?_⟩
    show (W + 63) / 64 = (W + 63) / 64 - 1 + 1
    omega
  have hcount : (W + 63) / 64 = k + 1 := hk
  have hbits : maskedBits W = 64 * k + (W % 64 + 1) := by
    unfold maskedBits
    rw [hk, Nat.add_sub_cancel]
  have hr : W % 64 < 64 := Nat.mod_lt _ (by decide)
  rw [hk] at hlen
  rw [hk, Nat.add_sub_cancel]
  generalize hm : vec.getD k 0 = m
  have hfirst : (vec.take k).length = k := by
    rw [List.length_take]
    omega
  have htake : vec.take (k + 1) = vec.take k ++ [m] := by
    rw [List.take_add_one, List.getElem?_eq_getElem hlen, ← hm, List.getD_eq_getElem _ _ hlen]
    rfl
  have hresize : resizeVec vec (k + 1) = vec.take k ++ [m] := (resizeVec_of_le hlen).trans htake
  refine ⟨decide ((0 : UInt64) < m >>> 8),
    ⟨vec.take k ++ [m &&& ~~~((~~~1) <<< UInt64.ofNat (W % 64))]⟩, ?_, ?_, ?_, ?_⟩
  · unfold UInt.normalize
    dsimp only
    rw [hcount, if_neg (Nat.not_lt_of_le hlen), if_neg (Nat.succ_ne_zero k), hresize,
      Nat.add_sub_cancel, Words.getD_middle hfirst.symm, Words.set_middle hfirst.symm]
  · rw [List.length_append, hfirst, List.length_singleton]
  · obtain ⟨hval, hlow⟩ := value_at k vec
    have hdvd : 2 ^ (W % 64 + 1) ∣ 2 ^ 64 := Nat.pow_dvd_pow 2 hr
    have hmask : (m.toNat + 2 ^ 64 * value (vec.drop (k + 1))) % 2 ^ (W % 64 + 1) =
        m.toNat % 2 ^ (W % 64 + 1) := by
      rw [Nat.add_mod, Nat.mod_eq_zero_of_dvd (hdvd.mul_right _), Nat.add_zero, Nat.mod_mod]
    rw [hm] at hval
    rw [value_append, value_cons, value_nil, Nat.mul_zero, Nat.add_zero, hfirst, UInt64.toNat_and,
      mask_toNat _ hr, Nat.and_two_pow_sub_one_eq_mod, hbits, pow_add 2 (64 * k), Nat.mod_mul, hval,
      Nat.add_mul_mod_self_left, Nat.mod_eq_of_lt hlow,
      Nat.add_mul_div_left _ _ (Nat.two_pow_pos _), Nat.div_eq_of_lt hlow, Nat.zero_add, hmask,
      pow_mul]
  · rw [decide_eq_true_iff, UInt64.lt_iff_toNat_lt, UInt64.toNat_shiftRight]
    show 0 < m.toNat >>> 8 ↔ _
    rw [Nat.shiftRight_eq_div_pow, Nat.div_pos_iff]
    exact and_iff_right (by decide)

/-- The status is right about a vector when its topmost word tells. -/
theorem flag_iff (hW : 1 ≤ W) (vec : List UInt64) :
    (256 ≤ (vec.getD (wordCount W - 1) 0).toNat ↔ value vec % 2 ^ W ≠ value vec) ↔
      FlagAgrees W vec := by
  have hcount : wordCount W - 1 + 1 = wordCount W := by
    show (W + 63) / 64 - 1 + 1 = (W + 63) / 64
    omega
  have hwidth : W = 64 * (wordCount W - 1) + (W - 64 * (wordCount W - 1)) := by
    show W = 64 * ((W + 63) / 64 - 1) + (W - 64 * ((W + 63) / 64 - 1))
    omega
  have hroom : 2 ^ (W - 64 * (wordCount W - 1)) ≤ 2 ^ 64 := by
    refine Nat.pow_le_pow_right Nat.two_pos ?_
    show W - 64 * ((W + 63) / 64 - 1) ≤ 64
    omega
  obtain ⟨hval, hlow⟩ := value_at (wordCount W - 1) vec
  rw [hcount] at hval
  -- Bits are lost when the words from the topmost one on do not fit in the width's bits there.
  have hlost : value vec % 2 ^ W ≠ value vec ↔ 2 ^ (W - 64 * (wordCount W - 1)) ≤
      (vec.getD (wordCount W - 1) 0).toNat + 2 ^ 64 * value (vec.drop (wordCount W)) := by
    have hpow : 2 ^ W =
        2 ^ (W - 64 * (wordCount W - 1)) * 2 ^ (64 * (wordCount W - 1)) := by
      rw [← pow_add, Nat.add_comm, ← hwidth]
    rw [ne_eq, Nat.mod_eq_iff_lt (Nat.two_pow_pos W).ne', Nat.not_lt, hpow,
      ← Nat.le_div_iff_mul_le (Nat.two_pow_pos _), hval,
      Nat.add_mul_div_left _ _ (Nat.two_pow_pos _), Nat.div_eq_of_lt hlow, Nat.zero_add]
  unfold FlagAgrees
  dsimp only
  rw [hlost]
  generalize 2 ^ (W - 64 * (wordCount W - 1)) = room at hroom
  generalize (vec.getD (wordCount W - 1) 0).toNat = msw
  split
  · rename_i hzero
    rw [hzero, Nat.mul_zero, Nat.add_zero]
    omega
  · rename_i hpos
    have hle := Nat.le_mul_of_pos_right (2 ^ 64) (Nat.pos_of_ne_zero hpos)
    exact iff_true_right (hroom.trans (hle.trans (Nat.le_add_left _ _)))

/-! ### Release builds -/

theorem maskedBits_le (hW : 1 ≤ W) : maskedBits W ≤ 64 * wordCount W := by
  unfold maskedBits
  show 64 * ((W + 63) / 64 - 1) + (W % 64 + 1) ≤ 64 * ((W + 63) / 64)
  omega

theorem fromVec_release {flag : Bool} {x : UInt W}
    (h : UInt.normalize (W := W) false ⟨vec⟩ = .ok (flag, x)) : UInt.fromVec false vec = .ok x := by
  unfold UInt.fromVec
  rw [h]
  rfl

/-- A number given up to the words of the width, and what is kept of it. -/
theorem fromVec_exact_iff (hW : 1 ≤ W) (hlen : wordCount W ≤ vec.length) {v : Nat}
    (hval : value vec = v % 2 ^ (64 * wordCount W)) :
    ∃ z : UInt W, UInt.fromVec false vec = .ok z ∧ z.words.length = wordCount W ∧
      (value z.words = v % 2 ^ W ↔ BitsAgree W v) := by
  obtain ⟨flag, z, hnorm, hz, hzval, -⟩ := normalize_parts false hW hlen
  refine ⟨z, fromVec_release hnorm, hz, ?_⟩
  rw [hzval, hval, Nat.mod_mod_of_dvd _ (Nat.pow_dvd_pow 2 (maskedBits_le hW)), masked_eq_iff hW]

/-- A number that the words of the width hold is kept by a larger width when it has room in
the mask. -/
theorem resize_exact_iff {T : Nat} (hW : 1 ≤ W) (hWT : W ≤ T) (x : UInt W)
    (hx : x.words.length = wordCount W) :
    ∃ z : UInt T, x.resize false T = .ok z ∧ (value z.words = value x.words ↔
      wordCount W < wordCount T ∨ value x.words < 2 ^ maskedBits T) := by
  rcases Nat.lt_or_ge (wordCount W) (wordCount T) with hlt | hge
  · -- The vector is shorter than the width asks for and is not touched.
    refine ⟨⟨x.words⟩, ?_, iff_of_true rfl (Or.inl hlt)⟩
    have hshort : x.words.length < (T + 63) / 64 := hx ▸ hlt
    unfold UInt.resize UInt.fromVec UInt.normalize
    dsimp only
    rw [if_pos hshort]
    rfl
  · have hwords : wordCount T ≤ x.words.length := hx ▸ hge
    obtain ⟨flag, z, hnorm, -, hzval, -⟩ := normalize_parts (W := T) false (hW.trans hWT) hwords
    refine ⟨z, fromVec_release hnorm, ?_⟩
    rw [hzval, Nat.mod_eq_iff_lt (Nat.two_pow_pos _).ne', or_iff_right (Nat.not_lt_of_le hge)]

/-- **A width keeps what its mask keeps.**  A vector with the words of the width gets them and
no more; the number is reduced by the width exactly when the bits in which width and
mask differ are zero, and so are the results of sums and shifts; the status is right
exactly when the topmost word tells. -/
theorem uint_exact_iff (W : Nat) (hW : 1 ≤ W) :
    (∀ vec : List UInt64, wordCount W ≤ vec.length → ∃ flag, ∃ x : UInt W,
      UInt.normalize false ⟨vec⟩ = .ok (flag, x) ∧ UInt.fromVec false vec = .ok x ∧
      x.words.length = wordCount W ∧
      (value x.words = value vec % 2 ^ W ↔ BitsAgree W (value vec)) ∧
      ((flag = true ↔ value vec % 2 ^ W ≠ value vec) ↔ FlagAgrees W vec)) ∧
    (∀ (T : Nat) (x : UInt W), W ≤ T → x.words.length = wordCount W → ∃ z : UInt T,
      x.resize false T = .ok z ∧ (value z.words = value x.words ↔
        wordCount W < wordCount T ∨ value x.words < 2 ^ maskedBits T)) ∧
    (∀ (V : Nat) (x : UInt W) (y : UInt V), x.words.length = wordCount W →
      y.words.length = wordCount V → ∃ z, UInt.add false x y = .ok z ∧
        z.words.length = wordCount (max W V) ∧
        (value z.words = (value x.words + value y.words) % 2 ^ max W V ↔
          BitsAgree (max W V) (value x.words + value y.words))) ∧
    (∀ (x : UInt W) (s : Nat), x.words.length = wordCount W →
      (∃ z, UInt.shl false x s = .ok z ∧ z.words.length = wordCount W ∧
        (value z.words = value x.words * 2 ^ s % 2 ^ W ↔ BitsAgree W (value x.words * 2 ^ s))) ∧
      ∃ z, UInt.shr false x s = .ok z ∧ z.words.length = wordCount W ∧
        (value z.words = value x.words / 2 ^ s % 2 ^ W ↔
          BitsAgree W (value x.words / 2 ^ s))) := by
  refine ⟨?_, ?_, ?_, ?_⟩
  · intro vec hlen
    obtain ⟨flag, x, hnorm, hx, hval, hflag⟩ := normalize_parts false hW hlen
    refine ⟨flag, x, hnorm, fromVec_release hnorm, hx, ?_, ?_⟩
    · rw [hval, masked_eq_iff hW]
    · rw [hflag, flag_iff hW]
  · intro T x hWT hx
    exact resize_exact_iff hW hWT x hx
  · intro V x y hx hy
    obtain ⟨sum, hsum, hlen, hval, -⟩ := slicedAdd_correct x.words y.words
    have hcount : max x.words.length y.words.length = wordCount (max W V) := by
      rw [hx, hy]
      show max ((W + 63) / 64) ((V + 63) / 64) = (max W V + 63) / 64
      omega
    rw [hcount] at hlen hval
    obtain ⟨z, hz, hzlen, hiff⟩ :=
      fromVec_exact_iff (W := max W V) (hW.trans (Nat.le_max_left W V)) hlen.ge hval
    refine ⟨z, ?_, hzlen, hiff⟩
    unfold UInt.add
    rw [hsum]
    exact hz
  · intro x s hx
    obtain ⟨l, hl, hllen, hlval⟩ := slicedShl_eq false x.words s
    obtain ⟨r, hr, hrlen, hrval⟩ := slicedShr_eq false x.words s
    rw [hx] at hllen hlval hrlen
    constructor
    · obtain ⟨z, hz, hzlen, hiff⟩ := fromVec_exact_iff hW hllen.ge hlval
      refine ⟨z, ?_, hzlen, hiff⟩
      unfold UInt.shl
      rw [hl]
      exact hz
    · have hlt := value_lt r
      rw [hrlen] at hlt
      have hrval' : value r = value x.words / 2 ^ s % 2 ^ (64 * wordCount W) := by
        rw [← hrval, Nat.mod_eq_of_lt hlt]
      obtain ⟨z, hz, hzlen, hiff⟩ := fromVec_exact_iff hW hrlen.ge hrval'
      refine ⟨z, ?_, hzlen, hiff⟩
      unfold UInt.shr
      rw [hr]
      exact hz

/-- A width of one word keeps a single bit: the number two becomes zero, and nothing is
reported.  A width of 120 keeps a bit beyond it. -/
theorem fromVec_one_word :
    (UInt.normalize false ⟨[2]⟩ : Exec (Bool × UInt 64)) = .ok (false, ⟨[0]⟩) ∧
      (UInt.fromVec false [2] : Exec (UInt 64)) = .ok ⟨[0]⟩ ∧
      (UInt.fromVec false [0, 0x100000000000000] : Exec (UInt 120)) =
        .ok ⟨[0, 0x100000000000000]⟩ ∧
      ¬ (∃ x : UInt 64, UInt.fromVec false [2] = .ok x ∧
        value x.words = value [2] % 2 ^ 64) := by
  have hrun : (UInt.fromVec false [2] : Exec (UInt 64)) = .ok ⟨[0]⟩ := by decide
  refine ⟨by decide, hrun, by decide, ?_⟩
  rintro ⟨x, hok, hval⟩
  obtain rfl := Except.ok.inj (hrun.symm.trans hok)
  exact absurd hval (by decide)

/-- The sum of one and two at a width of 120 bits. -/
theorem add_one_two :
    ∃ z : UInt (max 120 120), UInt.add false ⟨[1, 0]⟩ ⟨[2, 0]⟩ = .ok z ∧
      z.words.length = wordCount (max 120 120) ∧
      (value z.words = (value [1, 0] + value [2, 0]) % 2 ^ max 120 120 ↔
        BitsAgree (max 120 120) (value [1, 0] + value [2, 0])) :=
  (uint_exact_iff 120 (by decide)).2.2.1 120 ⟨[1, 0]⟩ ⟨[2, 0]⟩ rfl rfl

end Types

end Ra2m
