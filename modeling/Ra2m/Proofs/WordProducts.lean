/-
Multiplication of word lists.

The partial product of two words is added to one word of the result and written over
the next.  So a row, the products of one word of `a`, starts by adding to the word that
the row before left at its place and then overwrites the words behind it; what the row
before had put there is gone, and a sum that does not fit in its word wraps or panics.

`rows` is what the loops leave, read row by row.  Its number and what was lost add up to
the product, and nothing is lost exactly when no sum overflows and every word that is
overwritten is zero.  For the operands this says that two neighbouring partial products of a row
meet in a word without a carry, and that a row before the last has two words at
most, the second of which meets the next row without a carry.
-/
import Mathlib.Data.List.Chain
import Ra2m.Proofs.WordSums

namespace Ra2m

namespace Types

variable {x c y : UInt64} {a b ys rest s : List UInt64} {debug : Bool}

/-! ### Partial products -/

/-- The word of a partial product that is added. -/
def low (x y : UInt64) : UInt64 := (split (wide x * wide y)).2

/-- The word of a partial product that is written. -/
def high (x y : UInt64) : UInt64 := (split (wide x * wide y)).1

theorem low_high (x y : UInt64) :
    (low x y).toNat = x.toNat * y.toNat % 2 ^ 64 ∧
      (high x y).toNat = x.toNat * y.toNat / 2 ^ 64 := by
  have hprod : (wide x * wide y).toNat = x.toNat * y.toNat := by
    rw [BitVec.toNat_mul, wide_toNat, wide_toNat]
    refine Nat.mod_eq_of_lt ?_
    calc x.toNat * y.toNat < 2 ^ 64 * 2 ^ 64 := Nat.mul_lt_mul'' x.toNat_lt y.toNat_lt
      _ = 2 ^ 128 := by rw [← pow_add]
  obtain ⟨hhi, hlo⟩ := split_toNat (wide x * wide y)
  rw [hprod] at hhi hlo
  exact ⟨hlo, hhi⟩

theorem addWord_outcome (debug : Bool) (x y : UInt64) :
    addWord debug x y = .ok (x + y) ∨
      2 ^ 64 ≤ x.toNat + y.toNat ∧ ∃ e, addWord debug x y = .error e := by
  unfold addWord
  split
  · rename_i h
    exact Or.inr ⟨h.2, _, rfl⟩
  · exact Or.inl rfl

/-! ### One row -/

/-- The words of a row that starts on the word `c`. -/
def rowWords (x c : UInt64) : List UInt64 → List UInt64
  | [] => [c]
  | y :: ys => (c + low x y) :: rowWords x (high x y) ys

/-- No sum of the row overflows. -/
def RowFits (x c : UInt64) : List UInt64 → Prop
  | [] => True
  | y :: ys => c.toNat + (low x y).toNat < 2 ^ 64 ∧ RowFits x (high x y) ys

theorem rowWords_length (x c : UInt64) (b : List UInt64) :
    (rowWords x c b).length = b.length + 1 := by
  induction b generalizing c with
  | nil => rfl
  | cons y ys ih => exact congrArg Nat.succ (ih (high x y))

/-- The row and the carries it loses add up to the word it starts on and the product. -/
theorem rowWords_value (x c : UInt64) (b : List UInt64) :
    ∃ lost, value (rowWords x c b) + lost = c.toNat + x.toNat * value b ∧
      (lost = 0 ↔ RowFits x c b) := by
  induction b generalizing c with
  | nil => exact ⟨0, by simp [rowWords, value_cons, value_nil], by simp [RowFits]⟩
  | cons y ys ih =>
      obtain ⟨lost, htotal, hiff⟩ := ih (high x y)
      obtain ⟨hlo, hhi⟩ := low_high x y
      have hprod := Nat.mod_add_div (x.toNat * y.toNat) (2 ^ 64)
      have hword := Nat.mod_add_div (c.toNat + (low x y).toNat) (2 ^ 64)
      have hcarry : (c.toNat + (low x y).toNat) / 2 ^ 64 = 0 ↔
          c.toNat + (low x y).toNat < 2 ^ 64 := Nat.div_eq_zero_iff_lt (Nat.two_pow_pos 64)
      rw [← hlo, ← hhi] at hprod
      refine ⟨2 ^ 64 * ((c.toNat + (low x y).toNat) / 2 ^ 64 + lost), ?_, ?_⟩
      · unfold rowWords
        rw [value_cons, value_cons, UInt64.toNat_add]
        linear_combination hword + 2 ^ 64 * htotal + hprod
      · unfold RowFits
        rw [Nat.mul_eq_zero, or_iff_right (Nat.two_pow_pos 64).ne', Nat.add_eq_zero_iff, hcarry,
          hiff]

/-- A partial product goes to the word at its place and over the next. -/
theorem mulStep_eq (debug : Bool) (x c y r : UInt64) (p rest : List UInt64) {i j : Nat}
    (hat : i + j = p.length) :
    mulStep debug x i (p ++ c :: r :: rest) (y, j) =
      (addWord debug c (low x y)).map fun sum => p ++ [sum] ++ high x y :: rest := by
  unfold mulStep
  dsimp only
  rw [Words.getD_middle hat]
  change (do
    let sum ← addWord debug c (low x y)
    let res := (p ++ c :: r :: rest).set (i + j) sum
    return res.set (i + j + 1) (high x y)) = _
  cases addWord debug c (low x y) with
  | error e => rfl
  | ok sum =>
      dsimp only [bind, Except.bind, Except.map]
      rw [Words.set_middle hat, Words.set_next hat, List.append_assoc, List.singleton_append]
      rfl

/-- The inner loop leaves the row in place of the words from its start on, or panics at an
overflow. -/
theorem mulRow_outcome (debug : Bool) (x c : UInt64) (b p rest : List UInt64) (i j : Nat)
    (hat : i + j = p.length) (hroom : b.length ≤ rest.length) :
    (b.zipIdx j).foldlM (mulStep debug x i) (p ++ c :: rest) =
        .ok (p ++ (rowWords x c b ++ rest.drop b.length)) ∨
      ¬ RowFits x c b ∧
        ∃ e, (b.zipIdx j).foldlM (mulStep debug x i) (p ++ c :: rest) = .error e := by
  induction b generalizing c p rest j with
  | nil => exact Or.inl rfl
  | cons y ys ih =>
      cases rest with
      | nil => exact absurd hroom (Nat.not_succ_le_zero _)
      | cons r rest =>
          rw [List.zipIdx_cons, List.foldlM_cons, mulStep_eq debug x c y r p rest hat]
          rcases addWord_outcome debug c (low x y) with hsum | ⟨hover, e, herr⟩
          · have hnext : i + (j + 1) = (p ++ [c + low x y]).length := by
              rw [List.length_append, List.length_singleton]
              omega
            rw [hsum]
            dsimp only [bind, Except.bind, Except.map]
            rcases ih (high x y) (p ++ [c + low x y]) rest (j + 1) hnext
              (Nat.le_of_succ_le_succ hroom) with hok | ⟨hfit, e, herr⟩
            · left
              rw [hok, List.append_assoc]
              rfl
            · exact Or.inr ⟨fun h => hfit h.2, e, herr⟩
          · rw [herr]
            exact Or.inr ⟨fun h => absurd h.1 (Nat.not_lt_of_le hover), e, rfl⟩

/-! ### All rows

A word of the second operand is singled out: the word a row starts on gets its first partial
product and is then done.
-/

/-- What the rows leave, from the word at which the first of them starts. -/
def rows (y : UInt64) (ys : List UInt64) : List UInt64 → List UInt64 → List UInt64
  | x :: xs, c :: rest =>
      (c + low x y) :: rows y ys xs (rowWords x (high x y) ys ++ rest.drop (ys.length + 1))
  | _, s => s

/-- No sum overflows, and what a row writes over is zero. -/
def Kept (y : UInt64) (ys : List UInt64) : List UInt64 → List UInt64 → Prop
  | x :: xs, c :: rest =>
      RowFits x c (y :: ys) ∧ value (rest.take (ys.length + 1)) = 0 ∧
        Kept y ys xs (rowWords x (high x y) ys ++ rest.drop (ys.length + 1))
  | _, _ => True

theorem next_length {xs : List UInt64}
    (hlen : rest.length = xs.length + (ys.length + 1)) :
    (rowWords x c ys ++ rest.drop (ys.length + 1)).length = xs.length + (ys.length + 1) := by
  rw [List.length_append, rowWords_length, List.length_drop]
  omega

theorem rows_length (y : UInt64) (ys a s : List UInt64)
    (hlen : s.length = a.length + (ys.length + 1)) : (rows y ys a s).length = s.length := by
  induction a generalizing s with
  | nil => rfl
  | cons x xs ih =>
      cases s with
      | nil => rfl
      | cons c rest =>
          rw [List.length_cons, List.length_cons] at hlen
          have hnext : (rowWords x (high x y) ys ++ rest.drop (ys.length + 1)).length =
              xs.length + (ys.length + 1) := next_length (by omega)
          unfold rows
          rw [List.length_cons, List.length_cons, ih _ hnext, hnext]
          omega

/-- The rows and what they lose add up to the words they start from and the product. -/
theorem rows_value (y : UInt64) (ys a s : List UInt64)
    (hlen : s.length = a.length + (ys.length + 1)) :
    ∃ lost, value (rows y ys a s) + lost = value s + value a * value (y :: ys) ∧
      (lost = 0 ↔ Kept y ys a s) := by
  induction a generalizing s with
  | nil => exact ⟨0, by simp [rows, value_nil], by simp [Kept]⟩
  | cons x xs ih =>
      cases s with
      | nil =>
          rw [List.length_nil, List.length_cons] at hlen
          omega
      | cons c rest =>
          rw [List.length_cons, List.length_cons] at hlen
          obtain ⟨lost, htotal, hiff⟩ := ih (rowWords x (high x y) ys ++ rest.drop (ys.length + 1))
            (next_length (by omega))
          obtain ⟨row, hrow, hfits⟩ := rowWords_value x c (y :: ys)
          have hcut := value_cut rest (ys.length + 1)
          rw [pow_mul] at hcut
          refine ⟨row + 2 ^ 64 * (value (rest.take (ys.length + 1)) + lost), ?_, ?_⟩
          · unfold rows
            unfold rowWords at hrow
            rw [value_append, rowWords_length] at htotal
            rw [value_cons] at hrow
            rw [value_cons, value_cons c rest, value_cons x xs]
            linear_combination 2 ^ 64 * htotal + hrow + 2 ^ 64 * hcut.symm
          · unfold Kept
            rw [Nat.add_eq_zero_iff, Nat.mul_eq_zero, or_iff_right (Nat.two_pow_pos 64).ne',
              Nat.add_eq_zero_iff, hfits, hiff]

/-- The outer loop leaves the rows, or panics at an overflow. -/
theorem rows_outcome (debug : Bool) (y : UInt64) (ys a p s : List UInt64)
    (hlen : s.length = a.length + (ys.length + 1)) :
    (a.zipIdx p.length).foldlM (mulRow debug (y :: ys)) (p ++ s) = .ok (p ++ rows y ys a s) ∨
      ¬ Kept y ys a s ∧
        ∃ e, (a.zipIdx p.length).foldlM (mulRow debug (y :: ys)) (p ++ s) = .error e := by
  induction a generalizing p s with
  | nil => exact Or.inl rfl
  | cons x xs ih =>
      cases s with
      | nil =>
          rw [List.length_nil, List.length_cons] at hlen
          omega
      | cons c rest =>
          rw [List.length_cons, List.length_cons] at hlen
          rw [List.zipIdx_cons, List.foldlM_cons]
          rcases mulRow_outcome debug x c (y :: ys) p rest p.length 0 rfl
            (by rw [List.length_cons]; omega) with hok | ⟨hfit, e, herr⟩
          · have hnext : (rowWords x (high x y) ys ++ rest.drop (ys.length + 1)).length =
                xs.length + (ys.length + 1) := next_length (by omega)
            have hrow : mulRow debug (y :: ys) (p ++ c :: rest) (x, p.length) =
                .ok ((p ++ [c + low x y]) ++
                  (rowWords x (high x y) ys ++ rest.drop (ys.length + 1))) := by
              refine hok.trans ?_
              rw [List.append_assoc]
              rfl
            have hplace : p.length + 1 = (p ++ [c + low x y]).length := by
              rw [List.length_append, List.length_singleton]
            rw [hrow]
            dsimp only [bind, Except.bind]
            rw [hplace]
            rcases ih (p ++ [c + low x y]) _ hnext with hok | ⟨hkept, e, herr⟩
            · left
              rw [hok, List.append_assoc]
              rfl
            · exact Or.inr ⟨fun h => hkept h.2.2, e, herr⟩
          · have hrow : mulRow debug (y :: ys) (p ++ c :: rest) (x, p.length) = .error e := herr
            rw [hrow]
            exact Or.inr ⟨fun h => hfit h.1, e, rfl⟩

/-! ### What is lost, in terms of the operands -/

/-- The high half of a partial product and the low half of the next fit in a word. -/
def RowMeets (x : UInt64) (b : List UInt64) : Prop :=
  b.IsChain fun y z => x.toNat * y.toNat / 2 ^ 64 + x.toNat * z.toNat % 2 ^ 64 < 2 ^ 64

/-- In every row, neighbouring partial products meet in a word.  A row before the last has at most
two words, and the second fits in a word with the low half of the next row's first product. -/
def NothingLost (a b : List UInt64) : Prop :=
  (∀ x ∈ a, RowMeets x b) ∧
    a.IsChain fun x x' => x.toNat * value b < 2 ^ 128 ∧
      x.toNat * value b / 2 ^ 64 + x'.toNat * (b.headD 0).toNat % 2 ^ 64 < 2 ^ 64

instance (x : UInt64) (b : List UInt64) : Decidable (RowMeets x b) :=
  inferInstanceAs (Decidable (List.IsChain _ b))

instance (a b : List UInt64) : Decidable (NothingLost a b) :=
  @instDecidableAnd _ _ (List.decidableBAll _ a) inferInstance

theorem rowFits_high (x y : UInt64) (ys : List UInt64) :
    RowFits x (high x y) ys ↔ RowMeets x (y :: ys) := by
  unfold RowMeets
  induction ys generalizing y with
  | nil => exact iff_of_true trivial (List.isChain_singleton y)
  | cons z zs ih =>
      unfold RowFits
      rw [(low_high x y).2, (low_high x z).1, List.isChain_cons_cons, ih z]

theorem rowFits_iff (x c y : UInt64) (ys : List UInt64) :
    RowFits x c (y :: ys) ↔
      c.toNat + x.toNat * y.toNat % 2 ^ 64 < 2 ^ 64 ∧ RowMeets x (y :: ys) := by
  unfold RowFits
  rw [(low_high x y).1, rowFits_high]

/-- A row that fits is exact: behind its first word stands the quotient of its product. -/
theorem rowWords_tail (h : RowFits x c (y :: ys)) :
    value (rowWords x (high x y) ys) = x.toNat * value (y :: ys) / 2 ^ 64 := by
  obtain ⟨lost, htotal, hiff⟩ := rowWords_value x c (y :: ys)
  have hlo := (low_high x y).1
  rw [hiff.mpr h, Nat.add_zero] at htotal
  unfold rowWords at htotal
  rw [value_cons, UInt64.toNat_add, Nat.mod_eq_of_lt h.1, hlo] at htotal
  have hlow : x.toNat * value (y :: ys) % 2 ^ 64 = x.toNat * y.toNat % 2 ^ 64 := by
    rw [value_cons, Nat.mul_add, Nat.mul_left_comm, Nat.add_mul_mod_self_left]
  omega

theorem nothingLost_singleton (x : UInt64) (b : List UInt64) :
    NothingLost [x] b ↔ RowMeets x b := by
  unfold NothingLost
  rw [List.forall_mem_singleton, and_iff_left (List.isChain_singleton x)]

theorem nothingLost_cons (x x' y : UInt64) (xs ys : List UInt64) :
    NothingLost (x :: x' :: xs) (y :: ys) ↔
      RowMeets x (y :: ys) ∧ (x.toNat * value (y :: ys) < 2 ^ 128 ∧
        x.toNat * value (y :: ys) / 2 ^ 64 + x'.toNat * y.toNat % 2 ^ 64 < 2 ^ 64) ∧
        NothingLost (x' :: xs) (y :: ys) := by
  unfold NothingLost
  rw [List.forall_mem_cons, List.isChain_cons_cons, List.headD_cons]
  constructor
  · rintro ⟨⟨hx, hrows⟩, hmeet, hchain⟩
    exact ⟨hx, hmeet, hrows, hchain⟩
  · rintro ⟨hx, hmeet, hrows, hchain⟩
    exact ⟨⟨hx, hrows⟩, hmeet, hchain⟩

theorem value_eq_zero_iff (l : List UInt64) : value l = 0 ↔ ∀ w ∈ l, w.toNat = 0 :=
  Words.value_eq_zero_iff (Nat.two_pow_pos 64)

/-- What the rows lose is decided by the operands, when they start behind a single word. -/
theorem kept_iff (x c y : UInt64) (ys xs rest : List UInt64) (hzero : value rest = 0) :
    Kept y ys (x :: xs) (c :: rest) ↔
      c.toNat + x.toNat * y.toNat % 2 ^ 64 < 2 ^ 64 ∧ NothingLost (x :: xs) (y :: ys) := by
  have hrest := (value_eq_zero_iff rest).mp hzero
  have htake : value (rest.take (ys.length + 1)) = 0 :=
    (value_eq_zero_iff _).mpr fun w hw => hrest w (List.mem_of_mem_take hw)
  induction xs generalizing x c rest with
  | nil =>
      unfold Kept Kept
      rw [rowFits_iff, nothingLost_singleton]
      exact ⟨fun h => h.1, fun h => ⟨h, htake, trivial⟩⟩
  | cons x' xs ih =>
      unfold Kept
      rw [nothingLost_cons]
      refine Iff.trans (and_congr_right fun hfits => ?_)
        ((and_congr_left' (rowFits_iff x c y ys)).trans and_assoc)
      have htail := rowWords_tail hfits
      have hlen := rowWords_length x (high x y) ys
      cases hrow : rowWords x (high x y) ys with
      | nil =>
          rw [hrow] at hlen
          cases hlen
      | cons c' ws =>
          rw [hrow, List.length_cons] at hlen
          rw [hrow, value_cons] at htail
          have hc' := c'.toNat_lt
          rw [and_iff_right htake, List.cons_append]
          by_cases hws : value ws = 0
          · -- The row has two words, and the next one starts on the second.
            have hnext : value (ws ++ rest.drop (ys.length + 1)) = 0 := by
              refine (value_eq_zero_iff _).mpr fun w hw => ?_
              rcases List.mem_append.mp hw with hw | hw
              · exact (value_eq_zero_iff ws).mp hws w hw
              · exact hrest w (List.mem_of_mem_drop hw)
            have hmembers := (value_eq_zero_iff _).mp hnext
            refine (ih x' c' _ hnext hmembers
              ((value_eq_zero_iff _).mpr fun w hw => hmembers w (List.mem_of_mem_take hw))).trans ?_
            rw [hws, Nat.mul_zero, Nat.add_zero] at htail
            rw [htail]
            refine and_congr_left fun _ => (and_iff_right_of_imp fun _ => ?_).symm
            omega
          · -- A third word of the row is written over.
            refine iff_of_false ?_ ?_
            · unfold Kept
              rintro ⟨-, hlost, -⟩
              refine hws ((value_eq_zero_iff ws).mpr fun w hw => ?_)
              refine (value_eq_zero_iff _).mp hlost w ?_
              rw [List.take_append, List.take_of_length_le (by omega)]
              exact List.mem_append_left _ hw
            · rintro ⟨⟨hlt, -⟩, -⟩
              have hpos := Nat.pos_of_ne_zero hws
              omega

/-- The double loop over non-empty operands. -/
theorem mulLoop_outcome (debug : Bool) (ha : a ≠ []) (hb : b ≠ []) :
    ∃ res lost, res.length = a.length + b.length ∧ value res + lost = value a * value b ∧
      (lost = 0 ↔ NothingLost a b) ∧
      (a.zipIdx.foldlM (mulRow debug b) (List.replicate (a.length + b.length) 0) = .ok res ∨
        ¬ NothingLost a b ∧ ∃ e,
          a.zipIdx.foldlM (mulRow debug b) (List.replicate (a.length + b.length) 0) =
            .error e) := by
  obtain ⟨x, xs, rfl⟩ := List.exists_cons_of_ne_nil ha
  obtain ⟨y, ys, rfl⟩ := List.exists_cons_of_ne_nil hb
  have hzeros : List.replicate ((x :: xs).length + (y :: ys).length) (0 : UInt64) =
      0 :: List.replicate (xs.length + (ys.length + 1)) 0 := by
    rw [List.length_cons, List.length_cons, Nat.succ_add, List.replicate_succ]
  have hkept : Kept y ys (x :: xs) (List.replicate ((x :: xs).length + (y :: ys).length) 0) ↔
      NothingLost (x :: xs) (y :: ys) := by
    rw [hzeros, kept_iff x 0 y ys xs _ (value_zeros _), UInt64.toNat_zero, Nat.zero_add]
    exact and_iff_right (Nat.mod_lt _ (Nat.two_pow_pos 64))
  have hlen : (List.replicate ((x :: xs).length + (y :: ys).length) (0 : UInt64)).length =
      (x :: xs).length + (ys.length + 1) := List.length_replicate
  obtain ⟨lost, htotal, hlost⟩ := rows_value y ys (x :: xs) _ hlen
  have hloop := rows_outcome debug y ys (x :: xs) [] _ hlen
  rw [value_zeros, Nat.zero_add] at htotal
  rw [hkept] at hlost hloop
  exact ⟨_, lost, (rows_length y ys (x :: xs) _ hlen).trans hlen, htotal, hlost, hloop⟩

/-- **Multiplication is right when nothing is lost.**  Operands whose product fits in the words of
the longer one are multiplied without a panic, and to their product, exactly when no
carry and no overwritten word is dropped. -/
theorem slicedMul_correct_iff (debug : Bool) (a b : List UInt64) (ha : a ≠ []) (hb : b ≠ [])
    (hfit : value a * value b < 2 ^ (64 * max a.length b.length)) :
    (∃ l, slicedMul debug a b = .ok l ∧ l.length = max a.length b.length ∧
        value l = value a * value b) ↔ NothingLost a b := by
  obtain ⟨res, lost, hlen, htotal, hlost, hloop⟩ := mulLoop_outcome debug ha hb
  have hle : max a.length b.length ≤ res.length := by omega
  have hresize := resizeVec_of_le hle
  have hcut := value_cut res (max a.length b.length)
  unfold slicedMul
  dsimp only
  constructor
  · rintro ⟨l, hok, -, hval⟩
    rcases hloop with hres | ⟨-, e, herr⟩
    · rw [hres] at hok
      dsimp only [bind, Except.bind] at hok
      split at hok
      · cases hok
      · obtain rfl := Except.ok.inj hok
        -- The words that are kept are the product, so nothing is left to be lost.
        rw [hresize] at hval
        exact hlost.mp (by omega)
    · rw [herr] at hok
      cases hok
  · intro hnothing
    have hzero := hlost.mpr hnothing
    rcases hloop with hres | ⟨hcon, -⟩
    · have hdrop : value (res.drop (max a.length b.length)) = 0 := by
        by_contra hpos
        have h := Nat.le_mul_of_pos_right (2 ^ (64 * max a.length b.length))
          (Nat.pos_of_ne_zero hpos)
        omega
      refine ⟨res.take (max a.length b.length), ?_, ?_, ?_⟩
      · rw [hres]
        dsimp only [bind, Except.bind]
        rw [if_neg, hresize]
        · rfl
        · rintro ⟨-, i, hi, hne⟩
          obtain ⟨j, -, rfl⟩ := List.mem_range'.mp hi
          refine hne (UInt64.toNat.inj ?_)
          by_cases hin : max a.length b.length + 1 * j < res.length
          · refine (value_eq_zero_iff _).mp hdrop _ ?_
            have hword : (res.drop (max a.length b.length))[1 * j]? =
                some (res[max a.length b.length + 1 * j]) := by
              rw [List.getElem?_drop, List.getElem?_eq_getElem hin]
            rw [List.getD_eq_getElem _ _ hin]
            exact List.mem_of_getElem? hword
          · rw [List.getD_eq_default _ _ (Nat.le_of_not_lt hin)]
      · rw [List.length_take, Nat.min_eq_left hle]
      · rw [hdrop, Nat.mul_zero, Nat.add_zero] at hcut
        rw [← hcut]
        omega
    · exact absurd hnothing hcon

/-- The third word of the first row is written over by the second row.  The product is the sum
of two powers of the base; the result, in every build, is one of them. -/
theorem slicedMul_drops :
    slicedMul true [0x8000000000000000, 0] [2, 2, 0] = .ok [0, 1, 0] ∧
      value [0x8000000000000000, 0] * value [2, 2, 0] = 2 ^ 64 + 2 ^ 128 ∧
      ¬ (∃ l, slicedMul true [0x8000000000000000, 0] [2, 2, 0] = .ok l ∧ l.length = 3 ∧
        value l = value [0x8000000000000000, 0] * value [2, 2, 0]) := by
  have hrun : slicedMul true [0x8000000000000000, 0] [2, 2, 0] = .ok [0, 1, 0] := by decide
  have hproduct : value [0x8000000000000000, 0] * value [2, 2, 0] = 2 ^ 64 + 2 ^ 128 := by decide
  refine ⟨hrun, hproduct, ?_⟩
  rintro ⟨l, hok, -, hval⟩
  obtain rfl := Except.ok.inj (hrun.symm.trans hok)
  rw [hproduct] at hval
  exact absurd hval (by decide)

/-- Two words and one word that lose nothing. -/
theorem slicedMul_two_words :
    ∃ l, slicedMul true [0x8000000000000000, 1] [3] = .ok l ∧
      l.length = max [0x8000000000000000, 1].length [3].length ∧
      value l = value [0x8000000000000000, 1] * value [3] :=
  (slicedMul_correct_iff true [0x8000000000000000, 1] [3] (by decide) (by decide)
    (by decide)).mpr (by decide)

end Types

end Ra2m
