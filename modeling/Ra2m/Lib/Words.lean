/-
Numbers written as lists of words.

A list of words is read in a base, the least significant word first; a word is
whatever `f` gives a number below the base for.  Cutting the list is dividing by a
power of the base and taking the remainder, and a word read at an index is a digit of
the number.

A loop that fills such a list keeps a relation between what it has written and the
words it has read.  The loop rules below carry the relation over the indices, upwards
and downwards, for steps that may fail.
-/
import Mathlib.Data.Nat.Digits.Defs
import Mathlib.Data.List.GetD

namespace Words

variable {α : Type*} {B : Nat} {f : α → Nat} {l m : List α}

/-- The number that a list of words stands for. -/
def value (B : Nat) (f : α → Nat) (l : List α) : Nat := Nat.ofDigits B (l.map f)

@[simp] theorem value_nil : value B f [] = 0 := rfl

@[simp] theorem value_cons (x : α) : value B f (x :: l) = f x + B * value B f l :=
  Nat.ofDigits_cons

theorem value_append : value B f (l ++ m) = value B f l + B ^ l.length * value B f m := by
  unfold value
  rw [List.map_append, Nat.ofDigits_append, List.length_map]

theorem value_replicate {z : α} (hz : f z = 0) (n : Nat) :
    value B f (List.replicate n z) = 0 := by
  unfold value
  rw [List.map_replicate, hz, Nat.ofDigits_replicate_zero]

theorem value_lt (hB : 1 < B) (h : ∀ x, f x < B) (l : List α) : value B f l < B ^ l.length := by
  have hlen : (l.map f).length = l.length := List.length_map f
  unfold value
  rw [← hlen]
  refine Nat.ofDigits_lt_base_pow_length hB ?_
  intro x hx
  obtain ⟨y, -, rfl⟩ := List.mem_map.mp hx
  exact h y

/-- The first words are the remainder by a power of the base. -/
theorem value_take (hB : 0 < B) (h : ∀ x, f x < B) (l : List α) (i : Nat) :
    value B f (l.take i) = value B f l % B ^ i := by
  unfold value
  rw [List.map_take, Nat.ofDigits_mod_pow_eq_ofDigits_take i hB]
  intro x hx
  obtain ⟨y, -, rfl⟩ := List.mem_map.mp hx
  exact h y

/-- The words behind them are the quotient. -/
theorem value_drop (hB : 0 < B) (h : ∀ x, f x < B) (l : List α) (i : Nat) :
    value B f (l.drop i) = value B f l / B ^ i := by
  unfold value
  rw [List.map_drop, Nat.ofDigits_div_pow_eq_ofDigits_drop i hB]
  intro x hx
  obtain ⟨y, -, rfl⟩ := List.mem_map.mp hx
  exact h y

/-- One more word.  Behind the end of the list the word is `z`, which stands for zero. -/
theorem value_take_succ {z : α} (hz : f z = 0) (l : List α) (i : Nat) :
    value B f (l.take (i + 1)) = value B f (l.take i) + B ^ i * f (l.getD i z) := by
  rcases Nat.lt_or_ge i l.length with hi | hi
  · rw [List.take_add_one, List.getElem?_eq_getElem hi, value_append, List.length_take,
      Nat.min_eq_left (Nat.le_of_lt hi), List.getD_eq_getElem _ _ hi]
    simp
  · rw [List.take_of_length_le hi, List.take_of_length_le (Nat.le_succ_of_le hi),
      List.getD_eq_default _ _ hi, hz, Nat.mul_zero, Nat.add_zero]

/-- The word at an index and the words behind it. -/
theorem value_drop_eq {z : α} (hz : f z = 0) (l : List α) (i : Nat) :
    value B f (l.drop i) = f (l.getD i z) + B * value B f (l.drop (i + 1)) := by
  rcases Nat.lt_or_ge i l.length with hi | hi
  · rw [List.drop_eq_getElem_cons hi, value_cons, List.getD_eq_getElem _ _ hi]
  · rw [List.drop_eq_nil_of_le hi, List.drop_eq_nil_of_le (Nat.le_succ_of_le hi),
      List.getD_eq_default _ _ hi, hz, value_nil]
    rfl

/-- Only zero words stand for zero. -/
theorem value_eq_zero_iff (hB : 0 < B) : value B f l = 0 ↔ ∀ x ∈ l, f x = 0 := by
  induction l with
  | nil => simp
  | cons x l ih =>
      rw [value_cons, Nat.add_eq_zero_iff, Nat.mul_eq_zero, ih, List.forall_mem_cons]
      exact and_congr_right fun _ => or_iff_right (Nat.ne_of_gt hB)

/-! ### The word behind the ones that are done -/

theorem getD_middle {p s : List α} {x z : α} {k : Nat} (hk : k = p.length) :
    (p ++ x :: s).getD k z = x := by
  rw [hk, List.getD_append_right _ _ _ _ (Nat.le_refl _), Nat.sub_self, List.getD_cons_zero]

theorem set_middle {p s : List α} {x y : α} {k : Nat} (hk : k = p.length) :
    (p ++ x :: s).set k y = p ++ y :: s := by
  rw [hk, List.set_append_right _ _ (Nat.le_refl _), Nat.sub_self, List.set_cons_zero]

theorem set_next {p s : List α} {x x' y : α} {k : Nat} (hk : k = p.length) :
    (p ++ x :: x' :: s).set (k + 1) y = p ++ x :: y :: s := by
  rw [hk, List.set_append_right _ _ (Nat.le_succ _), Nat.succ_sub (Nat.le_refl _), Nat.sub_self,
    List.set_cons_succ, List.set_cons_zero]

/-! ### Loops over indices -/

variable {σ ε : Type*}

/-- What every round of an upward loop carries over holds at its end. -/
theorem foldl_range {step : σ → Nat → σ} {P : Nat → σ → Prop} {n : Nat} {s : σ}
    (hstep : ∀ k s, k < n → P k s → P (k + 1) (step s k)) (h : P 0 s) :
    P n ((List.range n).foldl step s) := by
  induction n with
  | zero => exact h
  | succ n ih =>
      rw [List.range_succ, List.foldl_append]
      exact hstep n _ (Nat.lt_succ_self n)
        (ih fun k s hk hP => hstep k s (Nat.lt_succ_of_lt hk) hP)

/-- The same for a loop whose rounds may fail, when none does. -/
theorem foldlM_range {step : σ → Nat → Except ε σ} {P : Nat → σ → Prop} {n : Nat} {s : σ}
    (hstep : ∀ k s, k < n → P k s → ∃ t, step s k = .ok t ∧ P (k + 1) t) (h : P 0 s) :
    ∃ t, (List.range n).foldlM step s = .ok t ∧ P n t := by
  induction n with
  | zero => exact ⟨s, rfl, h⟩
  | succ n ih =>
      obtain ⟨t, ht, hP⟩ := ih fun k s hk hP => hstep k s (Nat.lt_succ_of_lt hk) hP
      obtain ⟨u, hu, hPu⟩ := hstep n t (Nat.lt_succ_self n) hP
      refine ⟨u, ?_, hPu⟩
      rw [List.range_succ, List.foldlM_append, ht]
      show (List.foldlM step t [n]) = _
      rw [List.foldlM_cons, hu]
      rfl

/-- A downward loop. -/
theorem foldlM_range_reverse {step : σ → Nat → Except ε σ} {P : Nat → σ → Prop} {n : Nat} {s : σ}
    (hstep : ∀ k s, k < n → P (k + 1) s → ∃ t, step s k = .ok t ∧ P k t) (h : P n s) :
    ∃ t, (List.range n).reverse.foldlM step s = .ok t ∧ P 0 t := by
  induction n generalizing s with
  | zero => exact ⟨s, rfl, h⟩
  | succ n ih =>
      obtain ⟨u, hu, hPu⟩ := hstep n s (Nat.lt_succ_self n) h
      obtain ⟨t, ht, hP⟩ := ih (fun k s hk hP => hstep k s (Nat.lt_succ_of_lt hk) hP) hPu
      refine ⟨t, ?_, hP⟩
      rw [List.range_succ, List.reverse_append, List.reverse_singleton, List.singleton_append,
        List.foldlM_cons, hu]
      exact ht

end Words
