/-
Taking text apart at separators and blanks.

`List.splitOn` cuts at every separator: what stands in front of the first one and the
pieces of the rest, or the whole list when there is none (`splitOn_cases`).  `splitOnce`
cuts at the first one only, `unbrace` takes off what encloses a list, and `trim` what is
blank on both sides.  For each there is one lemma that says which lists it takes apart and
into what.
-/
import Mathlib.Data.List.Basic
import Mathlib.Data.List.TakeWhile
import Mathlib.Tactic.Common

namespace Splitting

variable {α : Type*} [DecidableEq α] {a b : α} {l x y : List α}

/-! ### At every separator -/

/-- A list without the separator is one piece; otherwise the first piece ends at the first. -/
theorem splitOn_cases (a : α) (l : List α) :
    (a ∉ l ∧ l.splitOn a = [l]) ∨
      ∃ x rest, l = x ++ a :: rest ∧ a ∉ x ∧ l.splitOn a = x :: rest.splitOn a := by
  by_cases h : a ∈ l
  · obtain ⟨x, rest, rfl, hx⟩ := List.eq_append_cons_of_mem h
    exact Or.inr ⟨x, rest, rfl, hx, List.splitOn_append_cons_self_of_not_mem hx rest⟩
  · exact Or.inl ⟨h, List.splitOn_eq_singleton h⟩

/-- Two pieces are what stands in front of the only separator and behind it. -/
theorem splitOn_eq_pair_iff : l.splitOn a = [x, y] ↔ l = x ++ a :: y ∧ a ∉ x ∧ a ∉ y := by
  constructor
  · intro h
    obtain ⟨-, hone⟩ | ⟨z, rest, hl, hz, hmore⟩ := splitOn_cases a l
    · cases hone.symm.trans h
    · obtain ⟨rfl, htail⟩ := List.cons.inj (hmore.symm.trans h)
      obtain ⟨hrest, hone⟩ | ⟨w, rest', -, -, hmore'⟩ := splitOn_cases a rest
      · obtain ⟨rfl, -⟩ := List.cons.inj (hone.symm.trans htail)
        exact ⟨hl, hz, hrest⟩
      · obtain ⟨-, hnil⟩ := List.cons.inj (hmore'.symm.trans htail)
        exact absurd hnil (List.splitOn_ne_nil a rest')
  · rintro ⟨rfl, hx, hy⟩
    rw [List.splitOn_append_cons_self_of_not_mem hx, List.splitOn_eq_singleton hy]

/-- There is one piece more than separators. -/
theorem length_splitOn (a : α) (l : List α) : (l.splitOn a).length = l.count a + 1 := by
  induction l with
  | nil => rfl
  | cons c l ih =>
      rw [List.splitOn_cons_eq_if_modifyHead, List.count_cons]
      split
      · rw [List.length_cons, ih]
      · rw [List.length_modifyHead, ih, Nat.add_zero]

theorem splitOn_pair_of_count (h : l.count a = 1) : ∃ x y, l.splitOn a = [x, y] := by
  have hlen := length_splitOn a l
  rw [h] at hlen
  obtain ⟨x, y, hxy⟩ := List.length_eq_two.mp hlen
  exact ⟨x, y, hxy⟩

/-- The pieces determine the list. -/
theorem splitOn_injective (h : x.splitOn a = y.splitOn a) : x = y := by
  have hx : List.intercalate [a] (x.splitOn a) = x := List.intercalate_splitOn a
  rw [h, List.intercalate_splitOn] at hx
  exact hx.symm

theorem splitOn_replicate (a : α) (n : Nat) :
    (List.replicate n a).splitOn a = List.replicate (n + 1) [] := by
  induction n with
  | zero => rfl
  | succ n ih =>
      have hcut := List.splitOn_append_cons_self_of_not_mem (a := a) List.not_mem_nil
        (List.replicate n a)
      rw [List.nil_append, ih] at hcut
      exact hcut

/-! ### At the first separator -/

/-- What stands in front of the first separator and behind it. -/
def splitOnce (a : α) : List α → Option (List α × List α)
  | [] => none
  | c :: l => if c = a then some ([], l) else (splitOnce a l).map fun (x, y) => (c :: x, y)

theorem splitOnce_eq_some_iff : splitOnce a l = some (x, y) ↔ l = x ++ a :: y ∧ a ∉ x := by
  induction l generalizing x with
  | nil =>
      refine iff_of_false (fun h => by cases h) ?_
      rintro ⟨h, -⟩
      exact List.append_ne_nil_of_right_ne_nil x (List.cons_ne_nil a y) h.symm
  | cons c l ih =>
      unfold splitOnce
      split
      · rename_i hc
        subst hc
        constructor
        · intro h
          obtain ⟨rfl, rfl⟩ := Prod.mk.inj (Option.some.inj h)
          exact ⟨rfl, List.not_mem_nil⟩
        · rintro ⟨h, hx⟩
          cases x with
          | nil => rw [(List.cons.inj h).2]
          | cons d x => exact absurd ((List.cons.inj h).1 ▸ List.mem_cons_self) hx
      · rename_i hc
        rw [Option.map_eq_some_iff]
        constructor
        · rintro ⟨⟨x', y'⟩, hrec, h⟩
          obtain ⟨rfl, rfl⟩ := Prod.mk.inj h
          obtain ⟨rfl, hx⟩ := ih.mp hrec
          exact ⟨rfl, fun hmem => (List.mem_cons.mp hmem).elim (fun h => hc h.symm) hx⟩
        · rintro ⟨h, hx⟩
          cases x with
          | nil => exact absurd (List.cons.inj h).1 hc
          | cons d x =>
              obtain ⟨rfl, hl⟩ := List.cons.inj h
              exact ⟨(x, y), ih.mpr ⟨hl, fun hmem => hx (List.mem_cons_of_mem _ hmem)⟩, rfl⟩

/-- There is one way to cut a list at its first separator. -/
theorem cut_unique {x' y' : List α} (h : x ++ a :: y = x' ++ a :: y') (hx : a ∉ x) (hx' : a ∉ x') :
    x = x' ∧ y = y' := by
  have hcut : splitOnce a (x ++ a :: y) = some (x, y) := splitOnce_eq_some_iff.mpr ⟨rfl, hx⟩
  have hcut' : splitOnce a (x ++ a :: y) = some (x', y') := splitOnce_eq_some_iff.mpr ⟨h, hx'⟩
  exact Prod.mk.inj (Option.some.inj (hcut.symm.trans hcut'))

/-! ### Between braces -/

/-- `strip_prefix` of a single element. -/
def stripPrefix (a : α) : List α → Option (List α)
  | [] => none
  | c :: l => if c = a then some l else none

/-- `strip_suffix` of a single element. -/
def stripSuffix (b : α) (l : List α) : Option (List α) := (stripPrefix b l.reverse).map List.reverse

theorem stripPrefix_eq_some_iff : stripPrefix a l = some x ↔ l = a :: x := by
  cases l with
  | nil => exact iff_of_false (fun h => by cases h) (fun h => by cases h)
  | cons c l =>
      show (if c = a then some l else none) = some x ↔ _
      split
      · rename_i hc
        rw [Option.some_inj, hc, List.cons.injEq, and_iff_right rfl]
      · rename_i hc
        exact iff_of_false (fun h => by cases h) (fun h => hc (List.cons.inj h).1)

theorem stripSuffix_eq_some_iff : stripSuffix b l = some x ↔ l = x ++ [b] := by
  unfold stripSuffix
  rw [Option.map_eq_some_iff]
  constructor
  · rintro ⟨y, hy, rfl⟩
    rw [← List.reverse_reverse l, stripPrefix_eq_some_iff.mp hy, List.reverse_cons]
  · rintro rfl
    refine ⟨x.reverse, stripPrefix_eq_some_iff.mpr ?_, List.reverse_reverse x⟩
    rw [List.reverse_append, List.reverse_singleton, List.singleton_append]

/-! ### Between blanks -/

/-- The list without what is blank at both ends. -/
def trim (blank : α → Bool) (l : List α) : List α :=
  ((l.dropWhile blank).reverse.dropWhile blank).reverse

variable {blank : α → Bool}

omit [DecidableEq α] in
theorem dropWhile_append_of_blank (hx : ∀ c ∈ x, blank c = true) :
    (x ++ y).dropWhile blank = y.dropWhile blank := by
  rw [List.dropWhile_append_of_pos hx]

omit [DecidableEq α] in
theorem dropWhile_append_of_solid (hne : x ≠ []) (hx : ∀ c ∈ x, blank c = false) :
    (x ++ y).dropWhile blank = x ++ y := by
  obtain ⟨c, x, rfl⟩ := List.exists_cons_of_ne_nil hne
  rw [List.cons_append, List.dropWhile_cons_of_neg (by rw [hx c List.mem_cons_self]; decide)]

omit [DecidableEq α] in
/-- What is left of a list is solid text exactly when there are only blanks around it. -/
theorem trim_eq_iff (hne : x ≠ []) (hx : ∀ c ∈ x, blank c = false) :
    trim blank l = x ↔ ∃ front back, l = front ++ x ++ back ∧ (∀ c ∈ front, blank c = true) ∧
      ∀ c ∈ back, blank c = true := by
  constructor
  · intro h
    have hrev : (l.dropWhile blank).reverse.dropWhile blank = x.reverse := by
      rw [← h]
      exact (List.reverse_reverse _).symm
    refine ⟨l.takeWhile blank, ((l.dropWhile blank).reverse.takeWhile blank).reverse, ?_,
      fun c hc => List.mem_takeWhile_imp hc,
      fun c hc => List.mem_takeWhile_imp (List.mem_reverse.mp hc)⟩
    have hcut := List.takeWhile_append_dropWhile (p := blank) (l := (l.dropWhile blank).reverse)
    rw [hrev] at hcut
    have hdrop := congrArg List.reverse hcut
    rw [List.reverse_append, List.reverse_reverse, List.reverse_reverse] at hdrop
    rw [List.append_assoc, hdrop, List.takeWhile_append_dropWhile]
  · rintro ⟨front, back, rfl, hfront, hback⟩
    unfold trim
    have hback' : ∀ c ∈ back.reverse, blank c = true := fun c hc => hback c (List.mem_reverse.mp hc)
    have hx' : ∀ c ∈ x.reverse, blank c = false := fun c hc => hx c (List.mem_reverse.mp hc)
    have hne' : x.reverse ≠ [] := fun h => hne (List.reverse_eq_nil_iff.mp h)
    rw [List.append_assoc, dropWhile_append_of_blank hfront, dropWhile_append_of_solid hne hx,
      List.reverse_append, dropWhile_append_of_blank hback']
    have hsolid := dropWhile_append_of_solid (y := []) hne' hx'
    rw [List.append_nil] at hsolid
    rw [hsolid, List.reverse_reverse]

end Splitting
