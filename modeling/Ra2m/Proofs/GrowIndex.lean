/-
What an index of a vector that only grows hands out.

The index is compared with the counter of the pushes, and the comparison lets the
counter itself through.  When the pool has a slot there it is the first one that was
not written, and the reader gets it as if it were a value.  A full pool hides the
mistake: the slot behind the last value does not exist, and the access to the pool
panics in place of the comparison.
-/
import Ra2m.Proofs.GrowOnly

namespace Ra2m

namespace Containers

namespace GrowOnlyVec

variable {T : Type} {v : GrowOnlyVec T} {l : List T} {i : Nat}

/-! ### The pool after any pushes -/

/-- The values `l` stand at the front of the pool, and nothing was written behind them.  The
counter is the number of pushes, the ones that were refused included. -/
structure Pooled (v : GrowOnlyVec T) (l : List T) : Prop where
  count : l.length = min v.used v.capacity
  slots : v.pool = l.map some ++ List.replicate (v.capacity - l.length) none

theorem Pooled.new (capacity : Nat) : Pooled (new capacity : GrowOnlyVec T) [] :=
  ⟨(Nat.zero_min capacity).symm, rfl⟩

/-- A push puts its value behind the others or, when the pool is full, only counts. -/
theorem Pooled.push (h : Pooled v l) (x : T) :
    (v.used < v.capacity ∧ (v.innerMutPush x).1 = .ok v.used ∧
        Pooled (v.innerMutPush x).2 (l ++ [x])) ∨
      (v.capacity ≤ v.used ∧ (v.innerMutPush x).1 = .error (.sizeExceeded v.capacity) ∧
        Pooled (v.innerMutPush x).2 l) := by
  have hcount := h.count
  rcases Nat.lt_or_ge v.used v.capacity with hroom | hfull
  · refine Or.inl ⟨hroom, ?_, ?_, ?_⟩
    · unfold innerMutPush
      rw [if_neg (Nat.not_le_of_lt hroom)]
    · rw [innerMutPush_used, innerMutPush_capacity, List.length_append, List.length_singleton]
      omega
    · rw [innerMutPush_capacity]
      unfold innerMutPush
      rw [if_neg (Nat.not_le_of_lt hroom)]
      have hused : v.used = (l.map some).length := by
        rw [List.length_map]
        omega
      have hfree : v.capacity - l.length = v.capacity - (l ++ [x]).length + 1 := by
        rw [List.length_append, List.length_singleton]
        omega
      show v.pool.set v.used (some x) = _
      rw [h.slots, hused, hfree, List.replicate_succ, List.set_append_right _ _ (Nat.le_refl _),
        Nat.sub_self, List.set_cons_zero, List.map_append, List.append_assoc]
      rfl
  · refine Or.inr ⟨hfull, ?_, ?_, ?_⟩
    · unfold innerMutPush
      rw [if_pos hfull]
    · rw [innerMutPush_used, innerMutPush_capacity]
      omega
    · rw [innerMutPush_capacity]
      unfold innerMutPush
      rw [if_pos hfull]
      exact h.slots

/-- The values in the pool are the ones whose push succeeded. -/
theorem Pooled.pushAll (h : Pooled v l) (values : List T) :
    Pooled (v.pushAll values) (l ++ v.pushed values) := by
  induction values generalizing v l with
  | nil =>
      unfold pushed
      rwa [List.append_nil]
  | cons x rest ih =>
      show Pooled ((v.innerMutPush x).2.pushAll rest) _
      unfold pushed
      obtain ⟨-, hok, hpush⟩ | ⟨-, herr, hpush⟩ := h.push x
      · rw [show v.innerMutPush x = (.ok v.used, (v.innerMutPush x).2) from Prod.ext hok rfl]
        have hrest := ih hpush
        rwa [List.append_assoc, List.singleton_append] at hrest
      · rw [show v.innerMutPush x = (.error (.sizeExceeded v.capacity), (v.innerMutPush x).2) from
          Prod.ext herr rfl]
        exact ih hpush

theorem pooled_pushAll (capacity : Nat) (values : List T) :
    Pooled ((new capacity).pushAll values) ((new capacity).pushed values) := by
  have h := (Pooled.new (T := T) capacity).pushAll values
  rwa [List.nil_append] at h

/-! ### One access -/

/-- An access is to a value, to the first free slot, or to no slot at all. -/
theorem Pooled.slot (h : Pooled v l) (i : Nat) :
    v.pool[i]? = if i < l.length then (l.map some)[i]? else
      if i < v.capacity then some none else none := by
  have hle : l.length ≤ v.capacity := by
    have := h.count
    omega
  rw [h.slots, List.getElem?_append, List.length_map]
  split
  · rfl
  · rw [List.getElem?_replicate]
    congr 1
    exact propext ⟨by omega, by omega⟩

/-- The counter itself passes the comparison: nothing below it panics. -/
theorem index_of_slot {slot : Option T} (hle : i ≤ v.len) (hslot : v.pool[i]? = some slot) :
    v.index i = .ok slot ∧ ∃ write, v.indexMut i = .ok (slot, write) := by
  unfold index indexMut
  rw [if_neg (Nat.not_lt_of_le hle), if_neg (Nat.not_lt_of_le hle)]
  split
  · rename_i found hfound
    obtain rfl := Option.some.inj (hfound.symm.trans hslot)
    exact ⟨rfl, _, rfl⟩
  · rename_i hnone
    cases hnone.symm.trans hslot

theorem index_of_no_slot (h : v.len < i ∨ v.pool[i]? = none) :
    (∃ p, v.index i = .error p) ∧ ∃ p, v.indexMut i = .error p := by
  unfold index indexMut
  by_cases hlt : v.len < i
  · rw [if_pos hlt, if_pos hlt]
    exact ⟨⟨_, rfl⟩, _, rfl⟩
  · rw [if_neg hlt, if_neg hlt, h.resolve_left hlt]
    exact ⟨⟨_, rfl⟩, _, rfl⟩

end GrowOnlyVec

open GrowOnlyVec

/-! ### What is asked of an index -/

/-- After the pushes, the index hands out the value that the `i`-th successful push wrote, and
panics when there was none. -/
structure IndexSafe {T : Type} (capacity : Nat) (values : List T) (i : Nat) : Prop where
  /-- Whatever is read is the value of a push. -/
  read : ∀ slot, ((new capacity).pushAll values).index i = .ok slot →
    i < ((new capacity).pushed values).length ∧ slot = ((new capacity).pushed values)[i]?
  /-- Whatever is lent for writing holds the value of a push. -/
  write : ∀ slot write, ((new capacity).pushAll values).indexMut i = .ok (slot, write) →
    i < ((new capacity).pushed values).length ∧ slot = ((new capacity).pushed values)[i]?
  /-- A value that was pushed is handed out, for reading and for writing. -/
  serves : ∀ value, ((new capacity).pushed values)[i]? = some value →
    ((new capacity).pushAll values).index i = .ok (some value) ∧
      ∃ write, ((new capacity).pushAll values).indexMut i = .ok (some value, write)
  /-- Every other index panics. -/
  panics : ((new capacity).pushed values).length ≤ i →
    (∃ p, ((new capacity).pushAll values).index i = .error p) ∧
      ∃ p, ((new capacity).pushAll values).indexMut i = .error p

/-- **An index is safe unless it is the number of the pushes and the pool has a free slot
there**, which is then read although nothing was written to it. -/
theorem indexSafe_iff {T : Type} (capacity : Nat) (values : List T) (i : Nat) :
    IndexSafe capacity values i ↔ (i ≠ values.length ∨ capacity ≤ values.length) := by
  have hpool := pooled_pushAll capacity values
  have hused : ((new capacity).pushAll values).len = values.length :=
    (pushAll_used (new capacity) values).trans (Nat.zero_add values.length)
  have hcap : ((new capacity).pushAll values).capacity = capacity :=
    pushAll_capacity (new capacity) values
  have hcount : ((new capacity).pushed values).length = min values.length capacity := by
    rw [hpool.count, hcap]
    exact congrArg (min · capacity) hused
  have hslot := hpool.slot i
  rw [hcap] at hslot
  constructor
  · intro h
    by_contra hcon
    obtain ⟨rfl, hfree⟩ := not_or.mp hcon |>.imp not_not.mp Nat.lt_of_not_le
    rw [if_neg (by omega), if_pos hfree] at hslot
    have hread := (index_of_slot (le_of_eq hused.symm) hslot).1
    have := (h.read none hread).1
    omega
  · intro hcond
    rcases Nat.lt_or_ge i ((new capacity).pushed values).length with hlt | hge
    · -- A value was pushed there.
      rw [if_pos hlt, List.getElem?_map, List.getElem?_eq_getElem hlt, Option.map_some] at hslot
      obtain ⟨hread, w, hwrite⟩ := index_of_slot (by omega) hslot
      have hvalue := List.getElem?_eq_getElem hlt
      refine ⟨?_, ?_, ?_, ?_⟩
      · intro slot hok
        exact ⟨hlt, (Except.ok.inj (hread.symm.trans hok)).symm.trans hvalue.symm⟩
      · intro slot write hok
        exact ⟨hlt, (congrArg Prod.fst (Except.ok.inj (hwrite.symm.trans hok))).symm.trans
          hvalue.symm⟩
      · intro value hv
        obtain rfl := Option.some.inj (hvalue.symm.trans hv)
        exact ⟨hread, w, hwrite⟩
      · intro hle
        omega
    · have hnone : ((new capacity).pushAll values).len < i ∨
          ((new capacity).pushAll values).pool[i]? = none := by
        rw [hused, hslot, if_neg (Nat.not_lt_of_le hge)]
        by_cases hi : i < capacity
        · exact Or.inl (by omega)
        · exact Or.inr (if_neg hi)
      obtain ⟨⟨p, hread⟩, q, hwrite⟩ := index_of_no_slot hnone
      refine ⟨?_, ?_, ?_, ?_⟩
      · intro slot hok
        cases hread.symm.trans hok
      · intro slot write hok
        cases hwrite.symm.trans hok
      · intro value hv
        have := (List.getElem?_eq_some_iff.mp hv).1
        omega
      · intro _
        exact ⟨⟨p, hread⟩, q, hwrite⟩

/-- A pool of two slots and one push: the index behind the value is let through, and the slot
it names was never written. -/
theorem index_at_len_uninit :
    ((new 2).pushAll [7]).index 1 = .ok none ∧ (new 2).pushed [7] = [7] ∧
      ¬ IndexSafe 2 [7] 1 := by
  refine ⟨rfl, rfl, ?_⟩
  intro h
  exact absurd (h.read none rfl).1 (by decide)

end Containers

end Ra2m
