/-
A preallocated store is a vector.

The abstraction is the slice.  In the array each operation changes the slots up to the
length and the length itself in a way that is the operation on the slice, whatever the
slots behind it hold; where the array is left, the vector starts as the slice.  So the
results are those of a plain vector over every sequence of operations, whatever its
point of overflow.
-/
import Ra2m.Containers.PreAllocatedStore

namespace Ra2m

namespace Containers

variable {T : Type} {n : Nat}

/-! ### The array -/

namespace StaticStore

theorem slice_length (self : StaticStore T n) : self.slice.length = self.len := by
  unfold slice
  rw [List.length_take, self.array_length]
  exact Nat.min_eq_left self.len_le

/-- A full array is its slice. -/
theorem array_of_full (self : StaticStore T n) (h : ¬ self.len < n) : self.array = self.slice := by
  unfold slice
  rw [List.take_of_length_le]
  rw [self.array_length]
  exact Nat.not_lt.mp h

theorem slice_write (self : StaticStore T n) (value : T) (h : self.len < n) :
    (self.write value h).slice = self.slice ++ [value] := by
  have hlt : self.len < self.array.length := by
    rw [self.array_length]
    exact h
  show (self.array.set self.len value).take (self.len + 1) = self.array.take self.len ++ [value]
  rw [List.take_add_one, List.getElem?_set_self hlt, List.take_set_of_le (Nat.le_refl _)]
  rfl

theorem slice_writeAll (self : StaticStore T n) (other : List T)
    (h : self.len + other.length ≤ n) : (self.writeAll other h).slice = self.slice ++ other := by
  induction other generalizing self with
  | nil => exact (List.append_nil _).symm
  | cons value rest ih =>
      unfold writeAll
      rw [ih, slice_write, List.append_assoc]
      rfl

theorem slice_drop (self : StaticStore T n) : self.drop.slice = self.slice.dropLast := by
  show self.array.take (self.len - 1) = self.slice.dropLast
  rw [List.dropLast_eq_take, slice_length, slice, List.take_take,
    Nat.min_eq_left (Nat.sub_le _ _)]

/-- The last slot in use holds the last element of the slice. -/
theorem slice_getLast? (self : StaticStore T n) (h : self.len ≠ 0) :
    self.slice.getLast? = self.array[self.len - 1]? := by
  rw [List.getLast?_eq_getElem?, slice_length]
  exact List.getElem?_take_of_lt (by omega)

theorem slice_update (self : StaticStore T n) (f : SliceUpdate T) :
    (self.update f).slice = f.1 self.slice := by
  have hlen : (f.1 self.slice).length = self.len := by rw [f.2, slice_length]
  show (f.1 self.slice ++ self.array.drop self.len).take self.len = f.1 self.slice
  rw [← hlen]
  exact List.take_left

end StaticStore

/-! ### The store -/

namespace PreAllocatedStore

theorem asSlice_empty [Inhabited T] : (empty : PreAllocatedStore T n).asSlice = [] := rfl

theorem asSlice_length (self : PreAllocatedStore T n) : self.len = self.asSlice.length := by
  cases self with
  | static store => exact store.slice_length.symm
  | dynamic vec => rfl

theorem intoVec_eq (self : PreAllocatedStore T n) : self.intoVec = self.asSlice := by
  cases self with
  | static store => rfl
  | dynamic vec => rfl

theorem asSlice_push (self : PreAllocatedStore T n) (value : T) :
    (self.push value).asSlice = self.asSlice ++ [value] := by
  cases self with
  | static store =>
      unfold push
      by_cases h : store.len < n
      · simp only [dif_pos h]
        exact store.slice_write value h
      · simp only [dif_neg h]
        exact congrArg (· ++ [value]) (store.array_of_full h)
  | dynamic vec => rfl

theorem asSlice_extendFromSlice (self : PreAllocatedStore T n) (other : List T) :
    (self.extendFromSlice other).asSlice = self.asSlice ++ other := by
  cases self with
  | static store =>
      unfold extendFromSlice
      by_cases h : store.len + other.length ≤ n
      · simp only [dif_pos h]
        exact store.slice_writeAll other h
      · simp only [dif_neg h]
        rfl
  | dynamic vec => rfl

theorem asSlice_asMutSlice (self : PreAllocatedStore T n) (f : SliceUpdate T) :
    (self.asMutSlice f).asSlice = f.1 self.asSlice := by
  cases self with
  | static store => exact store.slice_update f
  | dynamic vec => rfl

theorem pop_eq (self : PreAllocatedStore T n) :
    self.pop.1 = self.asSlice.getLast? ∧ self.pop.2.asSlice = self.asSlice.dropLast := by
  cases self with
  | static store =>
      unfold pop
      by_cases h : store.len = 0
      · have hnil : store.slice = [] :=
          List.eq_nil_of_length_eq_zero (store.slice_length.trans h)
        simp only [if_pos h]
        exact ⟨by rw [asSlice, hnil]; rfl, by rw [asSlice, hnil]; rfl⟩
      · simp only [if_neg h]
        exact ⟨(store.slice_getLast? h).symm, store.slice_drop⟩
  | dynamic vec => exact ⟨rfl, rfl⟩

/-- Every operation on the store is the operation on its slice. -/
theorem step_refines : Refinement.Refines (step (T := T) (n := n)) vecStep asSlice := by
  intro s op
  cases op with
  | push value => exact ⟨rfl, s.asSlice_push value⟩
  | pop => exact s.pop_eq
  | extendFromSlice other => exact ⟨rfl, s.asSlice_extendFromSlice other⟩
  | asMutSlice f => exact ⟨rfl, s.asSlice_asMutSlice f⟩

end PreAllocatedStore

/-- **A preallocated store is a vector**: over every sequence of operations it pops the same values,
and what it then holds is what the vector holds. -/
theorem store_is_vec (T : Type) [Inhabited T] (staticStore : Nat) (ops : List (StoreOp T)) :
    let store := Refinement.results PreAllocatedStore.step
      (PreAllocatedStore.empty : PreAllocatedStore T staticStore) ops
    let vec := Refinement.results vecStep [] ops
    store.1 = vec.1 ∧ store.2.len = vec.2.length ∧ store.2.asSlice = vec.2 ∧
      store.2.intoVec = vec.2 := by
  obtain ⟨hresults, hslice⟩ := PreAllocatedStore.step_refines.results
    (PreAllocatedStore.empty : PreAllocatedStore T staticStore) ops
  rw [PreAllocatedStore.asSlice_empty] at hresults hslice
  refine ⟨hresults, ?_, hslice, ?_⟩
  · rw [PreAllocatedStore.asSlice_length, hslice]
  · rw [PreAllocatedStore.intoVec_eq, hslice]

end Containers

end Ra2m
