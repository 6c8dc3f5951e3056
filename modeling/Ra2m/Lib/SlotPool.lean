/-
A pool of numbered slots with a store.

Of the slots `0 .. n-1` some are free, some are held by a party that has no value for
them yet, and the rest are in use, each with the value the store has at its number.
`Ok` says that the three make up all the slots, each once, and that the store has a
value exactly where a slot is in use.  The rules are one for each thing that can be
done to a slot: take a free one, put a value in a held one, and release one in use.
-/
import Mathlib.Data.List.Basic
import Mathlib.Data.List.Nodup
import Mathlib.Tactic.Common

namespace SlotPool

variable {β : Type*}

/-- `busy` pairs each slot in use with its value; a slot that is not in use has the value
`empty`. -/
structure Ok (empty : β) (n : Nat) (avail held : List Nat) (store : List β)
    (busy : List (Nat × β)) : Prop where
  slots : (avail ++ held ++ busy.map Prod.fst).Perm (List.range n)
  length : store.length = n
  inUse : ∀ e ∈ busy, store[e.1]? = some e.2
  unused : ∀ t ∈ avail ++ held, store[t]? = some empty

variable {empty : β} {n t : Nat} {avail avail' held held' : List Nat} {store : List β} {x : β}
  {busy busy' : List (Nat × β)}

theorem Ok.init (empty : β) (n : Nat) :
    Ok empty n (List.range n) [] (List.replicate n empty) [] := by
  refine ⟨by simp, List.length_replicate, by simp, ?_⟩
  intro t ht
  rw [List.append_nil, List.mem_range] at ht
  rw [List.getElem?_replicate, if_pos ht]

theorem Ok.congr (h : Ok empty n avail held store busy)
    (hfree : (avail ++ held).Perm (avail' ++ held')) (hbusy : busy.Perm busy') :
    Ok empty n avail' held' store busy' := by
  refine ⟨?_, h.length, ?_, ?_⟩
  · exact ((hfree.append (hbusy.map Prod.fst)).symm).trans h.slots
  · exact fun e he => h.inUse e (hbusy.mem_iff.mpr he)
  · exact fun t ht => h.unused t (hfree.mem_iff.mpr ht)

/-! ### What the partition says -/

theorem Ok.nodup (h : Ok empty n avail held store busy) :
    (avail ++ held ++ busy.map Prod.fst).Nodup :=
  h.slots.nodup_iff.mpr List.nodup_range

theorem Ok.nodup_avail (h : Ok empty n avail held store busy) : avail.Nodup :=
  (List.nodup_append.mp (List.nodup_append.mp h.nodup).1).1

theorem Ok.lt_of_mem (h : Ok empty n avail held store busy)
    (ht : t ∈ avail ++ held ++ busy.map Prod.fst) : t < n :=
  List.mem_range.mp (h.slots.mem_iff.mp ht)

/-- There are never more slots in use than slots. -/
theorem Ok.length_le (h : Ok empty n avail held store busy) : busy.length ≤ n := by
  have hlen := h.slots.length_eq
  simp only [List.length_append, List.length_map, List.length_range] at hlen
  omega

/-- The store has a value exactly at the slots in use. -/
theorem Ok.stored_iff (h : Ok empty n avail held store busy) (hne : ∀ e ∈ busy, e.2 ≠ empty) :
    (∃ x, store[t]? = some x ∧ x ≠ empty) ↔ t ∈ busy.map Prod.fst := by
  constructor
  · rintro ⟨x, hx, hxe⟩
    have htn : t < n := by
      rw [← h.length]
      exact (List.getElem?_eq_some_iff.mp hx).1
    have hmem := h.slots.mem_iff.mpr (List.mem_range.mpr htn)
    rcases List.mem_append.mp hmem with hfree | hbusy
    · have hempty := h.unused t hfree
      rw [hx] at hempty
      exact absurd (Option.some.inj hempty) hxe
    · exact hbusy
  · intro ht
    obtain ⟨e, he, rfl⟩ := List.mem_map.mp ht
    exact ⟨e.2, h.inUse e he, hne e he⟩

/-! ### What can be done to a slot -/

/-- Take a free slot. -/
theorem Ok.take (h : Ok empty n (avail ++ [t]) held store busy) :
    Ok empty n avail (t :: held) store busy := by
  refine h.congr ?_ (List.Perm.refl busy)
  rw [List.append_assoc]
  exact List.Perm.refl _

/-- Put a value in a held slot. -/
theorem Ok.put (h : Ok empty n avail (t :: held) store busy) (x : β) :
    Ok empty n avail held (store.set t x) ((t, x) :: busy) := by
  have hnodup := h.nodup
  have hperm : (avail ++ t :: held ++ busy.map Prod.fst).Perm
      (t :: (avail ++ held ++ busy.map Prod.fst)) := List.perm_middle.append_right _
  have hfresh : t ∉ avail ++ held ++ busy.map Prod.fst :=
    (List.nodup_cons.mp (hperm.nodup_iff.mp hnodup)).1
  have htn : t < store.length := by
    rw [h.length]
    exact h.lt_of_mem (by simp)
  refine ⟨?_, by rw [List.length_set, h.length], ?_, ?_⟩
  · exact (List.perm_middle.trans hperm.symm).trans h.slots
  · intro e he
    rcases List.mem_cons.mp he with rfl | he
    · exact List.getElem?_set_self htn
    · have hne : t ≠ e.1 := fun heq =>
        hfresh (List.mem_append_right _ (heq ▸ List.mem_map_of_mem he))
      rw [List.getElem?_set_ne hne, h.inUse e he]
  · intro u hu
    have hne : t ≠ u := by
      rintro rfl
      exact hfresh (List.mem_append_left _ hu)
    rw [List.getElem?_set_ne hne]
    refine h.unused u ?_
    rcases List.mem_append.mp hu with hu | hu <;> simp [hu]

/-- Release a slot in use. -/
theorem Ok.release (h : Ok empty n avail held store ((t, x) :: busy)) :
    Ok empty n (avail ++ [t]) held (store.set t empty) busy := by
  have hperm : (avail ++ held ++ ((t, x) :: busy).map Prod.fst).Perm
      (t :: (avail ++ held ++ busy.map Prod.fst)) := List.perm_middle
  have hfresh : t ∉ avail ++ held ++ busy.map Prod.fst :=
    (List.nodup_cons.mp (hperm.nodup_iff.mp h.nodup)).1
  have htn : t < store.length := by
    rw [h.length]
    exact h.lt_of_mem (by simp)
  refine ⟨?_, by rw [List.length_set, h.length], ?_, ?_⟩
  · refine List.Perm.trans ?_ h.slots
    rw [List.append_assoc avail [t] held, List.append_assoc avail]
    refine List.Perm.trans ?_ hperm.symm
    rw [List.append_assoc avail held]
    exact List.perm_middle
  · intro e he
    have hne : t ≠ e.1 := by
      rintro rfl
      exact hfresh (List.mem_append_right _ (List.mem_map_of_mem he))
    rw [List.getElem?_set_ne hne, h.inUse e (List.mem_cons_of_mem _ he)]
  · intro u hu
    by_cases hut : t = u
    · rw [← hut]
      exact List.getElem?_set_self htn
    · have hu' : u ∈ avail ++ held := by
        simp only [List.append_assoc, List.mem_append, List.mem_singleton] at hu ⊢
        rcases hu with hu | rfl | hu
        · exact Or.inl hu
        · exact absurd rfl hut
        · exact Or.inr hu
      rw [List.getElem?_set_ne hut, h.unused u hu']

/-- What a slot in use holds. -/
theorem Ok.stored (h : Ok empty n avail held store ((t, x) :: busy)) : store[t]? = some x :=
  h.inUse (t, x) List.mem_cons_self

end SlotPool
