/-
Priority queues that leave ties open.

A priority queue promises that a pop gives an element of least key, and says
nothing about which one when several share it.  Here a queue is the list of its
elements in no particular order, and `PopMin` is the relation between a queue, an
element a pop may give and what is left: any implementation picks one of its
cases, so what is proved of all of them is proved of the implementation.

`PopUpTo` is the loop that pops as long as the least key is at most a bound.
Whatever ties it meets, it takes exactly the elements at or below the bound and
leaves the others, which is `PopUpTo.popped_perm` and `PopUpTo.left_perm`.
-/
import Mathlib

namespace MinHeap

variable {α κ : Type*} [LinearOrder κ] (key : α → κ)

/-- A pop of the queue `h` may give `x` and leave `h'`. -/
structure PopMin (h : List α) (x : α) (h' : List α) : Prop where
  perm : h.Perm (x :: h')
  least : ∀ y ∈ h', key x ≤ key y

/-- The least key of the queue. -/
def peek : List α → Option κ
  | [] => none
  | x :: rest =>
      match peek rest with
      | none => some (key x)
      | some k => some (min (key x) k)

/-- Pop while the least key is at most `bound`: the elements popped, in order, and the rest. -/
inductive PopUpTo (bound : κ) : List α → List α → List α → Prop
  | stop {h : List α} (hfar : ∀ y ∈ h, bound < key y) : PopUpTo bound h [] h
  | pop {h h' xs rest : List α} {x : α} (hpop : PopMin key h x h') (hdue : key x ≤ bound)
      (htail : PopUpTo bound h' xs rest) : PopUpTo bound h (x :: xs) rest

variable {key}

/-! ### Looking at the least key -/

theorem peek_eq_none_iff {h : List α} : peek key h = none ↔ h = [] := by
  cases h with
  | nil => simp [peek]
  | cons x rest =>
      unfold peek
      split <;> simp

theorem peek_eq_some_iff {h : List α} {k : κ} :
    peek key h = some k ↔ (∃ x ∈ h, key x = k) ∧ ∀ y ∈ h, k ≤ key y := by
  induction h generalizing k with
  | nil => simp [peek]
  | cons x rest ih =>
      unfold peek
      split
      · rename_i hnone
        obtain rfl := peek_eq_none_iff.mp hnone
        simp only [Option.some.injEq, List.mem_singleton, exists_eq_left, forall_eq]
        exact ⟨fun h => ⟨h, h.ge⟩, fun h => h.1⟩
      · rename_i k' hsome
        obtain ⟨⟨z, hz, hzk⟩, hall⟩ := ih.mp hsome
        simp only [Option.some.injEq]
        constructor
        · rintro rfl
          refine ⟨?_, ?_⟩
          · rcases le_total (key x) k' with hle | hle
            · exact ⟨x, by simp, (min_eq_left hle).symm⟩
            · exact ⟨z, by simp [hz], by rw [min_eq_right hle, hzk]⟩
          · intro y hy
            rcases List.mem_cons.mp hy with rfl | hy'
            · exact min_le_left _ _
            · exact (min_le_right _ _).trans (hall y hy')
        · rintro ⟨⟨w, hw, rfl⟩, hmin⟩
          apply le_antisymm
          · rcases List.mem_cons.mp hw with rfl | hw'
            · exact min_le_left _ _
            · exact (min_le_right _ _).trans (hall w hw')
          · exact le_min (hmin x (by simp)) (hzk ▸ hmin z (by simp [hz]))

/-- The least key depends only on which elements there are. -/
theorem peek_perm {h h' : List α} (hp : h.Perm h') : peek key h = peek key h' := by
  cases hk : peek key h' with
  | none =>
      obtain rfl := peek_eq_none_iff.mp hk
      rw [hp.eq_nil]
      rfl
  | some k =>
      obtain ⟨⟨x, hx, hxk⟩, hall⟩ := peek_eq_some_iff.mp hk
      exact peek_eq_some_iff.mpr
        ⟨⟨x, hp.mem_iff.mpr hx, hxk⟩, fun y hy => hall y (hp.mem_iff.mp hy)⟩

/-! ### Popping everything that is due -/

theorem PopUpTo.popped_le {bound : κ} {h xs rest : List α} (hp : PopUpTo key bound h xs rest) :
    ∀ x ∈ xs, key x ≤ bound := by
  induction hp with
  | stop => simp
  | pop _ hdue _ ih =>
      intro y hy
      rcases List.mem_cons.mp hy with rfl | hy'
      · exact hdue
      · exact ih y hy'

theorem PopUpTo.left_gt {bound : κ} {h xs rest : List α} (hp : PopUpTo key bound h xs rest) :
    ∀ y ∈ rest, bound < key y := by
  induction hp with
  | stop hfar => exact hfar
  | pop _ _ _ ih => exact ih

/-- Nothing is lost and nothing is made up. -/
theorem PopUpTo.perm {bound : κ} {h xs rest : List α} (hp : PopUpTo key bound h xs rest) :
    h.Perm (xs ++ rest) := by
  induction hp with
  | stop => exact List.Perm.refl _
  | @pop h h' xs rest x hpop hdue htail ih => exact hpop.perm.trans (ih.cons x)

private theorem filter_split {p : α → Bool} {xs rest : List α} (hxs : ∀ x ∈ xs, p x = true)
    (hrest : ∀ x ∈ rest, p x = false) : (xs ++ rest).filter p = xs := by
  rw [List.filter_append, List.filter_eq_self.mpr hxs,
    List.filter_eq_nil_iff.mpr fun x hx => by simp [hrest x hx], List.append_nil]

/-- The elements popped are those at or below the bound. -/
theorem PopUpTo.popped_perm {bound : κ} {h xs rest : List α} (hp : PopUpTo key bound h xs rest) :
    xs.Perm (h.filter fun x => key x ≤ bound) := by
  have hf := hp.perm.filter fun x => decide (key x ≤ bound)
  rw [filter_split (by simpa using hp.popped_le) (by simpa using hp.left_gt)] at hf
  exact hf.symm

/-- The elements left are those above the bound. -/
theorem PopUpTo.left_perm {bound : κ} {h xs rest : List α} (hp : PopUpTo key bound h xs rest) :
    rest.Perm (h.filter fun x => bound < key x) := by
  have hf := (hp.perm.trans List.perm_append_comm).filter fun x => decide (bound < key x)
  rw [filter_split (by simpa using hp.left_gt) (by simpa using hp.popped_le)] at hf
  exact hf.symm

/-- The loop has a run on every queue. -/
theorem PopUpTo.exists_run (bound : κ) (h : List α) :
    ∃ xs rest, PopUpTo key bound h xs rest := by
  induction hn : h.length generalizing h with
  | zero =>
      obtain rfl := List.eq_nil_of_length_eq_zero hn
      exact ⟨[], [], PopUpTo.stop (by simp)⟩
  | succ n ih =>
      cases hk : peek key h with
      | none =>
          rw [peek_eq_none_iff.mp hk] at hn
          cases hn
      | some k =>
          obtain ⟨⟨x, hx, hxk⟩, hleast⟩ := peek_eq_some_iff.mp hk
          by_cases hdue : k ≤ bound
          · obtain ⟨l, r, hlr⟩ := List.append_of_mem hx
            have hperm : h.Perm (x :: (l ++ r)) := by
              rw [hlr]
              exact List.perm_middle
            have hlen : (l ++ r).length = n := by
              have := hperm.length_eq
              rw [List.length_cons] at this
              omega
            obtain ⟨xs, rest, hrun⟩ := ih (l ++ r) hlen
            refine ⟨x :: xs, rest, PopUpTo.pop ⟨hperm, ?_⟩ (hxk.trans_le hdue) hrun⟩
            intro y hy
            rw [hxk]
            exact hleast y (hperm.mem_iff.mpr (List.mem_cons_of_mem x hy))
          · refine ⟨[], h, PopUpTo.stop ?_⟩
            intro y hy
            exact (not_le.mp hdue).trans_le (hleast y hy)

end MinHeap
