/-
What a push beyond the capacity does to a vector that only grows.

The counter of the vector is advanced before the capacity is looked at, so it counts
the pushes and not the values.  Up to the capacity the two are the same, and the
vector is the list of the values in the order of their pushes.  The first push beyond
it makes the length larger than the pool: from then on the slice can not be taken, and
a vector of ports does not serve the ports it has.
-/
import Ra2m.Containers.GrowOnlyVec

namespace Ra2m

namespace Containers

namespace GrowOnlyVec

variable {T : Type} {v : GrowOnlyVec T} {l values : List T}

/-! ### One push -/

theorem innerMutPush_used (v : GrowOnlyVec T) (x : T) : (v.innerMutPush x).2.used = v.used + 1 := by
  unfold innerMutPush
  dsimp only
  split
  · rfl
  · rfl

theorem innerMutPush_capacity (v : GrowOnlyVec T) (x : T) :
    (v.innerMutPush x).2.capacity = v.capacity := by
  unfold innerMutPush
  dsimp only
  split
  · rfl
  · rfl

/-- The vector is the list of the values `l`. -/
structure Holds (v : GrowOnlyVec T) (l : List T) : Prop where
  used : v.used = l.length
  room : l.length ≤ v.capacity
  slots : v.pool.take l.length = l.map some

theorem Holds.new (capacity : Nat) : Holds (new capacity : GrowOnlyVec T) [] :=
  ⟨rfl, Nat.zero_le _, rfl⟩

/-- A push that finds room puts its value at the end and returns its index. -/
theorem Holds.push (h : Holds v l) (hroom : l.length < v.capacity) (x : T) :
    (v.innerMutPush x).1 = .ok l.length ∧ Holds (v.innerMutPush x).2 (l ++ [x]) := by
  have hlt : ¬ v.capacity ≤ v.used := by
    rw [h.used]
    omega
  unfold innerMutPush
  dsimp only
  rw [if_neg hlt]
  refine ⟨congrArg _ h.used, ?_, ?_, ?_⟩
  · show v.used + 1 = (l ++ [x]).length
    rw [h.used, List.length_append, List.length_singleton]
  · rw [List.length_append, List.length_singleton]
    exact hroom
  · show (v.pool.set v.used (some x)).take (l ++ [x]).length = (l ++ [x]).map some
    have hpool : l.length < v.pool.length := by
      rw [v.pool_length]
      exact hroom
    rw [h.used, List.length_append, List.length_singleton, List.map_append, ← h.slots,
      List.take_add_one, List.getElem?_set_self hpool, List.take_set_of_le (Nat.le_refl _)]
    rfl

theorem Holds.asSlice (h : Holds v l) : v.asSlice = .ok (l.map some) := by
  have hlen : v.len = l.length := h.used
  unfold GrowOnlyVec.asSlice
  rw [hlen, if_pos (by rw [v.pool_length]; exact h.room), h.slots]

/-! ### Sequences of pushes -/

theorem pushAll_used (v : GrowOnlyVec T) (values : List T) :
    (v.pushAll values).used = v.used + values.length := by
  induction values generalizing v with
  | nil => rfl
  | cons x rest ih =>
      show ((v.innerMutPush x).2.pushAll rest).used = _
      rw [ih, innerMutPush_used, List.length_cons]
      omega

theorem pushAll_capacity (v : GrowOnlyVec T) (values : List T) :
    (v.pushAll values).capacity = v.capacity := by
  induction values generalizing v with
  | nil => rfl
  | cons x rest ih => exact (ih (v.innerMutPush x).2).trans (innerMutPush_capacity v x)

/-- While there is room, every push succeeds and the vector is the list of the values. -/
theorem Holds.pushAll (h : Holds v l) (hroom : l.length + values.length ≤ v.capacity) :
    Holds (v.pushAll values) (l ++ values) ∧ v.pushed values = values := by
  induction values generalizing v l with
  | nil => exact ⟨by rwa [List.append_nil], rfl⟩
  | cons x rest ih =>
      rw [List.length_cons] at hroom
      obtain ⟨hok, hpush⟩ := h.push (by omega) x
      obtain ⟨hrest, hpushed⟩ := ih hpush (by
        rw [innerMutPush_capacity, List.length_append, List.length_singleton]
        omega)
      rw [List.append_assoc, List.singleton_append] at hrest
      refine ⟨hrest, ?_⟩
      unfold pushed
      rw [show v.innerMutPush x = (.ok l.length, (v.innerMutPush x).2) from Prod.ext hok rfl]
      exact congrArg (x :: ·) hpushed

theorem holds_pushAll {capacity : Nat} (h : values.length ≤ capacity) :
    Holds ((new capacity).pushAll values) values := by
  have hroom : ([] : List T).length + values.length ≤ capacity := by
    rwa [List.length_nil, Nat.zero_add]
  exact ((Holds.new capacity).pushAll hroom).1

theorem pushed_eq_self {capacity : Nat} (h : values.length ≤ capacity) :
    (new capacity).pushed values = values := by
  have hroom : ([] : List T).length + values.length ≤ capacity := by
    rwa [List.length_nil, Nat.zero_add]
  exact ((Holds.new capacity).pushAll hroom).2

end GrowOnlyVec

theorem PortVec.index_of_holds {P : Type} {self : PortVec P} {l : List P}
    (h : self.portVec.Holds l) {i : Nat} {port : P} (hi : l[i]? = some port) :
    self.index i = .ok (some port) := by
  have hslice : self.asSlice = .ok (l.map some) := h.asSlice
  have hentry : (l.map some)[i]? = some (some port) := by
    rw [List.getElem?_map, hi, Option.map_some]
  unfold PortVec.index
  rw [hslice]
  dsimp only [bind, Except.bind]
  rw [hentry]

/-! ### What is asked of a sequence of pushes -/

/-- After every beginning of the sequence the vector is the list of the values pushed
successfully. -/
structure GrowsOnly {T : Type} (capacity : Nat) (values : List T) : Prop where
  /-- The length is the number of successful pushes and within the capacity. -/
  len : ∀ pre post, values = pre ++ post →
    ((GrowOnlyVec.new capacity).pushAll pre).len =
        ((GrowOnlyVec.new capacity).pushed pre).length ∧
      ((GrowOnlyVec.new capacity).pushAll pre).len ≤ capacity
  /-- The slice is the list of the values. -/
  slice : ∀ pre post, values = pre ++ post →
    ((GrowOnlyVec.new capacity).pushAll pre).asSlice =
      .ok (((GrowOnlyVec.new capacity).pushed pre).map some)
  /-- A value stays where its push says it is. -/
  stays : ∀ pre value mid post i, values = pre ++ value :: mid ++ post →
    (((GrowOnlyVec.new capacity).pushAll pre).innerMutPush value).1 = .ok i →
    ∃ slice, ((GrowOnlyVec.new capacity).pushAll (pre ++ value :: mid)).asSlice = .ok slice ∧
      slice[i]? = some (some value)
  /-- A push that is refused changes nothing. -/
  refused : ∀ pre value post err, values = pre ++ value :: post →
    (((GrowOnlyVec.new capacity).pushAll pre).innerMutPush value).1 = .error err →
    ((GrowOnlyVec.new capacity).pushAll (pre ++ [value])).len =
        ((GrowOnlyVec.new capacity).pushAll pre).len ∧
      ((GrowOnlyVec.new capacity).pushAll (pre ++ [value])).asSlice =
        ((GrowOnlyVec.new capacity).pushAll pre).asSlice
  /-- A vector port serves the ports it has. -/
  serves : ∀ pre post i port, values = pre ++ post →
    ((GrowOnlyVec.new capacity).pushed pre)[i]? = some port →
    PortVec.index ⟨(GrowOnlyVec.new capacity).pushAll pre⟩ i = .ok (some port)

/-- **A vector that only grows is the list of its values exactly while no push is refused**: when
there are at most as many pushes as slots. -/
theorem growsOnly_iff {T : Type} (capacity : Nat) (values : List T) :
    GrowsOnly capacity values ↔ values.length ≤ capacity := by
  constructor
  · intro h
    obtain ⟨-, hle⟩ := h.len values [] (List.append_nil _).symm
    have hused := GrowOnlyVec.pushAll_used (GrowOnlyVec.new capacity) values
    unfold GrowOnlyVec.len at hle
    rw [hused] at hle
    exact (Nat.zero_add values.length) ▸ hle
  · intro hlen
    have hpre : ∀ {pre post : List T}, values = pre ++ post → pre.length ≤ capacity := by
      intro pre post hsplit
      rw [hsplit, List.length_append] at hlen
      omega
    refine ⟨?_, ?_, ?_, ?_, ?_⟩
    · intro pre post hsplit
      have hholds := GrowOnlyVec.holds_pushAll (hpre hsplit)
      rw [GrowOnlyVec.pushed_eq_self (hpre hsplit)]
      exact ⟨hholds.used, (le_of_eq hholds.used).trans (hpre hsplit)⟩
    · intro pre post hsplit
      rw [GrowOnlyVec.pushed_eq_self (hpre hsplit)]
      exact (GrowOnlyVec.holds_pushAll (hpre hsplit)).asSlice
    · intro pre value mid post i hsplit hok
      have hroom : pre.length < capacity := by
        have := hpre hsplit
        simp only [List.length_append, List.length_cons] at this
        omega
      have hholds := GrowOnlyVec.holds_pushAll (Nat.le_of_lt hroom)
      obtain ⟨hidx, -⟩ := hholds.push (by rwa [GrowOnlyVec.pushAll_capacity]) value
      obtain rfl := Except.ok.inj (hidx.symm.trans hok)
      refine ⟨_, (GrowOnlyVec.holds_pushAll (hpre hsplit)).asSlice, ?_⟩
      simp
    · intro pre value post err hsplit herr
      have hroom : pre.length < capacity := by
        rw [hsplit, List.length_append, List.length_cons] at hlen
        omega
      have hholds := GrowOnlyVec.holds_pushAll (Nat.le_of_lt hroom)
      obtain ⟨hidx, -⟩ := hholds.push (by rwa [GrowOnlyVec.pushAll_capacity]) value
      cases hidx.symm.trans herr
    · intro pre post i port hsplit hi
      rw [GrowOnlyVec.pushed_eq_self (hpre hsplit)] at hi
      exact PortVec.index_of_holds (GrowOnlyVec.holds_pushAll (hpre hsplit)) hi

/-- A pool of one slot and two pushes: the length is two, and the port that is there is not
served any more. -/
theorem refused_push_breaks :
    ((GrowOnlyVec.new 1).pushAll [7, 8]).len = 2 ∧ (GrowOnlyVec.new 1).pushed [7, 8] = [7] ∧
      PortVec.index ⟨(GrowOnlyVec.new 1).pushAll [7, 8]⟩ 0 =
        .error ⟨"range end index 2 out of range for slice of length 1"⟩ ∧
      ¬ GrowsOnly 1 [7, 8] := by
  refine ⟨rfl, rfl, rfl, ?_⟩
  intro h
  exact absurd (h.len [7, 8] [] rfl).2 (by decide)

end Containers

end Ra2m
