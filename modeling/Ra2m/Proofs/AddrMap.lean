/-
When the routing table keeps the ranges it accepted.

`insert_range` compares a new range with one entry only, the last one that starts
at or below it.  Three things escape that check: an entry that starts inside the
new range, an empty entry at the very offset of the new range, which is replaced,
and an entry further down that is hidden behind an empty one.  `Clear` says that
none of the three is in the way, and `offerAll_faithful_iff` that this is all
there is to it: the accepted ranges stay in the table and stay disjoint through a
sequence of calls if and only if every accepted call meets `Clear`.
-/
import Ra2m.Sim.Addr
import Mathlib

namespace Ra2m

namespace AddrRangeMap

/-- The addresses of an entry. -/
def span (e : Nat × (Nat × Nat)) : Set Nat := Set.Ico e.1 (e.1 + e.2.1)

/-- Two spans are disjoint when one is empty or they follow each other. -/
theorem disjoint_span_iff {e e' : Nat × (Nat × Nat)} :
    Disjoint (span e) (span e') ↔
      e.2.1 = 0 ∨ e'.2.1 = 0 ∨ e.1 + e.2.1 ≤ e'.1 ∨ e'.1 + e'.2.1 ≤ e.1 := by
  unfold span
  rw [Set.Ico_disjoint_Ico]
  omega

/-- A range as it is offered to the table: its offset, its size and its port. -/
abbrev Offer := Nat × (Nat × Nat)

/-- One call of `insertRange`, with the ranges accepted so far. -/
def offer (st : AddrRangeMap × List Offer) (r : Offer) : AddrRangeMap × List Offer :=
  match st.1.insertRange r.1 r.2.1 r.2.2 with
  | .ok m => (m, st.2 ++ [r])
  | .error _ => st

/-- The calls of a sequence, from the empty table. -/
def offerAll (rs : List Offer) : AddrRangeMap × List Offer := rs.foldl offer (new, [])

theorem offerAll_append (pre : List Offer) (r : Offer) :
    offerAll (pre ++ [r]) = offer (offerAll pre) r := by
  unfold offerAll
  rw [List.foldl_append]
  rfl

/-- The accepted ranges are all in the table, each with its size and port and counted as often as
it was accepted, and any two of them are disjoint. -/
structure Faithful (st : AddrRangeMap × List Offer) : Prop where
  kept : st.1.arMap.entries.Perm st.2
  disjoint : st.2.Pairwise fun a b => Disjoint (span a) (span b)

/-- Nothing that `insertRange` does not look at is in the way of the range. -/
structure Clear (m : AddrRangeMap) (r : Offer) : Prop where
  /-- No non-empty entry starts inside the range. -/
  successors : ∀ e ∈ m.arMap.entries, r.1 < e.1 → 0 < e.2.1 → r.1 + r.2.1 ≤ e.1
  /-- The entry at or below the range does not start with it. -/
  fresh : ∀ e, m.arMap.lastLE r.1 = some e → e.1 ≠ r.1
  /-- No entry before that one reaches into the range. -/
  hidden : ∀ p, m.arMap.lastLE r.1 = some p → 0 < r.2.1 →
    ∀ e ∈ m.arMap.entries, e.1 < p.1 → e.1 + e.2.1 ≤ r.1

/-! ### One call -/

/-- Under `Clear` no entry has the offset of the range. -/
theorem Clear.ne_key {m : AddrRangeMap} {r : Offer} (h : Clear m r) :
    ∀ e ∈ m.arMap.entries, e.1 ≠ r.1 := by
  intro e he hk
  have hlast : m.arMap.lastLE r.1 = some e :=
    (m.arMap.lastLE_eq_some_iff).mpr ⟨he, hk.le, fun e' _ hle => hk ▸ hle⟩
  exact h.fresh e hlast hk

/-- Under `Clear` an accepted range is disjoint from every entry. -/
theorem Clear.disjoint {m : AddrRangeMap} {r : Offer} (h : Clear m r)
    (hchk : ∀ e, m.arMap.lastLE r.1 = some e → e.1 + e.2.1 ≤ r.1) :
    ∀ e ∈ m.arMap.entries, Disjoint (span e) (span r) := by
  intro e he
  rw [disjoint_span_iff]
  rcases Nat.lt_trichotomy e.1 r.1 with hlt | heq | hgt
  · cases hlast : m.arMap.lastLE r.1 with
    | none =>
        have := (m.arMap.lastLE_eq_none_iff).mp hlast e he
        omega
    | some p =>
        have hp := hchk p hlast
        have hle : e.1 ≤ p.1 := SortedMap.lastLE_max hlast he hlt.le
        by_cases hep : e.1 = p.1
        · obtain rfl := m.arMap.entry_unique he (SortedMap.lastLE_mem hlast).1 hep
          omega
        · have hhid := h.hidden p hlast
          by_cases hr : r.2.1 = 0
          · exact Or.inr (Or.inl hr)
          · have := hhid (by omega) e he (by omega)
            omega
  · exact absurd heq (h.ne_key e he)
  · have hsucc := h.successors e he hgt
    by_cases hz : e.2.1 = 0
    · exact Or.inl hz
    · have := hsucc (by omega)
      omega

/-- An accepted call keeps the table faithful exactly when nothing it overlooks is in the way. -/
theorem offer_faithful_iff {st : AddrRangeMap × List Offer} (hst : Faithful st) {r : Offer}
    {m : AddrRangeMap} (hok : st.1.insertRange r.1 r.2.1 r.2.2 = .ok m) :
    Faithful (offer st r) ↔ Clear st.1 r := by
  obtain ⟨hm, hchk⟩ := insertRange_eq_ok_iff.mp hok
  have hoffer : offer st r = (m, st.2 ++ [r]) := by
    unfold offer
    rw [hok]
  rw [hoffer]
  constructor
  · intro h
    have hdis : ∀ e ∈ st.1.arMap.entries, Disjoint (span e) (span r) := by
      intro e he
      have := (List.pairwise_append.mp h.disjoint).2.2 e (hst.kept.mem_iff.mp he) r
      exact this (by simp)
    refine ⟨?_, ?_, ?_⟩
    · intro e he hlt hpos
      have := disjoint_span_iff.mp (hdis e he)
      omega
    · intro e hlast hk
      -- Replacing an entry keeps the table's length, so one accepted range is gone.
      have hlen : m.arMap.entries.length = st.1.arMap.entries.length := by
        rw [hm]
        exact st.1.arMap.length_insert_of_mem _ (SortedMap.lastLE_mem hlast).1 hk
      have h1 := h.kept.length_eq
      have h2 := hst.kept.length_eq
      simp only [List.length_append, List.length_singleton] at h1
      omega
    · intro p hlast hpos e he hlt
      have hp := (SortedMap.lastLE_mem hlast).2
      have := disjoint_span_iff.mp (hdis e he)
      omega
  · intro h
    refine ⟨?_, ?_⟩
    · have hins := st.1.arMap.insert_perm (r.2.1, r.2.2) h.ne_key
      rw [hm]
      exact (hins.trans (hst.kept.cons r)).trans (List.perm_append_singleton r st.2).symm
    · refine List.pairwise_append.mpr ⟨hst.disjoint, by simp, ?_⟩
      intro a ha b hb
      rw [List.mem_singleton.mp hb]
      exact h.disjoint hchk a (hst.kept.mem_iff.mpr ha)

theorem offer_refused {st : AddrRangeMap × List Offer} {r : Offer} {err : AddrRangeError}
    (h : st.1.insertRange r.1 r.2.1 r.2.2 = .error err) : offer st r = st := by
  unfold offer
  rw [h]

/-! ### Sequences of calls -/

theorem faithful_new : Faithful (offerAll []) :=
  ⟨List.Perm.refl _, List.Pairwise.nil⟩

/--
The accepted ranges stay in the table and stay disjoint after every call of a sequence exactly
when, at every call that is accepted, nothing the check overlooks is in the way.
-/
theorem offerAll_faithful_iff (rs : List Offer) :
    (∀ pre, pre <+: rs → Faithful (offerAll pre)) ↔
      ∀ pre r post m, rs = pre ++ r :: post →
        (offerAll pre).1.insertRange r.1 r.2.1 r.2.2 = .ok m → Clear (offerAll pre).1 r := by
  constructor
  · intro h pre r post m hrs hok
    have hpre := h pre ⟨r :: post, hrs.symm⟩
    have hnext := h (pre ++ [r]) ⟨post, by rw [hrs]; simp⟩
    rw [offerAll_append] at hnext
    exact (offer_faithful_iff hpre hok).mp hnext
  · intro h pre
    induction pre using List.reverseRecOn with
    | nil => intro _; exact faithful_new
    | append_singleton pre r ih =>
        rintro ⟨post, hrs⟩
        have hrs' : rs = pre ++ r :: post := by rw [← hrs]; simp
        have hpre := ih ⟨r :: post, hrs'.symm⟩
        rw [offerAll_append]
        cases hins : (offerAll pre).1.insertRange r.1 r.2.1 r.2.2 with
        | error err => rw [offer_refused hins]; exact hpre
        | ok m => exact (offer_faithful_iff hpre hins).mpr (h pre r post m hrs' hins)

/-- A range of 100 bytes at 0 is accepted over one of 10 bytes at 50: the two overlap. -/
theorem offerAll_overlap :
    (offerAll [(50, (10, 0)), (0, (100, 1))]).2 = [(50, (10, 0)), (0, (100, 1))] ∧
      ¬ Faithful (offerAll [(50, (10, 0)), (0, (100, 1))]) := by
  refine ⟨by decide, ?_⟩
  intro h
  have hacc : (offerAll [(50, (10, 0)), (0, (100, 1))]).2 = [(50, (10, 0)), (0, (100, 1))] := by
    decide
  have hdis := h.disjoint
  rw [hacc] at hdis
  have := disjoint_span_iff.mp ((List.pairwise_cons.mp hdis).1 (0, (100, 1)) (by simp))
  simp at this

end AddrRangeMap

end Ra2m
