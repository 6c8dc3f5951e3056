/-
What the routing table answers.

A table of disjoint, non-empty ranges is the same whatever order its ranges were
registered in, and every one of them is accepted.  Looking an access up then agrees
with searching all the ranges: the last range at or below the address is the only one
that can contain it.

Two answers are not what the error types and the patterns say.  The look-up does not
ask whether the address lies in the range it found, so an access to a gap is reported
as one that runs over the end of a range.  And the extent of a strided access is
counted as if every chunk were at most one stride long, so a longer last chunk is
routed to a range it runs out of.
-/
import Ra2m.Proofs.AddrMap

namespace Ra2m

namespace AddrRangeMap

/-- Register ranges one after another; the first that is refused ends the registration. -/
def insertAll : AddrRangeMap → List Offer → Except AddrRangeError AddrRangeMap
  | m, [] => .ok m
  | m, r :: rest => do
      let m ← m.insertRange r.1 r.2.1 r.2.2
      insertAll m rest

/-- The ranges are non-empty and no two of them share an address. -/
structure Apart (rs : List Offer) : Prop where
  nonempty : ∀ r ∈ rs, 0 < r.2.1
  disjoint : rs.Pairwise fun a b => Disjoint (span a) (span b)

/-- The look-up of an access of `n` bytes at `addr` answers as a search of the ranges does. -/
structure Answers (m : AddrRangeMap) (rs : List Offer) (addr : Nat) (n : Data) : Prop where
  routed : ∀ o p, m.findPort addr n = .ok (o, p) ↔
    ∃ s, (o, (s, p)) ∈ rs ∧ Set.Ico addr (addr + n) ⊆ span (o, (s, p))
  unmapped : (∀ r ∈ rs, addr ∉ span r) → m.findPort addr n = .error (.unmapped addr n)
  crossing : ∀ r ∈ rs, addr ∈ span r → ¬ Set.Ico addr (addr + n) ⊆ span r →
    m.findPort addr n = .error (.crossRange (addr, n) m.arMap)

/-! ### Registering -/

theorem Apart.head_apart {r : Offer} {rest : List Offer} (h : Apart (r :: rest)) :
    ∀ e ∈ rest, e.1 + e.2.1 ≤ r.1 ∨ r.1 + r.2.1 ≤ e.1 := by
  intro e he
  have hr := h.nonempty r List.mem_cons_self
  have hpos := h.nonempty e (List.mem_cons_of_mem r he)
  have hdis := disjoint_span_iff.mp ((List.pairwise_cons.mp h.disjoint).1 e he)
  omega

theorem Apart.perm {rs rs' : List Offer} (h : Apart rs) (hp : rs.Perm rs') : Apart rs' :=
  ⟨fun r hr => h.nonempty r (hp.mem_iff.mpr hr),
    (hp.pairwise_iff fun hd => hd.symm).mp h.disjoint⟩

/-- A range apart from all entries is accepted. -/
theorem insertRange_apart {m : AddrRangeMap} {r : Offer}
    (h : ∀ e ∈ m.arMap.entries, e.1 + e.2.1 ≤ r.1 ∨ r.1 + r.2.1 ≤ e.1) (hr : 0 < r.2.1) :
    m.insertRange r.1 r.2.1 r.2.2 = .ok ⟨m.arMap.insert r.1 (r.2.1, r.2.2)⟩ := by
  refine insertRange_eq_ok_iff.mpr ⟨rfl, ?_⟩
  intro e hlast
  obtain ⟨he, hle⟩ := SortedMap.lastLE_mem hlast
  have := h e he
  omega

/-- Ranges that are apart are all accepted, and the table has them and nothing else. -/
theorem insertAll_apart {rs : List Offer} {m : AddrRangeMap} (h : Apart (m.arMap.entries ++ rs)) :
    ∃ m', insertAll m rs = .ok m' ∧
      ∀ e, e ∈ m'.arMap.entries ↔ e ∈ m.arMap.entries ∨ e ∈ rs := by
  induction rs generalizing m with
  | nil => exact ⟨m, rfl, by simp⟩
  | cons r rest ih =>
      have hfirst : Apart (r :: (m.arMap.entries ++ rest)) := h.perm List.perm_middle
      have hr := hfirst.nonempty r List.mem_cons_self
      have hapart : ∀ e ∈ m.arMap.entries, e.1 + e.2.1 ≤ r.1 ∨ r.1 + r.2.1 ≤ e.1 :=
        fun e he => hfirst.head_apart e (List.mem_append_left rest he)
      have hkey : ∀ e ∈ m.arMap.entries, e.1 ≠ r.1 := by
        intro e he
        have := hapart e he
        have := hfirst.nonempty e (List.mem_cons_of_mem r (List.mem_append_left rest he))
        omega
      have hins := m.arMap.insert_perm (r.2.1, r.2.2) hkey
      obtain ⟨m', hm', hmem⟩ := ih (m := ⟨m.arMap.insert r.1 (r.2.1, r.2.2)⟩)
        (hfirst.perm ((hins.append_right rest).symm))
      refine ⟨m', ?_, ?_⟩
      · unfold insertAll
        rw [insertRange_apart hapart hr]
        exact hm'
      · intro e
        rw [hmem e, hins.mem_iff, List.mem_cons, List.mem_cons]
        tauto

/-- The table does not depend on the order its ranges come in. -/
theorem insertAll_perm {rs : List Offer} (h : Apart rs) :
    ∃ m, (∀ rs' : List Offer, rs'.Perm rs → insertAll new rs' = .ok m) ∧
      ∀ e, e ∈ m.arMap.entries ↔ e ∈ rs := by
  have hnew : ∀ {l : List Offer}, Apart l → Apart (new.arMap.entries ++ l) := id
  obtain ⟨m, hm, hmem⟩ := insertAll_apart (hnew h)
  refine ⟨m, ?_, fun e => by rw [hmem e]; simp [new]⟩
  intro rs' hp
  obtain ⟨m', hm', hmem'⟩ := insertAll_apart (hnew (h.perm hp.symm))
  have heq : m'.arMap = m.arMap := by
    refine SortedMap.ext_mem fun e => ?_
    rw [hmem e, hmem' e, hp.mem_iff]
  rw [hm', show m' = m from congrArg AddrRangeMap.mk heq]

/-! ### Looking up -/

theorem mem_span {e : Offer} {addr : Nat} : addr ∈ span e ↔ e.1 ≤ addr ∧ addr < e.1 + e.2.1 := by
  unfold span
  exact Set.mem_Ico

/-- The addresses of a non-empty access lie in a range when its first and its end do. -/
theorem access_subset_span {e : Offer} {addr n : Nat} (hn : 0 < n) :
    Set.Ico addr (addr + n) ⊆ span e ↔ e.1 ≤ addr ∧ addr + n ≤ e.1 + e.2.1 := by
  unfold span
  exact Set.Ico_subset_Ico_iff (by omega)

section

variable {m : AddrRangeMap} {rs : List Offer} (hmem : ∀ e, e ∈ m.arMap.entries ↔ e ∈ rs)
  (h : Apart rs)

include hmem h

/-- A range with an address in it is the last one at or below that address. -/
theorem lastLE_of_mem_span {e : Offer} {addr : Nat} (he : e ∈ rs) (hin : addr ∈ span e) :
    m.arMap.lastLE addr = some e := by
  obtain ⟨hlo, hhi⟩ := mem_span.mp hin
  refine m.arMap.lastLE_eq_some_iff.mpr ⟨(hmem e).mpr he, hlo, ?_⟩
  intro e' he' hle
  by_contra hlt
  have hpos := h.nonempty e' ((hmem e').mp he')
  have hsymm : Std.Symm fun a b : Offer => Disjoint (span a) (span b) := ⟨fun _ _ hd => hd.symm⟩
  have hdis := disjoint_span_iff.mp
    (h.disjoint.forall he ((hmem e').mp he') (fun heq => hlt (heq ▸ le_refl _)))
  omega

theorem findPort_routed {addr n : Nat} (hn : 0 < n) (o p : Nat) :
    m.findPort addr n = .ok (o, p) ↔
      ∃ s, (o, (s, p)) ∈ rs ∧ Set.Ico addr (addr + n) ⊆ span (o, (s, p)) := by
  rw [findPort_eq_ok_iff]
  constructor
  · rintro ⟨s, hlast, hend⟩
    obtain ⟨he, hlo⟩ := SortedMap.lastLE_mem hlast
    exact ⟨s, (hmem _).mp he, (access_subset_span hn).mpr ⟨hlo, hend⟩⟩
  · rintro ⟨s, he, hsub⟩
    obtain ⟨hlo, hend⟩ := (access_subset_span hn).mp hsub
    exact ⟨s, lastLE_of_mem_span hmem h he (mem_span.mpr ⟨hlo, by omega⟩), hend⟩

theorem findPort_crossing {addr n : Nat} (hn : 0 < n) {r : Offer} (hr : r ∈ rs)
    (hin : addr ∈ span r) (hout : ¬ Set.Ico addr (addr + n) ⊆ span r) :
    m.findPort addr n = .error (.crossRange (addr, n) m.arMap) := by
  have hlast := lastLE_of_mem_span hmem h hr hin
  have hcross : r.1 + r.2.1 < addr + n := by
    by_contra hle
    exact hout ((access_subset_span hn).mpr ⟨(mem_span.mp hin).1, by omega⟩)
  unfold findPort
  rw [hlast]
  exact if_pos hcross

omit h

/-- `Unmapped` is what an address below every range gets, and no other. -/
theorem findPort_unmapped_iff {addr n : Nat} :
    m.findPort addr n = .error (.unmapped addr n) ↔ ∀ r ∈ rs, addr < r.1 := by
  have hnone : m.arMap.lastLE addr = none ↔ ∀ r ∈ rs, addr < r.1 := by
    rw [SortedMap.lastLE_eq_none_iff]
    exact ⟨fun hall r hr => hall r ((hmem r).mpr hr), fun hall e he => hall e ((hmem e).mp he)⟩
  rw [← hnone]
  unfold findPort
  cases hlast : m.arMap.lastLE addr with
  | none => simp
  | some e =>
      simp only [reduceCtorEq, iff_false]
      split
      all_goals simp

end

/-- **The look-up.**  Disjoint ranges are all accepted and give one table in every order, and its
answer to an access is that of a search exactly when the address is in a range or below them all. -/
theorem findPort_answers_iff (rs : List Offer) (h : Apart rs) :
    ∃ m, (∀ rs' : List Offer, rs'.Perm rs → insertAll new rs' = .ok m) ∧
      ∀ (addr : Nat) (n : Data), 0 < n →
        (Answers m rs addr n ↔ (∃ r ∈ rs, addr ∈ span r) ∨ ∀ r ∈ rs, addr < r.1) := by
  obtain ⟨m, hm, hmem⟩ := insertAll_perm h
  refine ⟨m, hm, fun addr n hn => ⟨?_, ?_⟩⟩
  · intro hans
    by_cases hin : ∃ r ∈ rs, addr ∈ span r
    · exact Or.inl hin
    · have hnot : ∀ r ∈ rs, addr ∉ span r := fun r hr hr' => hin ⟨r, hr, hr'⟩
      exact Or.inr ((findPort_unmapped_iff hmem).mp (hans.unmapped hnot))
  · intro hcond
    refine ⟨findPort_routed hmem h hn, ?_, fun r hr => findPort_crossing hmem h hn hr⟩
    intro hnot
    rcases hcond with ⟨r, hr, hin⟩ | hbelow
    · exact absurd hin (hnot r hr)
    · exact (findPort_unmapped_iff hmem).mpr hbelow

/-- Two ranges with a gap between them. -/
theorem findPort_answers_iff_gap :
    ∃ m, insertAll new [(0x100, (0x10, 0)), (0x200, (0x10, 1))] = .ok m ∧
      Answers m [(0x100, (0x10, 0)), (0x200, (0x10, 1))] 0x108 8 := by
  obtain ⟨m, hm, hans⟩ := findPort_answers_iff [(0x100, (0x10, 0)), (0x200, (0x10, 1))]
    ⟨by decide, by simp [disjoint_span_iff]⟩
  exact ⟨m, hm _ (List.Perm.refl _),
    (hans 0x108 8 (by decide)).mpr (Or.inl ⟨_, List.mem_cons_self, mem_span.mpr (by decide)⟩)⟩

/-- An access in the gap is reported to run over the end of the range below it. -/
theorem findPort_gap :
    ∃ m, insertAll new [(0x100, (0x10, 0)), (0x200, (0x10, 1))] = .ok m ∧
      (∀ r ∈ [(0x100, (0x10, 0)), (0x200, (0x10, 1))], 0x180 ∉ span r) ∧
      m.findPort 0x180 8 = .error (.crossRange (0x180, 8) m.arMap) :=
  ⟨_, rfl, by simp [mem_span], rfl⟩

/-! ### Strided accesses -/

/-- Where the last byte of a strided access ends is what decides whether all are inside. -/
theorem stride_inside_iff {a o s size stride iter : Nat} (hlo : o ≤ a)
    (hend : a + stride * iter ≤ o + s) :
    (∀ k < iter, ∀ j < size, o ≤ a + k * stride + j ∧ a + k * stride + j < o + s) ↔
      iter = 0 ∨ size ≤ stride ∨ a + stride * iter + (size - stride) ≤ o + s := by
  cases iter with
  | zero => simp
  | succ last =>
      have hlast : stride * (last + 1) = last * stride + stride := by
        rw [Nat.mul_succ, Nat.mul_comm]
      rw [hlast] at hend ⊢
      constructor
      · intro hall
        by_cases hsize : size ≤ stride
        · exact Or.inr (Or.inl hsize)
        · have := (hall last (Nat.lt_succ_self last) (size - 1) (by omega)).2
          omega
      · intro hcond k hk j hj
        have hk' : k * stride ≤ last * stride := Nat.mul_le_mul_right stride (by omega)
        omega

/-- **The extent of a strided access.**  The bytes of a routed access lie in its range exactly when
its chunks are not longer than its stride, or the range goes on for as much as the last one is too
long; and they do in every table only when the chunks are not longer or there are none. -/
theorem stride_range_covers_iff (size stride : Data) (iter : Nat) :
    (∀ (m : AddrRangeMap) (a o s p range : Nat),
        (Pattern.stride size stride iter).range = .ok range → m.findPort a range = .ok (o, p) →
        m.arMap.find? o = some (s, p) →
        ((∀ k < iter, ∀ j < size, o ≤ a + k * stride + j ∧ a + k * stride + j < o + s) ↔
          iter = 0 ∨ size ≤ stride ∨ a + stride * iter + (size - stride) ≤ o + s)) ∧
      ((∀ (m : AddrRangeMap) (a o s p range : Nat),
          (Pattern.stride size stride iter).range = .ok range → m.findPort a range = .ok (o, p) →
          m.arMap.find? o = some (s, p) →
          ∀ k < iter, ∀ j < size, o ≤ a + k * stride + j ∧ a + k * stride + j < o + s) ↔
        iter = 0 ∨ size ≤ stride) := by
  have hroute : ∀ (m : AddrRangeMap) (a o s p range : Nat),
      (Pattern.stride size stride iter).range = .ok range → m.findPort a range = .ok (o, p) →
      m.arMap.find? o = some (s, p) → o ≤ a ∧ a + stride * iter ≤ o + s := by
    intro m a o s p range hrange hport hfind
    obtain rfl := Except.ok.inj hrange
    obtain ⟨s', hlast, hend⟩ := findPort_eq_ok_iff.mp hport
    obtain ⟨he, hlo⟩ := SortedMap.lastLE_mem hlast
    rw [m.arMap.find?_eq_some_iff] at hfind
    have hsame := m.arMap.entry_unique he hfind rfl
    simp only [Prod.mk.injEq, and_true, true_and] at hsame
    rw [← hsame]
    exact ⟨hlo, hend⟩
  refine ⟨?_, ?_, ?_⟩
  · intro m a o s p range hrange hport hfind
    obtain ⟨hlo, hend⟩ := hroute m a o s p range hrange hport hfind
    exact stride_inside_iff hlo hend
  · intro hall
    -- The table whose one range is just as long as the access is said to be.
    let m : AddrRangeMap := ⟨SortedMap.empty.insert 0 (stride * iter, 0)⟩
    have hport : m.findPort 0 (stride * iter) = .ok (0, 0) :=
      findPort_eq_ok_iff.mpr ⟨stride * iter, rfl, le_refl _⟩
    have hcond := (stride_inside_iff (Nat.zero_le 0) (by omega)).mp
      (hall m 0 0 (stride * iter) 0 _ rfl hport rfl)
    rcases hcond with hiter | hsize | hrest
    · exact Or.inl hiter
    · exact Or.inr hsize
    · exact Or.inr (Nat.le_of_sub_eq_zero (by omega))
  · intro hcond m a o s p range hrange hport hfind
    obtain ⟨hlo, hend⟩ := hroute m a o s p range hrange hport hfind
    exact (stride_inside_iff hlo hend).mpr (hcond.imp_right Or.inl)

/-- Two chunks of 8 bytes at a stride of 4: the second one ends 4 bytes behind the range. -/
theorem stride_runs_over :
    ∃ m, insertAll new [(0x100, (8, 0))] = .ok m ∧
      (Pattern.stride 8 4 2).range = .ok 8 ∧ m.findPort 0x100 8 = .ok (0x100, 0) ∧
      ¬ 0x100 + 1 * 4 + 7 < 0x100 + 8 :=
  ⟨_, rfl, rfl, rfl, by decide⟩

end AddrRangeMap

end Ra2m
