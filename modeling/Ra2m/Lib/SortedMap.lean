/-
Ordered maps, kept as the list of their entries in key order.

An ordered map is what a B-tree map denotes: for every key at most one value, and
an iteration order that is the order of the keys.  The list of entries carries the
proof that its keys strictly increase, so two maps with the same entries are
equal, whatever order they were filled in.

Beside lookup, insertion and removal there is `lastLE`, the last entry at or below
a key, which is what iterating up to that key and keeping the last entry gives.
-/
import Mathlib.Data.List.Sort
import Mathlib.Data.List.Perm.Basic
import Mathlib.Order.Basic
import Mathlib.Tactic.Common

/-- A finite map whose entries are listed in increasing order of their keys. -/
structure SortedMap (κ : Type*) [LinearOrder κ] (β : Type*) where
  entries : List (κ × β)
  sorted : entries.Pairwise fun a b => a.1 < b.1

namespace SortedMap

variable {κ β : Type*} [LinearOrder κ]

theorem ext_entries {m m' : SortedMap κ β} (h : m.entries = m'.entries) : m = m' := by
  cases m
  cases m'
  subst h
  rfl

instance [DecidableEq β] : DecidableEq (SortedMap κ β) := fun m m' =>
  decidable_of_iff (m.entries = m'.entries) ⟨ext_entries, fun h => h ▸ rfl⟩

def empty : SortedMap κ β := ⟨[], List.Pairwise.nil⟩

@[simp] theorem entries_empty : (empty : SortedMap κ β).entries = [] := rfl

/-! ### Lookup -/

/-- The value stored under `k`. -/
def find? (m : SortedMap κ β) (k : κ) : Option β :=
  (m.entries.find? fun e => e.1 = k).map Prod.snd

theorem nodup_keys (m : SortedMap κ β) : (m.entries.map Prod.fst).Nodup :=
  List.pairwise_map.mpr (m.sorted.imp fun h => h.ne)

/-- Two entries under one key are the same entry. -/
theorem entry_unique (m : SortedMap κ β) {e e' : κ × β} (he : e ∈ m.entries)
    (he' : e' ∈ m.entries) (hk : e.1 = e'.1) : e = e' := by
  exact List.inj_on_of_nodup_map m.nodup_keys he he' hk

/-- Two maps with the same entries are the same map. -/
theorem ext_mem {m m' : SortedMap κ β} (h : ∀ e, e ∈ m.entries ↔ e ∈ m'.entries) : m = m' := by
  have hperm : m.entries.Perm m'.entries :=
    (List.perm_ext_iff_of_nodup m.nodup_keys.of_map m'.nodup_keys.of_map).mpr h
  refine ext_entries (hperm.eq_of_pairwise ?_ m.sorted m'.sorted)
  exact fun a b _ _ hab hba => absurd hba hab.asymm

theorem find?_eq_some_iff (m : SortedMap κ β) {k : κ} {v : β} :
    m.find? k = some v ↔ (k, v) ∈ m.entries := by
  unfold find?
  constructor
  · intro h
    obtain ⟨e, he, hv⟩ := Option.map_eq_some_iff.mp h
    have hk : e.1 = k := by simpa using List.find?_some he
    have hmem := List.mem_of_find?_eq_some he
    rwa [← hk, ← hv]
  · intro h
    cases hf : m.entries.find? fun e => e.1 = k with
    | none =>
        have := List.find?_eq_none.mp hf (k, v) h
        simp at this
    | some e =>
        have hk : e.1 = k := by simpa using List.find?_some hf
        have := m.entry_unique (List.mem_of_find?_eq_some hf) h hk
        simp [this]

theorem find?_eq_none_iff (m : SortedMap κ β) {k : κ} :
    m.find? k = none ↔ ∀ e ∈ m.entries, e.1 ≠ k := by
  unfold find?
  rw [Option.map_eq_none_iff, List.find?_eq_none]
  simp

/-! ### Insertion -/

/-- Put `(k, v)` in its place, over the entry under `k` if there is one. -/
def insertEntry (k : κ) (v : β) : List (κ × β) → List (κ × β)
  | [] => [(k, v)]
  | e :: rest =>
      if k < e.1 then (k, v) :: e :: rest
      else if k = e.1 then (k, v) :: rest
      else e :: insertEntry k v rest

theorem mem_insertEntry {k : κ} {v : β} {l : List (κ × β)}
    (hl : l.Pairwise fun a b => a.1 < b.1) {e : κ × β} :
    e ∈ insertEntry k v l ↔ e = (k, v) ∨ (e ∈ l ∧ e.1 ≠ k) := by
  induction l with
  | nil => simp [insertEntry]
  | cons x rest ih =>
      obtain ⟨hx, hrest⟩ := List.pairwise_cons.mp hl
      unfold insertEntry
      split
      · rename_i hlt
        have hfar : ∀ y ∈ x :: rest, y.1 ≠ k := by
          intro y hy
          rcases List.mem_cons.mp hy with rfl | hy'
          · exact hlt.ne'
          · exact (hlt.trans (hx y hy')).ne'
        constructor
        · intro h
          rcases List.mem_cons.mp h with h | h
          · exact Or.inl h
          · exact Or.inr ⟨h, hfar e h⟩
        · rintro (h | ⟨h, -⟩)
          · simp [h]
          · exact List.mem_cons_of_mem _ h
      · split
        · rename_i heq
          have hfar : ∀ y ∈ rest, y.1 ≠ k := fun y hy => heq ▸ (hx y hy).ne'
          constructor
          · intro h
            rcases List.mem_cons.mp h with h | h
            · exact Or.inl h
            · exact Or.inr ⟨List.mem_cons_of_mem _ h, hfar e h⟩
          · rintro (h | ⟨h, hk⟩)
            · simp [h]
            · rcases List.mem_cons.mp h with rfl | h'
              · exact absurd heq.symm hk
              · exact List.mem_cons_of_mem _ h'
        · rename_i hnlt hne
          rw [List.mem_cons, ih hrest, List.mem_cons]
          constructor
          · rintro (rfl | h | ⟨h, hk⟩)
            · exact Or.inr ⟨Or.inl rfl, fun hc => hne hc.symm⟩
            · exact Or.inl h
            · exact Or.inr ⟨Or.inr h, hk⟩
          · rintro (h | ⟨h | h, hk⟩)
            · exact Or.inr (Or.inl h)
            · exact Or.inl h
            · exact Or.inr (Or.inr ⟨h, hk⟩)

theorem sorted_insertEntry (k : κ) (v : β) {l : List (κ × β)}
    (hl : l.Pairwise fun a b => a.1 < b.1) :
    (insertEntry k v l).Pairwise fun a b => a.1 < b.1 := by
  induction l with
  | nil => simp [insertEntry]
  | cons x rest ih =>
      obtain ⟨hx, hrest⟩ := List.pairwise_cons.mp hl
      unfold insertEntry
      split
      · rename_i hlt
        refine List.pairwise_cons.mpr ⟨?_, hl⟩
        intro y hy
        rcases List.mem_cons.mp hy with rfl | hy'
        · exact hlt
        · exact hlt.trans (hx y hy')
      · split
        · rename_i heq
          exact List.pairwise_cons.mpr ⟨fun y hy => heq ▸ hx y hy, hrest⟩
        · rename_i hnlt hne
          have hxk : x.1 < k := lt_of_le_of_ne (not_lt.mp hnlt) (Ne.symm hne)
          refine List.pairwise_cons.mpr ⟨?_, ih hrest⟩
          intro y hy
          rcases (mem_insertEntry hrest).mp hy with rfl | ⟨hy', -⟩
          · exact hxk
          · exact hx y hy'

def insert (m : SortedMap κ β) (k : κ) (v : β) : SortedMap κ β :=
  ⟨insertEntry k v m.entries, sorted_insertEntry k v m.sorted⟩

theorem mem_insert (m : SortedMap κ β) {k : κ} {v : β} {e : κ × β} :
    e ∈ (m.insert k v).entries ↔ e = (k, v) ∨ (e ∈ m.entries ∧ e.1 ≠ k) :=
  mem_insertEntry m.sorted

theorem insertEntry_perm {k : κ} (v : β) {l : List (κ × β)} (hk : ∀ e ∈ l, e.1 ≠ k) :
    (insertEntry k v l).Perm ((k, v) :: l) := by
  induction l with
  | nil => exact List.Perm.refl _
  | cons x rest ih =>
      unfold insertEntry
      split
      · exact List.Perm.refl _
      · rw [if_neg fun hc => hk x (by simp) hc.symm]
        exact ((ih fun e he => hk e (List.mem_cons_of_mem _ he)).cons x).trans
          (List.Perm.swap _ _ _)

/-- Under a fresh key, insertion adds one entry and keeps all others. -/
theorem insert_perm (m : SortedMap κ β) {k : κ} (v : β) (hk : ∀ e ∈ m.entries, e.1 ≠ k) :
    (m.insert k v).entries.Perm ((k, v) :: m.entries) :=
  insertEntry_perm v hk

theorem length_insertEntry_of_mem {k : κ} (v : β) {l : List (κ × β)}
    (hl : l.Pairwise fun a b => a.1 < b.1) {e : κ × β} (he : e ∈ l) (hek : e.1 = k) :
    (insertEntry k v l).length = l.length := by
  induction l with
  | nil => simp at he
  | cons x rest ih =>
      obtain ⟨hx, hrest⟩ := List.pairwise_cons.mp hl
      have hxk : ¬ k < x.1 := by
        rcases List.mem_cons.mp he with rfl | he'
        · exact hek ▸ lt_irrefl _
        · exact hek ▸ (hx e he').asymm
      unfold insertEntry
      rw [if_neg hxk]
      split
      · rfl
      · rename_i hne
        have he' : e ∈ rest := by
          rcases List.mem_cons.mp he with rfl | he'
          · exact absurd hek.symm hne
          · exact he'
        simp [ih hrest he']

/-- Under a key already there, insertion keeps the number of entries. -/
theorem length_insert_of_mem (m : SortedMap κ β) {k : κ} (v : β) {e : κ × β}
    (he : e ∈ m.entries) (hek : e.1 = k) :
    (m.insert k v).entries.length = m.entries.length :=
  length_insertEntry_of_mem v m.sorted he hek

/-! ### Removal -/

def erase (m : SortedMap κ β) (k : κ) : SortedMap κ β :=
  ⟨m.entries.filter fun e => e.1 ≠ k, m.sorted.filter _⟩

theorem mem_erase (m : SortedMap κ β) {k : κ} {e : κ × β} :
    e ∈ (m.erase k).entries ↔ e ∈ m.entries ∧ e.1 ≠ k := by
  simp [erase]

theorem erase_of_find?_none (m : SortedMap κ β) {k : κ} (h : m.find? k = none) : m.erase k = m := by
  apply ext_entries
  show m.entries.filter (fun e => e.1 ≠ k) = m.entries
  rw [List.filter_eq_self]
  intro e he
  exact decide_eq_true ((m.find?_eq_none_iff).mp h e he)

private theorem nodup_entries (m : SortedMap κ β) : m.entries.Nodup :=
  List.Nodup.of_map Prod.fst m.nodup_keys

/-- The entries are the one under a key and those that removing the key leaves. -/
theorem entries_perm_erase (m : SortedMap κ β) {k : κ} {v : β} (h : m.find? k = some v) :
    m.entries.Perm ((k, v) :: (m.erase k).entries) := by
  have hnew : (k, v) ∉ (m.erase k).entries := fun hk => (m.mem_erase.mp hk).2 rfl
  rw [List.perm_ext_iff_of_nodup m.nodup_entries
    (List.nodup_cons.mpr ⟨hnew, (m.erase k).nodup_entries⟩)]
  intro e
  rw [List.mem_cons, mem_erase]
  have hk := m.find?_eq_some_iff.mp h
  constructor
  · intro he
    by_cases hek : e.1 = k
    · exact Or.inl (m.entry_unique he hk hek)
    · exact Or.inr ⟨he, hek⟩
  · intro he
    rcases he with he | he
    · rw [he]
      exact hk
    · exact he.1

/-- Insertion puts one entry in the place of the one under its key, if there is one. -/
theorem entries_insert_perm (m : SortedMap κ β) (k : κ) (v : β) :
    (m.insert k v).entries.Perm ((k, v) :: (m.erase k).entries) := by
  have hnew : (k, v) ∉ (m.erase k).entries := fun hk => (m.mem_erase.mp hk).2 rfl
  rw [List.perm_ext_iff_of_nodup (m.insert k v).nodup_entries
    (List.nodup_cons.mpr ⟨hnew, (m.erase k).nodup_entries⟩)]
  intro e
  rw [List.mem_cons, mem_erase]
  exact m.mem_insert

/-! ### Lookup after an insertion or a removal -/

theorem find?_insert (m : SortedMap κ β) (k : κ) (v : β) (k' : κ) :
    (m.insert k v).find? k' = if k = k' then some v else m.find? k' := by
  apply Option.ext
  intro w
  rw [find?_eq_some_iff, mem_insert]
  by_cases h : k = k'
  · rw [if_pos h]
    simp [h, eq_comm]
  · rw [if_neg h, find?_eq_some_iff]
    simp [h, eq_comm]

theorem find?_erase (m : SortedMap κ β) (k k' : κ) :
    (m.erase k).find? k' = if k = k' then none else m.find? k' := by
  apply Option.ext
  intro w
  rw [find?_eq_some_iff, mem_erase]
  by_cases h : k = k'
  · rw [if_pos h]
    simp [h]
  · rw [if_neg h, find?_eq_some_iff]
    simp [eq_comm, h]

/-! ### The last entry at or below a key -/

/-- The last entry of the map with a key at most `k`. -/
def lastLE (m : SortedMap κ β) (k : κ) : Option (κ × β) :=
  (m.entries.filter fun e => e.1 ≤ k).getLast?

theorem lastLE_eq_none_iff (m : SortedMap κ β) {k : κ} :
    m.lastLE k = none ↔ ∀ e ∈ m.entries, k < e.1 := by
  unfold lastLE
  rw [List.getLast?_eq_none_iff, List.filter_eq_nil_iff]
  simp

theorem lastLE_mem {m : SortedMap κ β} {k : κ} {e : κ × β} (h : m.lastLE k = some e) :
    e ∈ m.entries ∧ e.1 ≤ k := by
  have := List.mem_of_getLast? h
  simpa using this

/-- No entry at or below the key comes after the one `lastLE` gives. -/
theorem lastLE_max {m : SortedMap κ β} {k : κ} {e e' : κ × β} (h : m.lastLE k = some e)
    (he' : e' ∈ m.entries) (hk : e'.1 ≤ k) : e'.1 ≤ e.1 := by
  have hmem : e' ∈ m.entries.filter fun e => e.1 ≤ k := by simp [he', hk]
  obtain ⟨l, hl⟩ := List.getLast?_eq_some_iff.mp h
  have hs : (l ++ [e]).Pairwise fun a b => a.1 < b.1 := hl ▸ m.sorted.filter _
  rw [hl] at hmem
  rcases List.mem_append.mp hmem with h' | h'
  · exact ((List.pairwise_append.mp hs).2.2 e' h' e (by simp)).le
  · rw [List.mem_singleton.mp h']

theorem lastLE_eq_some_iff (m : SortedMap κ β) {k : κ} {e : κ × β} :
    m.lastLE k = some e ↔
      e ∈ m.entries ∧ e.1 ≤ k ∧ ∀ e' ∈ m.entries, e'.1 ≤ k → e'.1 ≤ e.1 := by
  constructor
  · intro h
    exact ⟨(lastLE_mem h).1, (lastLE_mem h).2, fun e' he' hk => lastLE_max h he' hk⟩
  · rintro ⟨he, hk, hmax⟩
    cases h : m.lastLE k with
    | none => exact absurd ((m.lastLE_eq_none_iff).mp h e he) (not_lt.mpr hk)
    | some e₀ =>
        have h1 := lastLE_max h he hk
        have h2 := hmax e₀ (lastLE_mem h).1 (lastLE_mem h).2
        rw [m.entry_unique (lastLE_mem h).1 he (le_antisymm h2 h1)]

end SortedMap
