/-
Trees whose children have keys.

A node of a tree is named by the path of the keys that lead to it from the root, and if no
two children of a node have the same key, no two nodes have the same path.  `nodes` lists
the nodes of a tree with their paths, a node before what is below it, `select` those whose
path meets a list of conditions, one for each key, and `selectBelow` those and what is
below them.  Nothing is listed twice.
-/
import Mathlib.Data.List.Nodup

/-- How the nodes of a type have children.  The size is what recursion goes down on. -/
structure KeyTree (κ α : Type*) where
  children : α → List (κ × α)
  size : α → Nat
  size_lt : ∀ {t kc}, kc ∈ children t → size kc.2 < size t

namespace KeyTree

variable {κ α : Type*} (T : KeyTree κ α)

/-- The path leads from `t` to `n`. -/
def At (t : α) : List κ → α → Prop
  | [], n => n = t
  | k :: path, n => ∃ c, (k, c) ∈ T.children t ∧ At c path n

/-- No two children of a node of `t` have the same key. -/
def Keyed (t : α) : Prop := ∀ path n, T.At t path n → ((T.children n).map Prod.fst).Nodup

/-- The path meets the conditions, key by key. -/
def Meets (ps : List (κ → Bool)) (path : List κ) : Prop :=
  List.Forall₂ (fun p k => p k = true) ps path

/-- What a function lists for each child, with the key of the child in front. -/
def lift (f : α → List (List κ × α)) (l : List (κ × α)) : List (List κ × α) :=
  l.flatMap fun kc => (f kc.2).map fun e => (kc.1 :: e.1, e.2)

/-- The nodes of a tree with their paths. -/
def nodes (t : α) : List (List κ × α) :=
  ([], t) :: (T.children t).attach.flatMap fun kc =>
    (nodes kc.1.2).map fun e => (kc.1.1 :: e.1, e.2)
termination_by T.size t
decreasing_by exact T.size_lt kc.2

/-- The nodes whose path meets the conditions. -/
def select : List (κ → Bool) → α → List (List κ × α)
  | [], t => [([], t)]
  | p :: ps, t => lift (select ps) ((T.children t).filter fun kc => p kc.1)

/-- The nodes at or below those. -/
def selectBelow (ps : List (κ → Bool)) (t : α) : List (List κ × α) :=
  (T.select ps t).flatMap fun e => (T.nodes e.2).map fun e' => (e.1 ++ e'.1, e'.2)

/-- The list has each node with a path such as `P` once, and no others. -/
def Enumerates (t : α) (P : List κ → Prop) (l : List α) : Prop :=
  ∃ ats : List (List κ × α), ats.map Prod.snd = l ∧ (ats.map Prod.fst).Nodup ∧
    ∀ path n, (path, n) ∈ ats ↔ T.At t path n ∧ P path

variable {T} {t n : α} {k : κ} {path : List κ} {ps : List (κ → Bool)}

theorem lift_map_snd (f : α → List (List κ × α)) (l : List (κ × α)) :
    (lift f l).map Prod.snd = (l.map Prod.snd).flatMap fun c => (f c).map Prod.snd := by
  rw [lift, List.map_flatMap, List.flatMap_map]
  simp only [List.map_map]
  rfl

theorem lift_flatMap_snd {β : Type*} (f : α → List (List κ × α)) (g : α → List β)
    (l : List (κ × α)) :
    ((lift f l).flatMap fun e => g e.2)
      = (l.map Prod.snd).flatMap fun c => (f c).flatMap fun e => g e.2 := by
  rw [lift, List.flatMap_assoc, List.flatMap_map]
  simp only [List.flatMap_map]

theorem nodes_eq : T.nodes t = ([], t) :: lift T.nodes (T.children t) := by
  rw [nodes, List.flatMap_subtype, List.unattach_attach]
  · rfl
  · intro kc h
    rfl

/-! ### Paths -/

theorem at_append_iff {pre post : List κ} :
    T.At t (pre ++ post) n ↔ ∃ m, T.At t pre m ∧ T.At m post n := by
  induction pre generalizing t with
  | nil => exact ⟨fun h => ⟨t, rfl, h⟩, fun ⟨m, hm, h⟩ => hm ▸ h⟩
  | cons k pre ih =>
      constructor
      · rintro ⟨c, hc, h⟩
        obtain ⟨m, hpre, hpost⟩ := ih.mp h
        exact ⟨m, ⟨c, hc, hpre⟩, hpost⟩
      · rintro ⟨m, ⟨c, hc, hpre⟩, hpost⟩
        exact ⟨c, hc, ih.mpr ⟨m, hpre, hpost⟩⟩

theorem Keyed.child {c : α} (h : T.Keyed t) (hc : (k, c) ∈ T.children t) : T.Keyed c :=
  fun path n hat => h (k :: path) n ⟨c, hc, hat⟩

theorem Keyed.at (h : T.Keyed t) (hat : T.At t path n) : T.Keyed n :=
  fun post m hpost => h (path ++ post) m (at_append_iff.mpr ⟨n, hat, hpost⟩)

theorem Keyed.keys_nodup (h : T.Keyed t) : ((T.children t).map Prod.fst).Nodup := h [] t rfl

theorem keyed_of_children (hkeys : ((T.children t).map Prod.fst).Nodup)
    (h : ∀ kc ∈ T.children t, T.Keyed kc.2) : T.Keyed t := by
  intro path n hat
  cases path with
  | nil =>
      cases hat
      exact hkeys
  | cons k path =>
      obtain ⟨c, hc, hat⟩ := hat
      exact h (k, c) hc path n hat

/-- A path leads to one node only. -/
theorem Keyed.at_unique (h : T.Keyed t) {m : α} (hn : T.At t path n) (hm : T.At t path m) :
    n = m := by
  induction path generalizing t with
  | nil => exact hn.trans hm.symm
  | cons k path ih =>
      obtain ⟨c, hc, hn⟩ := hn
      obtain ⟨d, hd, hm⟩ := hm
      have heq : (k, c) = (k, d) := List.inj_on_of_nodup_map h.keys_nodup hc hd rfl
      cases heq
      exact ih (h.child hc) hn hm

/-! ### Which nodes are listed -/

theorem mem_lift_iff {f : α → List (List κ × α)} {l : List (κ × α)} :
    (k :: path, n) ∈ lift f l ↔ ∃ c, (k, c) ∈ l ∧ (path, n) ∈ f c := by
  simp only [lift, List.mem_flatMap, List.mem_map, Prod.mk.injEq, List.cons.injEq]
  constructor
  · rintro ⟨⟨k', c⟩, hc, ⟨path', n'⟩, he, ⟨rfl, rfl⟩, rfl⟩
    exact ⟨c, hc, he⟩
  · rintro ⟨c, hc, he⟩
    exact ⟨(k, c), hc, (path, n), he, ⟨rfl, rfl⟩, rfl⟩

theorem nil_notMem_lift {f : α → List (List κ × α)} {l : List (κ × α)} :
    ([], n) ∉ lift f l := by
  simp [lift]

theorem mem_nodes_iff : (path, n) ∈ T.nodes t ↔ T.At t path n := by
  induction path generalizing t with
  | nil =>
      rw [nodes_eq, List.mem_cons, or_iff_left nil_notMem_lift, Prod.mk.injEq]
      exact and_iff_right rfl
  | cons k path ih =>
      rw [nodes_eq, List.mem_cons, or_iff_right (by simp), mem_lift_iff]
      simp only [ih]
      rfl

theorem mem_select_iff : (path, n) ∈ T.select ps t ↔ T.At t path n ∧ Meets ps path := by
  induction ps generalizing t path with
  | nil =>
      rw [select, List.mem_singleton, Prod.mk.injEq]
      constructor
      · rintro ⟨rfl, rfl⟩
        exact ⟨rfl, List.Forall₂.nil⟩
      · rintro ⟨hat, hmeets⟩
        cases hmeets
        exact ⟨rfl, hat⟩
  | cons p ps ih =>
      rw [select]
      cases path with
      | nil =>
          refine iff_of_false nil_notMem_lift ?_
          rintro ⟨-, hmeets⟩
          cases hmeets
      | cons k path =>
          rw [mem_lift_iff]
          simp only [List.mem_filter, ih]
          constructor
          · rintro ⟨c, ⟨hc, hp⟩, hat, hmeets⟩
            exact ⟨⟨c, hc, hat⟩, List.Forall₂.cons hp hmeets⟩
          · rintro ⟨⟨c, hc, hat⟩, hmeets⟩
            obtain ⟨hp, hmeets⟩ := List.forall₂_cons.mp hmeets
            exact ⟨c, ⟨hc, hp⟩, hat, hmeets⟩

theorem mem_selectBelow_iff :
    (path, n) ∈ T.selectBelow ps t ↔
      T.At t path n ∧ ∃ pre post, path = pre ++ post ∧ Meets ps pre := by
  simp only [selectBelow, List.mem_flatMap, List.mem_map, Prod.mk.injEq, Prod.exists,
    mem_select_iff, mem_nodes_iff]
  constructor
  · rintro ⟨pre, m, ⟨hpre, hmeets⟩, post, n', hpost, rfl, rfl⟩
    exact ⟨at_append_iff.mpr ⟨m, hpre, hpost⟩, pre, post, rfl, hmeets⟩
  · rintro ⟨hat, pre, post, rfl, hmeets⟩
    obtain ⟨m, hpre, hpost⟩ := at_append_iff.mp hat
    exact ⟨pre, m, ⟨hpre, hmeets⟩, post, n, hpost, rfl, rfl⟩

/-! ### No path is listed twice -/

/-- Listed under different prefixes of one length, paths are different. -/
theorem nodup_flatMap_append {β γ : Type*} {l : List β} {pre : β → List κ} {g : β → List γ}
    {post : γ → List κ} {len : Nat} (hlen : ∀ b ∈ l, (pre b).length = len)
    (hpre : (l.map pre).Nodup) (hg : ∀ b ∈ l, ((g b).map post).Nodup) :
    (l.flatMap fun b => (g b).map fun e => pre b ++ post e).Nodup := by
  rw [List.nodup_flatMap]
  constructor
  · intro b hb
    have hmap : (g b).map (fun e => pre b ++ post e) = ((g b).map post).map (pre b ++ ·) := by
      rw [List.map_map]
      rfl
    rw [hmap]
    exact (hg b hb).map (List.append_right_injective (pre b))
  · rw [List.Nodup, List.pairwise_map] at hpre
    refine hpre.imp_of_mem fun {b b'} hb hb' hne => ?_
    intro path h h'
    obtain ⟨e, -, rfl⟩ := List.mem_map.mp h
    obtain ⟨e', -, heq⟩ := List.mem_map.mp h'
    exact hne (List.append_inj_left heq.symm ((hlen b hb).trans (hlen b' hb').symm))

theorem lift_nodup {f : α → List (List κ × α)} {l : List (κ × α)}
    (hl : (l.map Prod.fst).Nodup) (hf : ∀ kc ∈ l, ((f kc.2).map Prod.fst).Nodup) :
    ((lift f l).map Prod.fst).Nodup := by
  have hmap : (lift f l).map Prod.fst
      = l.flatMap fun kc => (f kc.2).map fun e => [kc.1] ++ e.1 := by
    rw [lift, List.map_flatMap]
    simp only [List.map_map]
    rfl
  have hpre : (l.map fun kc => [kc.1]).Nodup := by
    have hsingle : l.map (fun kc => [kc.1]) = (l.map Prod.fst).map ([·]) := by
      rw [List.map_map]
      rfl
    rw [hsingle]
    exact hl.map List.singleton_injective
  rw [hmap]
  exact nodup_flatMap_append (fun _ _ => rfl) hpre hf

theorem nodes_nodup (h : T.Keyed t) : ((T.nodes t).map Prod.fst).Nodup := by
  induction hsize : T.size t using Nat.strongRecOn generalizing t with
  | ind size ih =>
      rw [nodes_eq, List.map_cons, List.nodup_cons]
      constructor
      · intro hnil
        obtain ⟨⟨path, n⟩, hmem, rfl⟩ := List.mem_map.mp hnil
        exact nil_notMem_lift hmem
      · refine lift_nodup h.keys_nodup fun kc hkc => ?_
        exact ih (T.size kc.2) (hsize ▸ T.size_lt hkc) (h.child hkc) rfl

theorem select_nodup (h : T.Keyed t) : ((T.select ps t).map Prod.fst).Nodup := by
  induction ps generalizing t with
  | nil => exact List.nodup_singleton _
  | cons p ps ih =>
      refine lift_nodup ?_ fun kc hkc => ?_
      · exact h.keys_nodup.sublist (List.filter_sublist.map Prod.fst)
      · exact ih (h.child (List.mem_of_mem_filter hkc))

theorem selectBelow_nodup (h : T.Keyed t) : ((T.selectBelow ps t).map Prod.fst).Nodup := by
  have hmap : (T.selectBelow ps t).map Prod.fst
      = (T.select ps t).flatMap fun e => (T.nodes e.2).map fun e' => e.1 ++ e'.1 := by
    rw [selectBelow, List.map_flatMap]
    simp only [List.map_map]
    rfl
  have hlen : ∀ e ∈ T.select ps t, e.1.length = ps.length := by
    rintro ⟨path, n⟩ he
    exact (mem_select_iff.mp he).2.length_eq.symm
  rw [hmap]
  refine nodup_flatMap_append hlen (select_nodup h) ?_
  rintro ⟨path, n⟩ he
  exact nodes_nodup (h.at (mem_select_iff.mp he).1)

/-! ### What is listed -/

theorem selectBelow_map_snd : (T.selectBelow ps t).map Prod.snd
    = (T.select ps t).flatMap fun e => (T.nodes e.2).map Prod.snd := by
  rw [selectBelow, List.map_flatMap]
  simp only [List.map_map]
  rfl

theorem select_enumerates (h : T.Keyed t) :
    T.Enumerates t (Meets ps) ((T.select ps t).map Prod.snd) :=
  ⟨T.select ps t, rfl, select_nodup h, fun _ _ => mem_select_iff⟩

theorem Enumerates.mem_iff {P : List κ → Prop} {l : List α} (h : T.Enumerates t P l) :
    n ∈ l ↔ ∃ path, T.At t path n ∧ P path := by
  obtain ⟨ats, rfl, -, hats⟩ := h
  simp only [List.mem_map, Prod.exists, exists_eq_right, hats]

theorem selectBelow_enumerates (h : T.Keyed t) :
    T.Enumerates t (fun path => ∃ pre post, path = pre ++ post ∧ Meets ps pre)
      ((T.selectBelow ps t).map Prod.snd) :=
  ⟨T.selectBelow ps t, rfl, selectBelow_nodup h, fun _ _ => mem_selectBelow_iff⟩

end KeyTree
