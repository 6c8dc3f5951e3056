/-
The span a history has for each uid.

The pass over the handlers gives every uid one span, from its first handler to its
last, or to the next handler when it has only one.  The last handler of all has no
next one, and the tuple the code falls back to then holds a zero in place of the
handler's own tick.  The zero stays in the map when the uid of that handler is new; it
is the only thing wrong with the map, and it makes the span end before it starts
unless the handler was at tick zero.
-/
import Ra2m.Sim.History
import Ra2m.Lib.ExceptMap

namespace Ra2m

/-! ### What the spans should be -/

/-- The tick of the last handler of the uid. -/
def lastTick (uid : Nat) (l : List (Nat × Tick)) : Option Tick :=
  ((l.filter fun e => e.1 = uid).getLast?).map Prod.snd

/-- The span of the uid, with `fallback` of its tick as the end where nothing follows. -/
def spanFrom (fallback : Tick → Tick) (uid : Nat) : List (Nat × Tick) → Option Span
  | [] => none
  | (uid', tick) :: rest =>
      if uid' = uid then
        some ⟨tick, (lastTick uid rest).getD ((rest.head?.map Prod.snd).getD (fallback tick))⟩
      else spanFrom fallback uid rest

/-- From the uid's first handler to its last one if it has several, else to the handler that follows
it, or to itself if none does. -/
def expectedSpan (uid : Nat) (l : List (Nat × Tick)) : Option Span := spanFrom id uid l

/-- The spans of a history are those expected, none ends before it starts, and neither taking their
durations nor exporting payloads with this history panics. -/
structure SpansOk (order : IterOrder) (h : History) (l : List (Nat × Tick))
    (m : SortedMap Nat Span) : Prop where
  expected : ∀ uid, m.find? uid = expectedSpan uid l
  ordered : ∀ e ∈ m.entries, e.2.start ≤ e.2.stop
  durations : ∀ e ∈ m.entries, e.2.duration = .ok (e.2.stop - e.2.start)
  exports : ∀ vec : List MemBus, (∀ x ∈ vec, x.trace = h) →
    ∃ cols, MemBus.exportAsTraceableMap order vec = .ok cols

@[simp] theorem lastTick_nil (uid : Nat) : lastTick uid [] = none := rfl

theorem lastTick_cons_self (uid : Nat) (tick : Tick) (rest : List (Nat × Tick)) :
    lastTick uid ((uid, tick) :: rest) = some ((lastTick uid rest).getD tick) := by
  unfold lastTick
  rw [List.filter_cons_of_pos (by simp), List.getLast?_cons]
  cases (rest.filter fun e => e.1 = uid).getLast? <;> rfl

theorem lastTick_cons_of_ne {uid uid' : Nat} (h : uid' ≠ uid) (tick : Tick)
    (rest : List (Nat × Tick)) : lastTick uid ((uid', tick) :: rest) = lastTick uid rest := by
  unfold lastTick
  rw [List.filter_cons_of_neg (by simpa using h)]

theorem lastTick_mem {uid : Nat} {l : List (Nat × Tick)} {t : Tick} (h : lastTick uid l = some t) :
    (uid, t) ∈ l := by
  unfold lastTick at h
  obtain ⟨e, he, rfl⟩ := Option.map_eq_some_iff.mp h
  have hmem := List.mem_filter.mp (List.mem_of_getLast? he)
  have huid : e.1 = uid := by simpa using hmem.2
  rw [← huid]
  exact hmem.1

/-! ### What the pass computes -/

/-- A uid the map has keeps its start; one it does not have gets its span from what is left. -/
theorem find?_spansLoop (l : List (Nat × Tick)) (m : SortedMap Nat Span) (uid : Nat) :
    (History.spansLoop m l).find? uid =
      match m.find? uid with
      | some x => some { x with stop := (lastTick uid l).getD x.stop }
      | none => spanFrom (fun _ => 0) uid l := by
  induction l generalizing m with
  | nil =>
      unfold History.spansLoop
      cases hm : m.find? uid with
      | none => rfl
      | some x => rfl
  | cons e rest ih =>
      obtain ⟨uid', tick⟩ := e
      unfold History.spansLoop
      rw [ih, SortedMap.find?_insert]
      by_cases huid : uid' = uid
      · subst huid
        rw [if_pos rfl]
        cases hm : m.find? uid' with
        | some x =>
            simp only [lastTick_cons_self, Option.getD_some]
        | none =>
            simp only [spanFrom, if_true]
            cases rest <;> rfl
      · rw [if_neg huid]
        cases hm : m.find? uid with
        | some x =>
            simp only [lastTick_cons_of_ne huid]
        | none =>
            simp only [spanFrom, if_neg huid]

/-- The map of a history. -/
theorem find?_spans (l : List (Nat × Tick)) (uid : Nat) :
    (History.spansLoop .empty l).find? uid = spanFrom (fun _ => 0) uid l := by
  rw [find?_spansLoop]
  rfl

/-! ### Where the fallback shows -/

/-- Only the span of the last handler, if its uid is new there, depends on the fallback. -/
theorem spanFrom_congr {f g : Tick → Tick} {uid : Nat} {l : List (Nat × Tick)}
    (h : ∀ pre t, l = pre ++ [(uid, t)] → uid ∉ pre.map Prod.fst → f t = g t) :
    spanFrom f uid l = spanFrom g uid l := by
  induction l with
  | nil => rfl
  | cons e rest ih =>
      obtain ⟨uid', tick⟩ := e
      unfold spanFrom
      by_cases huid : uid' = uid
      · rw [if_pos huid, if_pos huid]
        subst huid
        cases rest with
        | nil =>
            have hfg := h [] tick rfl (by simp)
            rw [hfg]
        | cons e' rest => rfl
      · rw [if_neg huid, if_neg huid]
        refine ih fun pre t hsplit hnew => h ((uid', tick) :: pre) t (by rw [hsplit]; rfl) ?_
        simp only [List.map_cons, List.mem_cons, not_or]
        exact ⟨Ne.symm huid, hnew⟩

/-- The span of the last handler, if its uid is new there. -/
theorem spanFrom_last {f : Tick → Tick} {uid : Nat} {t : Tick} {pre : List (Nat × Tick)}
    (hnew : uid ∉ pre.map Prod.fst) : spanFrom f uid (pre ++ [(uid, t)]) = some ⟨t, f t⟩ := by
  induction pre with
  | nil => simp [spanFrom]
  | cons e rest ih =>
      simp only [List.map_cons, List.mem_cons, not_or] at hnew
      rw [List.cons_append, spanFrom, if_neg (Ne.symm hnew.1)]
      exact ih hnew.2

/-! ### Spans of a history in order -/

/-- The expected spans of handlers in order of their ticks do not end before they start. -/
theorem expectedSpan_ordered {uid : Nat} {l : List (Nat × Tick)} {s : Span}
    (hmono : l.Pairwise fun a b => a.2 ≤ b.2) (h : expectedSpan uid l = some s) :
    s.start ≤ s.stop := by
  unfold expectedSpan at h
  induction l with
  | nil => cases h
  | cons e rest ih =>
      obtain ⟨uid', tick⟩ := e
      obtain ⟨hhead, hrest⟩ := List.pairwise_cons.mp hmono
      unfold spanFrom at h
      by_cases huid : uid' = uid
      · rw [if_pos huid] at h
        obtain rfl := Option.some.inj h
        cases hlast : lastTick uid rest with
        | some t => exact hhead _ (lastTick_mem hlast)
        | none =>
            cases rest with
            | nil => exact le_refl _
            | cons e' rest => exact hhead e' List.mem_cons_self
      · rw [if_neg huid] at h
        exact ih hrest h

/-! ### What the derive exports -/

/-- The rows of payloads are there when the durations of their spans are. -/
theorem exists_traceRows {order : IterOrder} (horder : ∀ id es, (order id es).Perm es)
    {vec : List MemBus} (h : ∀ x ∈ vec, ∃ m, History.spans x.trace = .ok m ∧
      ∀ e ∈ m.entries, ∃ d, e.2.duration = .ok d) (id : Nat) :
    ∃ rows, MemBus.traceRows order id vec = .ok rows := by
  induction vec generalizing id with
  | nil => exact ⟨[], rfl⟩
  | cons x vec ih =>
      obtain ⟨m, hspans, hdur⟩ := h x List.mem_cons_self
      have hall : ∀ e ∈ order id m.entries, ∃ row, MemBus.traceRow id x e = .ok row := by
        intro e he
        obtain ⟨d, hd⟩ := hdur e ((horder id m.entries).mem_iff.mp he)
        unfold MemBus.traceRow
        rw [hd]
        exact ⟨_, rfl⟩
      obtain ⟨rows, hrows⟩ := ExceptMap.exists_mapM_eq_ok hall
      obtain ⟨rest, hrest⟩ := ih (fun y hy => h y (List.mem_cons_of_mem x hy)) (id + 1)
      refine ⟨rows ++ rest, ?_⟩
      unfold MemBus.traceRows
      simp only [hspans, hrows, hrest, bind, Except.bind]

/-- **The spans of a history.**  They are those expected, in order, with durations that can be
exported, exactly when the last handler's uid occurs before it or its tick is zero. -/
theorem spans_ok_iff (order : IterOrder) (horder : ∀ id es, (order id es).Perm es) (h : History)
    (l : List (Nat × Tick)) (hset : h.uidTick = .ok l) (hmono : l.Pairwise fun a b => a.2 ≤ b.2) :
    ∃ m, h.spans = .ok m ∧
      (SpansOk order h l m ↔
        ∀ pre uid t, l = pre ++ [(uid, t)] → uid ∈ pre.map Prod.fst ∨ t = 0) := by
  have hspans : h.spans = .ok (History.spansLoop .empty l) := by
    unfold History.spans
    rw [hset]
    rfl
  refine ⟨_, hspans, ?_, ?_⟩
  · intro hok pre uid t hsplit
    by_cases hnew : uid ∈ pre.map Prod.fst
    · exact Or.inl hnew
    · have hspan := hok.expected uid
      rw [find?_spans, hsplit, spanFrom_last hnew, expectedSpan, spanFrom_last hnew] at hspan
      simp only [Option.some.injEq, Span.mk.injEq, id, true_and] at hspan
      exact Or.inr hspan.symm
  · intro hcond
    have hexpected : ∀ uid, (History.spansLoop .empty l).find? uid = expectedSpan uid l := by
      intro uid
      rw [find?_spans]
      refine spanFrom_congr fun pre t hsplit hnew => ?_
      rcases hcond pre uid t hsplit with hmem | hzero
      · exact absurd hmem hnew
      · exact hzero.symm
    have hordered : ∀ e ∈ (History.spansLoop .empty l).entries, e.2.start ≤ e.2.stop := by
      intro e he
      have hspan : expectedSpan e.1 l = some e.2 := by
        rw [← hexpected e.1]
        exact (SortedMap.find?_eq_some_iff _).mpr he
      exact expectedSpan_ordered hmono hspan
    have hdur : ∀ e ∈ (History.spansLoop .empty l).entries,
        e.2.duration = .ok (e.2.stop - e.2.start) := by
      intro e he
      unfold Span.duration
      rw [if_pos (hordered e he)]
    refine ⟨hexpected, hordered, hdur, ?_⟩
    intro vec hvec
    have hpay : ∀ x ∈ vec, ∃ m, History.spans x.trace = .ok m ∧
        ∀ e ∈ m.entries, ∃ d, e.2.duration = .ok d :=
      fun x hx => ⟨_, by rw [hvec x hx]; exact hspans, fun e he => ⟨_, hdur e he⟩⟩
    obtain ⟨rows, hrows⟩ := exists_traceRows horder hpay 0
    unfold MemBus.exportAsTraceableMap
    rw [hrows]
    exact ⟨_, rfl⟩

/-- An access and its way back to where it came from. -/
theorem spans_ok_iff_return : ∃ m,
    History.spans [.base 3 0, .base 5 1, .base 9 0] = .ok m ∧
      SpansOk (fun _ es => es) [.base 3 0, .base 5 1, .base 9 0] [(0, 3), (1, 5), (0, 9)] m := by
  obtain ⟨m, hm, hiff⟩ := spans_ok_iff (fun _ es => es) (fun _ es => List.Perm.refl es)
    [.base 3 0, .base 5 1, .base 9 0] [(0, 3), (1, 5), (0, 9)] rfl (by decide)
  refine ⟨m, hm, hiff.mpr ?_⟩
  intro pre uid t hsplit
  have hsplit : [(0, 3), (1, 5)] ++ [(0, 9)] = pre ++ [(uid, t)] := hsplit
  obtain ⟨hpre, hlast⟩ := List.append_inj' hsplit rfl
  obtain ⟨rfl, rfl⟩ := Prod.mk.inj (List.singleton_inj.mp hlast)
  rw [← hpre]
  exact Or.inl (by decide)

/-- The last component of an access that is not answered: its span ends at tick zero, and taking its
duration panics. -/
theorem spans_last_zero : ∃ m, History.spans [.base 3 0, .base 5 1] = .ok m ∧
    m.find? 1 = some ⟨5, 0⟩ ∧ expectedSpan 1 [(0, 3), (1, 5)] = some ⟨5, 5⟩ ∧
    Span.duration ⟨5, 0⟩ = .error ⟨"attempt to subtract with overflow"⟩ :=
  ⟨_, rfl, by decide, by decide, rfl⟩

end Ra2m
