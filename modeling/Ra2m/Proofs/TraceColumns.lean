/-
Which traces can be converted.

A column is refused when two of its values have different types, and the type of a
value is chosen by the constructor it comes from: an address with two parts and a
strided pattern become arrays, other addresses and patterns numbers.  Every payload
with a history has a row, so the columns of the addresses and of the patterns are of
one type exactly when all payloads chose alike; the other columns always are.
-/
import Ra2m.Tools.Dataframe
import Ra2m.Proofs.Spans

namespace Ra2m

/-- The type of a value. -/
inductive TraceKind where
  | text
  | scalar
  | array
  deriving DecidableEq, Repr

def Traceable.kind : Traceable → TraceKind
  | text _ => .text
  | scalar _ => .scalar
  | array _ => .array

/-- The address has two parts. -/
def Addr.isPair : Addr → Bool
  | physVirt _ _ => true
  | range _ _ => true
  | _ => false

def Pattern.isStride : Pattern → Bool
  | stride _ _ _ => true
  | _ => false

/-- The values are all of one type. -/
def Uniform (traceables : List Traceable) : Prop :=
  ∀ t ∈ traceables, ∀ t' ∈ traceables, t.kind = t'.kind

theorem Addr.kind_toTraceable (a : Addr) :
    a.toTraceable.kind = if a.isPair then .array else .scalar := by
  cases a <;> rfl

theorem Pattern.kind_toTraceable (p : Pattern) :
    p.toTraceable.kind = if p.isStride then .array else .scalar := by
  cases p <;> rfl

theorem Command.kind_toTraceable (c : Command) : c.toTraceable.kind = .text := by
  cases c <;> rfl

theorem SubRangeAddr.kind_toTraceable (a : SubRangeAddr) : a.toTraceable.kind = .scalar := by
  cases a <;> rfl

/-! ### Columns -/

section

variable {PolarsError DataFrame : Type}

variable (PolarsError) in
/-- Values of a type are collected when all are of that type, and only the mixture is reported. -/
theorem collectAs_cases {β : Type} {pick : Traceable → Option β} {kind : TraceKind}
    (hpick : ∀ t, (∃ v, pick t = some v) ↔ t.kind = kind) (name : String) (ts : List Traceable) :
    ((∀ t ∈ ts, t.kind = kind) ∧
        ∃ vs, (collectAs pick name ts : Except (ParserError PolarsError) _) = .ok vs) ∨
      ((∃ t ∈ ts, t.kind ≠ kind) ∧
        (collectAs pick name ts : Except (ParserError PolarsError) _) =
          .error (.mixedTypes name)) := by
  by_cases hall : ∀ t ∈ ts, t.kind = kind
  · refine Or.inl ⟨hall, ExceptMap.exists_mapM_eq_ok fun t ht => ?_⟩
    obtain ⟨v, hv⟩ := (hpick t).mpr (hall t ht)
    exact ⟨v, by rw [hv]⟩
  · simp only [not_forall] at hall
    obtain ⟨t, ht, hne⟩ := hall
    refine Or.inr ⟨⟨t, ht, hne⟩, ?_⟩
    cases hres : (collectAs pick name ts : Except (ParserError PolarsError) _) with
    | ok vs =>
        obtain ⟨v, -, hv⟩ := ExceptMap.mapM_mem_left hres ht
        cases hp : pick t with
        | some v => exact absurd ((hpick t).mp ⟨v, hp⟩) hne
        | none =>
            rw [hp] at hv
            cases hv
    | error e =>
        obtain ⟨t', -, ht'⟩ := ExceptMap.mapM_error hres
        cases hp : pick t' with
        | some v =>
            rw [hp] at ht'
            cases ht'
        | none =>
            rw [hp] at ht'
            rw [← Except.error.inj ht']

theorem text?_iff (t : Traceable) : (∃ v, t.text? = some v) ↔ t.kind = .text := by
  cases t <;> simp [Traceable.text?, Traceable.kind]

theorem scalar?_iff (t : Traceable) : (∃ v, t.scalar? = some v) ↔ t.kind = .scalar := by
  cases t <;> simp [Traceable.scalar?, Traceable.kind]

theorem array?_iff (t : Traceable) : (∃ v, t.array? = some v) ↔ t.kind = .array := by
  cases t <;> simp [Traceable.array?, Traceable.kind]

/-- All values are of one type when they are of the type of the first. -/
theorem uniform_cons_iff {t : Traceable} {rest : List Traceable} :
    Uniform (t :: rest) ↔ ∀ t' ∈ t :: rest, t'.kind = t.kind := by
  constructor
  · exact fun h t' ht' => h t' ht' t List.mem_cons_self
  · exact fun h t₁ h₁ t₂ h₂ => (h t₁ h₁).trans (h t₂ h₂).symm

variable (PolarsError) in
/-- A column of one type is built; one of several types is reported by its name. -/
theorem toColumn_cases (name : String) (ts : List Traceable) :
    (Uniform ts ∧ ∃ c, (toColumn name ts : Except (ParserError PolarsError) _) = .ok c) ∨
      (¬ Uniform ts ∧
        (toColumn name ts : Except (ParserError PolarsError) _) = .error (.mixedTypes name)) := by
  cases ts with
  | nil => exact Or.inl ⟨fun t ht => (by cases ht), .null, rfl⟩
  | cons t rest =>
      rw [uniform_cons_iff]
      -- The three types differ in what is collected only.
      have hcol : ∀ {β : Type} (pick : Traceable → Option β) (mk : List β → Column),
          (∀ x, (∃ v, pick x = some v) ↔ x.kind = t.kind) →
          (toColumn name (t :: rest) : Except (ParserError PolarsError) _) =
            (collectAs pick name (t :: rest)).map mk →
          ((∀ t' ∈ t :: rest, t'.kind = t.kind) ∧
              ∃ c, (toColumn name (t :: rest) : Except (ParserError PolarsError) _) = .ok c) ∨
            ((¬ ∀ t' ∈ t :: rest, t'.kind = t.kind) ∧
              (toColumn name (t :: rest) : Except (ParserError PolarsError) _) =
                .error (.mixedTypes name)) := by
        intro β pick mk hpick heq
        rw [heq]
        rcases collectAs_cases PolarsError hpick name (t :: rest) with
          ⟨hall, vs, hvs⟩ | ⟨⟨t', ht', hne⟩, herr⟩
        · rw [hvs]
          exact Or.inl ⟨hall, mk vs, rfl⟩
        · rw [herr]
          exact Or.inr ⟨fun hall => hne (hall t' ht'), rfl⟩
      cases t with
      | text s => exact hcol Traceable.text? .text text?_iff rfl
      | scalar v => exact hcol Traceable.scalar? .scalar scalar?_iff rfl
      | array vs => exact hcol Traceable.array? .array array?_iff rfl

/-- A conversion reports mixed types when some column has values of several. -/
theorem toDataframe_mixedTypes_iff
    (newFrame : List (String × Column) → Except PolarsError DataFrame)
    (data : List (String × List Traceable)) :
    (∃ name, toDataframe newFrame data = .error (.mixedTypes name)) ↔
      ∃ col ∈ data, ¬ Uniform col.2 := by
  unfold toDataframe
  constructor
  · rintro ⟨name, hname⟩
    by_contra hnone
    simp only [not_exists, not_and, not_not] at hnone
    have hok : ∀ col ∈ data, ∃ c, ((toColumn col.1 col.2).map fun values => (col.1, values) :
        Except (ParserError PolarsError) _) = .ok c := by
      intro col hcol
      rcases toColumn_cases PolarsError col.1 col.2 with ⟨-, c, hc⟩ | ⟨hmix, -⟩
      · exact ⟨(col.1, c), by rw [hc]; rfl⟩
      · exact absurd (hnone col hcol) hmix
    obtain ⟨column, hcolumn⟩ := ExceptMap.exists_mapM_eq_ok hok
    simp only [hcolumn, bind, Except.bind] at hname
    cases hframe : newFrame column with
    | ok frame =>
        rw [hframe] at hname
        cases hname
    | error err =>
        rw [hframe] at hname
        cases hname
  · rintro ⟨col, hcol, hmix⟩
    cases hres : data.mapM fun col => ((toColumn col.1 col.2).map fun values => (col.1, values) :
        Except (ParserError PolarsError) _) with
    | ok column =>
        obtain ⟨c, -, hc⟩ := ExceptMap.mapM_mem_left hres hcol
        rcases toColumn_cases PolarsError col.1 col.2 with ⟨huni, -⟩ | ⟨-, herr⟩
        · exact absurd huni hmix
        · rw [herr] at hc
          cases hc
    | error e =>
        obtain ⟨col', -, hcol'⟩ := ExceptMap.mapM_error hres
        rcases toColumn_cases PolarsError col'.1 col'.2 with ⟨-, c, hc⟩ | ⟨-, herr⟩
        · rw [hc] at hcol'
          cases hcol'
        · rw [herr] at hcol'
          exact ⟨col'.1, by rw [← Except.error.inj hcol']; rfl⟩

end

/-! ### Rows -/

/-- The first handler of a history comes first among its uids and ticks. -/
theorem uidTick_cons {x : Handler} {rest : History} {l : List (Nat × Tick)}
    (h : History.uidTick (x :: rest) = .ok l) : ∃ e l', l = e :: l' := by
  unfold History.uidTick at h
  obtain ⟨uid, -, h⟩ := ExceptMap.bind_eq_ok_iff.mp h
  obtain ⟨tick, -, h⟩ := ExceptMap.bind_eq_ok_iff.mp h
  obtain ⟨l', -, h⟩ := ExceptMap.bind_eq_ok_iff.mp h
  exact ⟨_, l', (Except.ok.inj h).symm⟩

/-- A history with a handler has a span. -/
theorem exists_span {h : History} (hne : h ≠ []) {m : SortedMap Nat Span}
    (hspans : h.spans = .ok m) : ∃ e, e ∈ m.entries := by
  unfold History.spans at hspans
  obtain ⟨l, hl, hm⟩ := ExceptMap.bind_eq_ok_iff.mp hspans
  obtain rfl := Except.ok.inj hm
  cases h with
  | nil => exact absurd rfl hne
  | cons x rest =>
      obtain ⟨⟨uid, tick⟩, l', rfl⟩ := uidTick_cons hl
      have hfind := find?_spans ((uid, tick) :: l') uid
      rw [spanFrom, if_pos rfl] at hfind
      exact ⟨_, (SortedMap.find?_eq_some_iff _).mp hfind⟩

theorem traceRow_fields {id : Nat} {x : MemBus} {s : Nat × Span} {row : TraceRow}
    (h : MemBus.traceRow id x s = .ok row) : row.addr = x.addr ∧ row.pattern = x.pattern := by
  unfold MemBus.traceRow at h
  obtain ⟨d, -, hrow⟩ := ExceptMap.bind_eq_ok_iff.mp h
  obtain rfl := Except.ok.inj hrow
  exact ⟨rfl, rfl⟩

/-- Every row shows the address and the pattern of a payload, and every payload with a history is
shown by a row. -/
theorem traceRows_payloads {order : IterOrder} (horder : ∀ id es, (order id es).Perm es)
    {vec : List MemBus} {id : Nat} {rows : List TraceRow}
    (h : MemBus.traceRows order id vec = .ok rows) :
    (∀ row ∈ rows, ∃ x ∈ vec, row.addr = x.addr ∧ row.pattern = x.pattern) ∧
      ∀ x ∈ vec, x.trace ≠ [] → ∃ row ∈ rows, row.addr = x.addr ∧ row.pattern = x.pattern := by
  induction vec generalizing id rows with
  | nil =>
      obtain rfl := Except.ok.inj h
      exact ⟨fun _ hrow => (by cases hrow), fun _ hx => (by cases hx)⟩
  | cons x vec ih =>
      unfold MemBus.traceRows at h
      obtain ⟨m, hspans, h⟩ := ExceptMap.bind_eq_ok_iff.mp h
      obtain ⟨first, hrows, h⟩ := ExceptMap.bind_eq_ok_iff.mp h
      obtain ⟨rest, hrest, h⟩ := ExceptMap.bind_eq_ok_iff.mp h
      obtain rfl := Except.ok.inj h
      obtain ⟨hfrom, hto⟩ := ih hrest
      constructor
      · intro row hrow
        rcases List.mem_append.mp hrow with hrow | hrow
        · obtain ⟨s, -, hs⟩ := ExceptMap.mapM_mem_right hrows hrow
          exact ⟨x, List.mem_cons_self, traceRow_fields hs⟩
        · obtain ⟨y, hy, hfields⟩ := hfrom row hrow
          exact ⟨y, List.mem_cons_of_mem x hy, hfields⟩
      · intro y hy hne
        rcases List.mem_cons.mp hy with rfl | hy
        · obtain ⟨e, he⟩ := exists_span hne hspans
          obtain ⟨row, hrow, hs⟩ :=
            ExceptMap.mapM_mem_left hrows ((horder id m.entries).mem_iff.mpr he)
          exact ⟨row, List.mem_append_left rest hrow, traceRow_fields hs⟩
        · obtain ⟨row, hrow, hfields⟩ := hto y hy hne
          exact ⟨row, List.mem_append_right first hrow, hfields⟩

/-! ### Conversion of a trace -/

theorem uniform_map_of_kind {rows : List TraceRow} {f : TraceRow → Traceable} {kind : TraceKind}
    (h : ∀ row, (f row).kind = kind) : Uniform (rows.map f) := by
  intro t ht t' ht'
  obtain ⟨row, -, rfl⟩ := List.mem_map.mp ht
  obtain ⟨row', -, rfl⟩ := List.mem_map.mp ht'
  rw [h row, h row']

/-- The rows have a column of one type when any two of them have a value of the same type. -/
theorem uniform_map_iff {rows : List TraceRow} {f : TraceRow → Traceable} :
    Uniform (rows.map f) ↔ ∀ row ∈ rows, ∀ row' ∈ rows, (f row).kind = (f row').kind := by
  unfold Uniform
  simp only [List.mem_map, forall_exists_index, and_imp, forall_apply_eq_imp_iff₂]

/-- Of the columns of an export only the addresses and the patterns can be of several types. -/
theorem export_mixed_iff {order : IterOrder} {vec : List MemBus} {rows : List TraceRow}
    (hrows : MemBus.traceRows order 0 vec = .ok rows) {cols : List (String × List Traceable)}
    (h : MemBus.exportAsTraceableMap order vec = .ok cols) :
    (∃ col ∈ cols, ¬ Uniform col.2) ↔
      ¬ Uniform (rows.map fun v => v.addr.toTraceable) ∨
        ¬ Uniform (rows.map fun v => v.pattern.toTraceable) := by
  unfold MemBus.exportAsTraceableMap at h
  rw [hrows] at h
  obtain rfl := Except.ok.inj h
  have hscalar : ∀ f : TraceRow → Nat, Uniform (rows.map fun v => Traceable.scalar (f v)) :=
    fun f => uniform_map_of_kind fun row => (rfl : (Traceable.scalar (f row)).kind = .scalar)
  have hcmd : Uniform (rows.map fun v => v.cmd.toTraceable) :=
    uniform_map_of_kind fun row => Command.kind_toTraceable row.cmd
  have hsub : Uniform (rows.map fun v => v.subrangeAddr.toTraceable) :=
    uniform_map_of_kind fun row => SubRangeAddr.kind_toTraceable row.subrangeAddr
  simp only [List.mem_cons, List.not_mem_nil, or_false, exists_eq_or_imp, exists_eq_left, hscalar,
    hcmd, hsub, not_true_eq_false, false_or]

/-- **The conversion of a trace.**  An exported list of payloads with histories is not refused for
mixed types exactly when all addresses have two parts or none has, and all patterns are strided or
none is. -/
theorem toDataframe_not_mixed_iff {PolarsError DataFrame : Type}
    (newFrame : List (String × Column) → Except PolarsError DataFrame) (order : IterOrder)
    (horder : ∀ id es, (order id es).Perm es) (vec : List MemBus)
    (hne : ∀ x ∈ vec, x.trace ≠ []) (cols data : List (String × List Traceable))
    (hexp : MemBus.exportAsTraceableMap order vec = .ok cols) (hdata : data.Perm cols) :
    (∀ name, toDataframe newFrame data ≠ .error (.mixedTypes name)) ↔
      ∀ x ∈ vec, ∀ y ∈ vec, x.addr.isPair = y.addr.isPair ∧
        x.pattern.isStride = y.pattern.isStride := by
  obtain ⟨rows, hrows, -⟩ := ExceptMap.bind_eq_ok_iff.mp hexp
  obtain ⟨hfrom, hto⟩ := traceRows_payloads horder hrows
  have haddr : ∀ a b : Addr, a.toTraceable.kind = b.toTraceable.kind ↔ a.isPair = b.isPair := by
    intro a b
    rw [Addr.kind_toTraceable, Addr.kind_toTraceable]
    cases a.isPair <;> cases b.isPair <;> simp
  have hpat : ∀ p q : Pattern, p.toTraceable.kind = q.toTraceable.kind ↔
      p.isStride = q.isStride := by
    intro p q
    rw [Pattern.kind_toTraceable, Pattern.kind_toTraceable]
    cases p.isStride <;> cases q.isStride <;> simp
  have hmixed : (∃ name, toDataframe newFrame data = .error (.mixedTypes name)) ↔
      ¬ Uniform (rows.map fun v => v.addr.toTraceable) ∨
        ¬ Uniform (rows.map fun v => v.pattern.toTraceable) := by
    rw [toDataframe_mixedTypes_iff, ← export_mixed_iff hrows hexp]
    simp only [hdata.mem_iff]
  rw [← not_exists, hmixed, not_or, not_not, not_not, uniform_map_iff, uniform_map_iff]
  constructor
  · rintro ⟨ha, hp⟩ x hx y hy
    obtain ⟨row, hrow, hrowa, hrowp⟩ := hto x hx (hne x hx)
    obtain ⟨row', hrow', hrowa', hrowp'⟩ := hto y hy (hne y hy)
    have hka := ha row hrow row' hrow'
    have hkp := hp row hrow row' hrow'
    rw [hrowa, hrowa', haddr] at hka
    rw [hrowp, hrowp', hpat] at hkp
    exact ⟨hka, hkp⟩
  · intro hall
    constructor
    · intro row hrow row' hrow'
      obtain ⟨x, hx, hxa, -⟩ := hfrom row hrow
      obtain ⟨y, hy, hya, -⟩ := hfrom row' hrow'
      rw [hxa, hya, haddr]
      exact (hall x hx y hy).1
    · intro row hrow row' hrow'
      obtain ⟨x, hx, -, hxp⟩ := hfrom row hrow
      obtain ⟨y, hy, -, hyp⟩ := hfrom row' hrow'
      rw [hxp, hyp, hpat]
      exact (hall x hx y hy).2

/-- A read of four bytes at the address, with a master and a target in its history. -/
def tracedRead (addr : Addr) (pattern : Pattern) : MemBus :=
  { cmd := .read, addr, pattern, trace := [.base 1 0, .base 2 1, .base 3 0] }

/-- A Polars that accepts every list of columns and keeps their number. -/
def sameLength (cols : List (String × Column)) : Except Unit Nat := .ok cols.length

theorem toDataframe_not_mixed_iff_alike : ∃ cols,
    MemBus.exportAsTraceableMap (fun _ es => es)
        [tracedRead (.phys 0) (.simple 4), tracedRead (.virt 8) .unset] = .ok cols ∧
      ∀ name, toDataframe sameLength cols ≠ .error (.mixedTypes name) := by
  refine ⟨_, rfl, ?_⟩
  refine (toDataframe_not_mixed_iff sameLength (fun _ es => es) (fun _ es => List.Perm.refl es)
    [tracedRead (.phys 0) (.simple 4), tracedRead (.virt 8) .unset] ?_ _ _ rfl
    (List.Perm.refl _)).mpr ?_
  · simp [tracedRead]
  · simp [tracedRead, Addr.isPair, Pattern.isStride]

/-- A simple and a strided access on one port. -/
theorem toDataframe_mixed : ∃ cols,
    MemBus.exportAsTraceableMap (fun _ es => es)
        [tracedRead (.phys 0) (.simple 4), tracedRead (.phys 0) (.stride 4 8 2)] = .ok cols ∧
      toDataframe sameLength cols = .error (.mixedTypes "pattern") :=
  ⟨_, rfl, rfl⟩

end Ra2m
