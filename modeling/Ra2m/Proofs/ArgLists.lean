/-
Lists of pairs on the command line.

What a list looks like is written down as a grammar: names with blanks around them, pairs
with commas between them and behind the last.  A parser is exact on a text when it answers,
and answers with a result exactly when the text has that form, with the pairs in the order
in which they are written.

An empty entry is skipped wherever it stands, an entry with a wrong number of colons is an
error and an unknown name a panic.  So the reading of a list is exact when the empty entries
are all behind the last pair, or an error is found before any unknown name
(`pushPairs_exact_iff`).
-/
import Ra2m.Lib.ExceptMap
import Ra2m.Sim.ArgParse

namespace Ra2m

namespace ArgParse

variable {α β κ ν : Type}

/-! ### Names -/

def Blank (t : Text) : Prop := ∀ c ∈ t, isWhitespace c = true

/-- A name with blanks around it. -/
def Spells (names : List (String × α)) (a : α) (t : Text) : Prop :=
  ∃ name front back, (name, a) ∈ names ∧ t = front ++ name.toList ++ back ∧ Blank front ∧ Blank back

/-- A name as it is. -/
def SpellsExactly (names : List (String × α)) (a : α) (t : Text) : Prop :=
  ∃ name, (name, a) ∈ names ∧ t = name.toList

/-- A character that neither separates nor is blank. -/
def solid (c : Char) : Bool := c ≠ ':' && c ≠ ',' && c ≠ '=' && !isWhitespace c

/-- The names of an enumeration: different, not empty, and of solid characters. -/
structure Proper (names : List (String × α)) : Prop where
  nodup : (names.map fun name => name.1.toList).Nodup
  nonempty : ∀ name ∈ names, name.1.toList ≠ []
  solid : ∀ name ∈ names, ∀ c ∈ name.1.toList, solid c = true

/-- No separator stands in the text. -/
def Plain (t : Text) : Prop := ':' ∉ t ∧ ',' ∉ t ∧ '=' ∉ t

/-- `f` reads the texts that spell something, and panics at all others. -/
structure Reads (f : Text → Exec α) (spells : α → Text → Prop) : Prop where
  ok_iff : ∀ t a, f t = .ok a ↔ spells a t
  plain : ∀ t a, spells a t → Plain t

/-- That the characters of all names are solid is computed. -/
theorem all_solid {names : List (String × α)}
    (h : (names.all fun name => name.1.toList.all ArgParse.solid) = true) :
    ∀ name ∈ names, ∀ c ∈ name.1.toList, ArgParse.solid c = true :=
  fun name hname => List.all_eq_true.mp (List.all_eq_true.mp h name hname)

theorem solid_plain {t : Text} (h : ∀ c ∈ t, solid c = true) : Plain t :=
  ⟨fun hc => absurd (h _ hc) (by decide), fun hc => absurd (h _ hc) (by decide),
    fun hc => absurd (h _ hc) (by decide)⟩

theorem blank_plain {t : Text} (h : Blank t) : Plain t :=
  ⟨fun hc => absurd (h _ hc) (by decide), fun hc => absurd (h _ hc) (by decide),
    fun hc => absurd (h _ hc) (by decide)⟩

theorem Plain.append {t u : Text} (ht : Plain t) (hu : Plain u) : Plain (t ++ u) :=
  ⟨fun h => (List.mem_append.mp h).elim ht.1 hu.1,
    fun h => (List.mem_append.mp h).elim ht.2.1 hu.2.1,
    fun h => (List.mem_append.mp h).elim ht.2.2 hu.2.2⟩

theorem variantOf_eq_some_iff {names : List (String × α)}
    (hnodup : (names.map fun name => name.1.toList).Nodup) (t : Text) (a : α) :
    variantOf names t = some a ↔ ∃ name, (name, a) ∈ names ∧ t = name.toList := by
  unfold variantOf
  induction names with
  | nil => exact iff_of_false (fun h => by cases h) (fun ⟨_, h, _⟩ => List.not_mem_nil h)
  | cons entry names ih =>
      obtain ⟨hnew, hrest⟩ := List.nodup_cons.mp hnodup
      by_cases hentry : entry.1.toList = t
      · rw [List.find?_cons_of_pos (by simpa using hentry), Option.map_some, Option.some_inj]
        constructor
        · rintro rfl
          exact ⟨entry.1, List.mem_cons_self, hentry.symm⟩
        · rintro ⟨name, hname, ht⟩
          rcases List.mem_cons.mp hname with heq | hmem
          · rw [← heq]
          · refine absurd (List.mem_map.mpr ⟨(name, a), hmem, ?_⟩) hnew
            exact ht.symm.trans hentry.symm
      · rw [List.find?_cons_of_neg (by simpa using hentry), ih hrest]
        constructor
        · rintro ⟨name, hname, ht⟩
          exact ⟨name, List.mem_cons_of_mem _ hname, ht⟩
        · rintro ⟨name, hname, ht⟩
          rcases List.mem_cons.mp hname with heq | hmem
          · exact absurd (heq ▸ ht.symm) hentry
          · exact ⟨name, hmem, ht⟩

theorem unwrapOr_eq_ok_iff {err : String} {x : Option α} {a : α} :
    unwrapOr err x = .ok a ↔ x = some a := by
  cases x with
  | none => exact iff_of_false (fun h => by cases h) (fun h => by cases h)
  | some b =>
      exact ⟨fun h => congrArg some (Except.ok.inj h), fun h => congrArg _ (Option.some.inj h)⟩

theorem unwrap_eq_ok_iff {x : Option α} {a : α} : unwrap x = .ok a ↔ x = some a := by
  cases x with
  | none => exact iff_of_false (fun h => by cases h) (fun h => by cases h)
  | some b =>
      exact ⟨fun h => congrArg some (Except.ok.inj h), fun h => congrArg _ (Option.some.inj h)⟩

/-- A name that is trimmed before it is looked up. -/
theorem reads_trim {names : List (String × α)} (h : Proper names) (err : String) :
    Reads (fun t => unwrapOr err (variantOf names (trim t))) (Spells names) where
  ok_iff t a := by
    rw [unwrapOr_eq_ok_iff, variantOf_eq_some_iff h.nodup]
    have hblank : ∀ name, (name, a) ∈ names → (trim t = name.toList ↔
        ∃ front back, t = front ++ name.toList ++ back ∧ Blank front ∧ Blank back) := by
      intro name hname
      refine Splitting.trim_eq_iff (h.nonempty _ hname) fun c hc => ?_
      have hsolid := h.solid _ hname c hc
      unfold ArgParse.solid at hsolid
      simp only [Bool.and_eq_true, Bool.not_eq_true'] at hsolid
      exact hsolid.2
    constructor
    · rintro ⟨name, hname, htrim⟩
      obtain ⟨front, back, ht, hfront, hback⟩ := (hblank name hname).mp htrim
      exact ⟨name, front, back, hname, ht, hfront, hback⟩
    · rintro ⟨name, front, back, hname, ht, hfront, hback⟩
      exact ⟨name, hname, (hblank name hname).mpr ⟨front, back, ht, hfront, hback⟩⟩
  plain t a := by
    rintro ⟨name, front, back, hname, rfl, hfront, hback⟩
    exact ((blank_plain hfront).append (solid_plain (h.solid _ hname))).append (blank_plain hback)

/-- A name that is looked up as it is. -/
theorem reads_exactly {names : List (String × α)} (h : Proper names) (err : String) :
    Reads (fun t => unwrapOr err (variantOf names t)) (SpellsExactly names) where
  ok_iff t a := by
    rw [unwrapOr_eq_ok_iff, variantOf_eq_some_iff h.nodup]
    rfl
  plain t a := by
    rintro ⟨name, hname, rfl⟩
    exact solid_plain (h.solid _ hname)

/-- The parser answers, and answers with a result exactly when there is one of the form. -/
def Exact (run : Exec (Except InvalidInput α)) (form : α → Prop) : Prop :=
  (∃ res, run = .ok res) ∧ ∀ a, run = .ok (.ok a) ↔ form a

/-- An error is exact where nothing has the form. -/
theorem exact_of_error {run : Exec (Except InvalidInput α)} {form : α → Prop} {e : InvalidInput}
    (hrun : run = .ok (.error e)) (hform : ∀ a, ¬ form a) : Exact run form :=
  ⟨⟨_, hrun⟩, fun a => iff_of_false (fun h => by cases Except.ok.inj (hrun.symm.trans h)) (hform a)⟩

/-- A panic is not exact. -/
theorem not_exact_error {form : α → Prop} {e : Panic} :
    ¬ Exact (.error e : Exec (Except InvalidInput α)) form := by
  rintro ⟨⟨res, h⟩, -⟩
  cases h

theorem unbrace_eq_ok_iff {t body : Text} : unbrace t = .ok body ↔ t = '{' :: (body ++ ['}']) := by
  unfold unbrace
  rw [ExceptMap.bind_eq_ok_iff]
  constructor
  · rintro ⟨inner, hinner, hbody⟩
    rw [Splitting.stripPrefix_eq_some_iff.mp (unwrap_eq_ok_iff.mp hinner),
      Splitting.stripSuffix_eq_some_iff.mp (unwrap_eq_ok_iff.mp hbody)]
  · rintro rfl
    exact ⟨body ++ ['}'], rfl, unwrap_eq_ok_iff.mpr (Splitting.stripSuffix_eq_some_iff.mpr rfl)⟩

theorem unbrace_unique {body body' : Text} (h : '{' :: (body ++ ['}']) = '{' :: (body' ++ ['}'])) :
    body = body' :=
  List.append_cancel_right (List.cons.inj h).2

/-! ### Pairs -/

section

variable {spellsK : κ → Text → Prop} {spellsV : ν → Text → Prop}

/-- `kv` is written as the key, a colon and the value of `p`. -/
def PairForm (spellsK : κ → Text → Prop) (spellsV : ν → Text → Prop) (kv : Text) (p : κ × ν) :
    Prop :=
  ∃ k v, kv = k ++ ':' :: v ∧ spellsK p.1 k ∧ spellsV p.2 v

/-- Pairs with commas between them and any number of commas behind them. -/
inductive ListForm (spellsK : κ → Text → Prop) (spellsV : ν → Text → Prop) :
    Text → List (κ × ν) → Prop
  | commas (n : Nat) : ListForm spellsK spellsV (List.replicate n ',') []
  | last {kv p} (h : PairForm spellsK spellsV kv p) : ListForm spellsK spellsV kv [p]
  | more {kv p body ps} (h : PairForm spellsK spellsV kv p)
      (hrest : ListForm spellsK spellsV body ps) :
      ListForm spellsK spellsV (kv ++ ',' :: body) (p :: ps)

/-- An entry that is skipped or a pair of known names. -/
def Taken (spellsK : κ → Text → Prop) (spellsV : ν → Text → Prop) (kv : Text) : Prop :=
  kv = [] ∨ ∃ p, PairForm spellsK spellsV kv p

/-- An entry without exactly one colon comes before any with an unknown name. -/
def Refused (spellsK : κ → Text → Prop) (spellsV : ν → Text → Prop) (entries : List Text) : Prop :=
  ∃ front kv back, entries = front ++ kv :: back ∧ kv ≠ [] ∧ kv.count ':' ≠ 1 ∧
    ∀ x ∈ front, Taken spellsK spellsV x

/-- The entries are pairs of known names with nothing but empty ones behind them, or they are
refused. -/
def Answered (spellsK : κ → Text → Prop) (spellsV : ν → Text → Prop) (body : Text) : Prop :=
  (∃ front n, body.splitOn ',' = front ++ List.replicate n [] ∧
    ∀ kv ∈ front, ∃ p, PairForm spellsK spellsV kv p) ∨
  Refused spellsK spellsV (body.splitOn ',')

variable {key : Text → Exec κ} {val : Text → Exec ν} (hkey : Reads key spellsK)
  (hval : Reads val spellsV) {kv body : Text} {entries : List Text}

include hkey hval

theorem pairForm_iff {p : κ × ν} : PairForm spellsK spellsV kv p ↔
    ∃ k v, kv.splitOn ':' = [k, v] ∧ key k = .ok p.1 ∧ val v = .ok p.2 := by
  constructor
  · rintro ⟨k, v, hkv, hk, hv⟩
    refine ⟨k, v, ?_, (hkey.ok_iff k p.1).mpr hk, (hval.ok_iff v p.2).mpr hv⟩
    exact Splitting.splitOn_eq_pair_iff.mpr ⟨hkv, (hkey.plain k _ hk).1, (hval.plain v _ hv).1⟩
  · rintro ⟨k, v, hsplit, hk, hv⟩
    obtain ⟨hkv, -, -⟩ := Splitting.splitOn_eq_pair_iff.mp hsplit
    exact ⟨k, v, hkv, (hkey.ok_iff k p.1).mp hk, (hval.ok_iff v p.2).mp hv⟩

/-- A pair has one colon and neither a comma nor an equals sign. -/
theorem PairForm.chars {p : κ × ν} (h : PairForm spellsK spellsV kv p) :
    kv ≠ [] ∧ kv.count ':' = 1 ∧ ',' ∉ kv ∧ '=' ∉ kv := by
  obtain ⟨k, v, rfl, hk, hv⟩ := h
  obtain ⟨hk1, hk2, hk3⟩ := hkey.plain k _ hk
  obtain ⟨hv1, hv2, hv3⟩ := hval.plain v _ hv
  refine ⟨List.append_ne_nil_of_right_ne_nil _ (List.cons_ne_nil _ _), ?_, ?_, ?_⟩
  · rw [List.count_append, List.count_cons_self, List.count_eq_zero.mpr hk1,
      List.count_eq_zero.mpr hv1]
  · simp [hk2, hv2]
  · simp [hk3, hv3]

theorem taken_of_refused (h : Refused spellsK spellsV (kv :: entries))
    (htaken : Taken spellsK spellsV kv) : Refused spellsK spellsV entries := by
  obtain ⟨front, e, back, hsplit, hne, hcount, hfront⟩ := h
  cases front with
  | nil =>
      obtain ⟨rfl, -⟩ := List.cons.inj hsplit
      rcases htaken with hempty | ⟨p, hp⟩
      · exact absurd hempty hne
      · exact absurd (hp.chars hkey hval).2.1 hcount
  | cons x front =>
      obtain ⟨rfl, hrest⟩ := List.cons.inj hsplit
      exact ⟨front, e, back, hrest, hne, hcount, fun y hy => hfront y (List.mem_cons_of_mem _ hy)⟩

/-- What is read are the pairs of the entries that are not empty. -/
theorem pushPairs_ok_iff (message : String) (pairs r : List (κ × ν)) (entries : List Text) :
    pushPairs key val message pairs entries = .ok (.ok r) ↔
      ∃ ps, r = pairs ++ ps ∧
        List.Forall₂ (PairForm spellsK spellsV) (entries.filter (· ≠ [])) ps := by
  induction entries generalizing pairs with
  | nil =>
      unfold pushPairs
      constructor
      · intro h
        obtain rfl := Except.ok.inj (Except.ok.inj h)
        exact ⟨[], (List.append_nil _).symm, .nil⟩
      · rintro ⟨ps, rfl, hps⟩
        cases hps
        rw [List.append_nil]
  | cons kv entries ih =>
      unfold pushPairs
      by_cases hempty : kv = []
      · rw [if_pos hempty, List.filter_cons_of_neg (by simpa using hempty)]
        exact ih pairs
      rw [if_neg hempty, List.filter_cons_of_pos (by simpa using hempty)]
      split
      · rename_i k v hsplit
        rw [ExceptMap.bind_eq_ok_iff]
        constructor
        · rintro ⟨c, hc, hrest⟩
          obtain ⟨d, hd, hrest⟩ := ExceptMap.bind_eq_ok_iff.mp hrest
          obtain ⟨ps, rfl, hps⟩ := (ih _).mp hrest
          refine ⟨(c, d) :: ps, List.append_assoc _ _ _, .cons ?_ hps⟩
          exact (pairForm_iff hkey hval).mpr ⟨k, v, hsplit, hc, hd⟩
        · rintro ⟨ps, rfl, hps⟩
          cases hps with
          | cons hp hps =>
              rename_i p ps
              obtain ⟨k', v', hsplit', hc, hd⟩ := (pairForm_iff hkey hval).mp hp
              obtain ⟨rfl, htail⟩ := List.cons.inj (hsplit.symm.trans hsplit')
              obtain ⟨rfl, -⟩ := List.cons.inj htail
              refine ⟨p.1, hc, ExceptMap.bind_eq_ok_iff.mpr ⟨p.2, hd, (ih _).mpr ⟨ps, ?_, hps⟩⟩⟩
              rw [List.append_assoc, List.singleton_append]
      · rename_i hother
        refine iff_of_false (fun h => by cases Except.ok.inj h) ?_
        rintro ⟨ps, -, hps⟩
        cases hps with
        | cons hp hps =>
            obtain ⟨k, v, hsplit, -, -⟩ := (pairForm_iff hkey hval).mp hp
            exact hother k v hsplit

/-- The entries are answered when all are taken or they are refused. -/
theorem pushPairs_returns_iff (message : String) (pairs : List (κ × ν)) (entries : List Text) :
    (∃ res, pushPairs key val message pairs entries = .ok res) ↔
      (∀ kv ∈ entries, Taken spellsK spellsV kv) ∨ Refused spellsK spellsV entries := by
  induction entries generalizing pairs with
  | nil => exact iff_of_true ⟨_, rfl⟩ (Or.inl fun kv h => by cases h)
  | cons kv entries ih =>
      have htaken : Taken spellsK spellsV kv →
          ((∀ x ∈ entries, Taken spellsK spellsV x) ∨ Refused spellsK spellsV entries ↔
          (∀ x ∈ kv :: entries, Taken spellsK spellsV x) ∨
            Refused spellsK spellsV (kv :: entries)) := by
        intro h
        refine or_congr (List.forall_mem_cons.trans (and_iff_right h)).symm ⟨?_, ?_⟩
        · rintro ⟨front, e, back, rfl, hne, hcount, hfront⟩
          exact ⟨kv :: front, e, back, rfl, hne, hcount, List.forall_mem_cons.mpr ⟨h, hfront⟩⟩
        · exact fun hrefused => taken_of_refused hkey hval hrefused h
      unfold pushPairs
      by_cases hempty : kv = []
      · rw [if_pos hempty]
        exact (ih pairs).trans (htaken (Or.inl hempty))
      rw [if_neg hempty]
      split
      · rename_i k v hsplit
        have hcount : kv.count ':' = 1 := by
          have hlen := Splitting.length_splitOn ':' kv
          rw [hsplit] at hlen
          exact (Nat.succ.inj hlen).symm
        by_cases hknown : ∃ p, PairForm spellsK spellsV kv p
        · obtain ⟨p, hp⟩ := hknown
          obtain ⟨k', v', hsplit', hc, hd⟩ := (pairForm_iff hkey hval).mp hp
          obtain ⟨rfl, htail⟩ := List.cons.inj (hsplit.symm.trans hsplit')
          obtain ⟨rfl, -⟩ := List.cons.inj htail
          rw [hc]
          dsimp only [bind, Except.bind]
          rw [hd]
          exact (ih _).trans (htaken (Or.inr ⟨p, hp⟩))
        · -- An unknown name: the parser panics, and no entry before it is at fault.
          refine iff_of_false ?_ ?_
          · rintro ⟨res, hres⟩
            obtain ⟨c, hc, hrest⟩ := ExceptMap.bind_eq_ok_iff.mp hres
            obtain ⟨d, hd, -⟩ := ExceptMap.bind_eq_ok_iff.mp hrest
            exact hknown ⟨(c, d), (pairForm_iff hkey hval).mpr ⟨k, v, hsplit, hc, hd⟩⟩
          · have hnot : ¬ Taken spellsK spellsV kv := fun h => h.elim hempty hknown
            rintro (hall | ⟨front, e, back, hsplit', hne, hcount', hfront⟩)
            · exact hnot (hall kv List.mem_cons_self)
            · cases front with
              | nil =>
                  obtain ⟨rfl, -⟩ := List.cons.inj hsplit'
                  exact hcount' hcount
              | cons x front =>
                  obtain ⟨rfl, -⟩ := List.cons.inj hsplit'
                  exact hnot (hfront _ List.mem_cons_self)
      · rename_i hother
        refine iff_of_true ⟨_, rfl⟩
          (Or.inr ⟨[], kv, entries, rfl, hempty, ?_, fun x h => by cases h⟩)
        intro hcount
        obtain ⟨k, v, hsplit⟩ := Splitting.splitOn_pair_of_count hcount
        exact hother k v hsplit

/-- The form of a list, in terms of what stands between the commas. -/
theorem listForm_iff {ps : List (κ × ν)} : ListForm spellsK spellsV body ps ↔
    ∃ front n, body.splitOn ',' = front ++ List.replicate n [] ∧
      List.Forall₂ (PairForm spellsK spellsV) front ps := by
  constructor
  · intro h
    induction h with
    | commas n => exact ⟨[], n + 1, Splitting.splitOn_replicate ',' n, .nil⟩
    | last hp =>
        refine ⟨_, 0, ?_, .cons hp .nil⟩
        exact List.splitOn_eq_singleton (hp.chars hkey hval).2.2.1
    | more hp _ ih =>
        obtain ⟨front, n, hsplit, hps⟩ := ih
        refine ⟨_, n, ?_, .cons hp hps⟩
        rw [List.splitOn_append_cons_self_of_not_mem (hp.chars hkey hval).2.2.1, hsplit]
        rfl
  · rintro ⟨front, n, hsplit, hps⟩
    induction hps generalizing body with
    | nil =>
        cases n with
        | zero => exact absurd hsplit (List.splitOn_ne_nil _ _)
        | succ n =>
            have hbody : body = List.replicate n ',' :=
              Splitting.splitOn_injective (hsplit.trans (Splitting.splitOn_replicate ',' n).symm)
            exact hbody ▸ .commas n
    | @cons kv p front ps hp hps ih =>
        obtain ⟨-, hone⟩ | ⟨x, rest, rfl, -, hmore⟩ := Splitting.splitOn_cases ',' body
        · obtain ⟨rfl, hnil⟩ := List.cons.inj (hone.symm.trans hsplit)
          obtain ⟨rfl, -⟩ := List.append_eq_nil_iff.mp hnil.symm
          cases hps
          exact .last hp
        · obtain ⟨rfl, hrest⟩ := List.cons.inj (hmore.symm.trans hsplit)
          exact .more hp (ih hrest)

theorem ListForm.no_eq {ps : List (κ × ν)} (h : ListForm spellsK spellsV body ps) : '=' ∉ body := by
  induction h with
  | commas n => exact fun h => absurd (List.eq_of_mem_replicate h) (by decide)
  | last hp => exact (hp.chars hkey hval).2.2.2
  | more hp _ ih =>
      intro hmem
      rcases List.mem_append.mp hmem with hmem | hmem
      · exact (hp.chars hkey hval).2.2.2 hmem
      · rcases List.mem_cons.mp hmem with heq | hmem
        · exact absurd heq (by decide)
        · exact ih hmem

omit hkey hval in
theorem exists_pairs {front : List Text} (h : ∀ kv ∈ front, ∃ p, PairForm spellsK spellsV kv p) :
    ∃ ps, List.Forall₂ (PairForm spellsK spellsV) front ps := by
  induction front with
  | nil => exact ⟨[], .nil⟩
  | cons kv front ih =>
      obtain ⟨p, hp⟩ := h kv List.mem_cons_self
      obtain ⟨ps, hps⟩ := ih fun x hx => h x (List.mem_cons_of_mem _ hx)
      exact ⟨p :: ps, .cons hp hps⟩

omit hkey hval in
theorem pairs_exist {front : List Text} {ps : List (κ × ν)}
    (h : List.Forall₂ (PairForm spellsK spellsV) front ps) :
    ∀ kv ∈ front, ∃ p, PairForm spellsK spellsV kv p := by
  induction h with
  | nil => exact fun kv h => by cases h
  | cons hp _ ih => exact List.forall_mem_cons.mpr ⟨⟨_, hp⟩, ih⟩

/-- The entries that are not empty are the pairs in front of the commas at the end. -/
theorem filter_pairs {front : List Text} (n : Nat)
    (h : ∀ kv ∈ front, ∃ p, PairForm spellsK spellsV kv p) :
    (front ++ List.replicate n []).filter (· ≠ []) = front := by
  have hne : ∀ kv ∈ front, decide (kv ≠ []) = true := by
    intro kv hkv
    obtain ⟨p, hp⟩ := h kv hkv
    exact decide_eq_true (hp.chars hkey hval).1
  rw [List.filter_append, List.filter_eq_self.mpr hne, List.filter_replicate]
  simp

theorem exact_of_pairs (message : String) {front : List Text} {n : Nat}
    (hsplit : body.splitOn ',' = front ++ List.replicate n [])
    (hfront : ∀ kv ∈ front, ∃ p, PairForm spellsK spellsV kv p) :
    Exact (pushPairs key val message [] (body.splitOn ',')) (ListForm spellsK spellsV body) := by
  constructor
  · refine (pushPairs_returns_iff hkey hval message [] _).mpr (Or.inl ?_)
    rw [hsplit]
    intro kv hkv
    rcases List.mem_append.mp hkv with hkv | hkv
    · exact Or.inr (hfront kv hkv)
    · exact Or.inl (List.eq_of_mem_replicate hkv)
  · intro ps
    rw [pushPairs_ok_iff hkey hval, listForm_iff hkey hval, hsplit, filter_pairs hkey hval n hfront]
    constructor
    · rintro ⟨ps', rfl, hps⟩
      exact ⟨front, n, rfl, hps⟩
    · rintro ⟨front', n', heq, hps⟩
      have hfront' := congrArg (List.filter (· ≠ [])) heq
      rw [filter_pairs hkey hval n hfront, filter_pairs hkey hval n' (pairs_exist hps)] at hfront'
      exact ⟨ps, rfl, hfront' ▸ hps⟩

/-- The entry at fault is in no list of the form, and no result is given. -/
theorem exact_of_refused (message : String)
    (h : Refused spellsK spellsV (body.splitOn ',')) :
    Exact (pushPairs key val message [] (body.splitOn ',')) (ListForm spellsK spellsV body) := by
  obtain ⟨front, e, back, hsplit, hempty, hcount, -⟩ := id h
  have hbad : ¬ Taken spellsK spellsV e := by
    rintro (h | ⟨p, hp⟩)
    · exact hempty h
    · exact hcount (hp.chars hkey hval).2.1
  have hmem : e ∈ body.splitOn ',' := hsplit ▸ List.mem_append_right _ List.mem_cons_self
  refine ⟨(pushPairs_returns_iff hkey hval message [] _).mpr (Or.inr h), fun ps =>
    iff_of_false ?_ ?_⟩
  · intro hok
    obtain ⟨ps', -, hps⟩ := (pushPairs_ok_iff hkey hval message [] ps _).mp hok
    refine hbad (Or.inr (pairs_exist hps e (List.mem_filter.mpr ⟨hmem, ?_⟩)))
    exact decide_eq_true hempty
  · intro hform
    obtain ⟨front', n', hsplit', hps⟩ := (listForm_iff hkey hval).mp hform
    rw [hsplit'] at hmem
    rcases List.mem_append.mp hmem with hmem | hmem
    · exact hbad (Or.inr (pairs_exist hps e hmem))
    · exact hbad (Or.inl (List.eq_of_mem_replicate hmem))

/-- The entries of a list are read exactly when they are answered. -/
theorem pushPairs_exact_iff (message : String) (body : Text) :
    Exact (pushPairs key val message [] (body.splitOn ',')) (ListForm spellsK spellsV body) ↔
      Answered spellsK spellsV body := by
  constructor
  · rintro ⟨hres, hform⟩
    rcases (pushPairs_returns_iff hkey hval message [] _).mp hres with hall | hrefused
    · left
      have hfilter : ∀ kv ∈ (body.splitOn ',').filter (· ≠ []),
          ∃ p, PairForm spellsK spellsV kv p := by
        intro kv hkv
        obtain ⟨hmem, hne⟩ := List.mem_filter.mp hkv
        exact (hall kv hmem).resolve_left (by simpa using hne)
      obtain ⟨ps, hps⟩ := exists_pairs hfilter
      have hok := (pushPairs_ok_iff hkey hval message [] ps _).mpr ⟨ps, rfl, hps⟩
      obtain ⟨front, n, hsplit, hfront⟩ := (listForm_iff hkey hval).mp ((hform ps).mp hok)
      exact ⟨front, n, hsplit, pairs_exist hfront⟩
    · exact Or.inr hrefused
  · rintro (⟨front, n, hsplit, hfront⟩ | hrefused)
    · exact exact_of_pairs hkey hval message hsplit hfront
    · exact exact_of_refused hkey hval message hrefused

/-- A comma in front of the first pair is no form of a list, and is passed over. -/
theorem leading_comma (message : String) {ps : List (κ × ν)} (h : ListForm spellsK spellsV body ps)
    (hne : ps ≠ []) :
    pushPairs key val message [] ((',' :: body).splitOn ',') = .ok (.ok ps) ∧
      ∀ ps', ¬ ListForm spellsK spellsV (',' :: body) ps' := by
  obtain ⟨front, n, hsplit, hps⟩ := (listForm_iff hkey hval).mp h
  have hcomma : (',' :: body).splitOn ',' = [] :: body.splitOn ',' :=
    List.splitOn_append_cons_self_of_not_mem List.not_mem_nil body
  constructor
  · have hanswered : Answered spellsK spellsV body := Or.inl ⟨front, n, hsplit, pairs_exist hps⟩
    rw [hcomma, pushPairs, if_pos rfl]
    exact (((pushPairs_exact_iff hkey hval message body).mpr hanswered).2 ps).mpr h
  · intro ps' h'
    obtain ⟨front', n', hsplit', hps'⟩ := (listForm_iff hkey hval).mp h'
    rw [hcomma, hsplit] at hsplit'
    cases hps' with
    | cons hp _ =>
        obtain ⟨rfl, -⟩ := List.cons.inj hsplit'
        exact (hp.chars hkey hval).1 rfl
    | nil =>
        cases hps with
        | nil => exact hne rfl
        | cons hp _ =>
            have hmem := hsplit' ▸
              List.mem_cons_of_mem _ (List.mem_append_left _ List.mem_cons_self)
            exact (hp.chars hkey hval).1 (List.eq_of_mem_replicate hmem)

/-- The entries of a list in braces are read exactly when they are answered. -/
theorem braced_exact_iff (message : String) (list : Text) :
    Exact (unbrace list >>= fun body => pushPairs key val message [] (body.splitOn ','))
        (fun ps => ∃ body, list = '{' :: (body ++ ['}']) ∧ ListForm spellsK spellsV body ps) ↔
      ∃ body, list = '{' :: (body ++ ['}']) ∧ Answered spellsK spellsV body := by
  cases hbody : unbrace list with
  | error e =>
      refine iff_of_false not_exact_error ?_
      rintro ⟨body, hlist, -⟩
      cases hbody.symm.trans (unbrace_eq_ok_iff.mpr hlist)
  | ok body =>
      have hlist := unbrace_eq_ok_iff.mp hbody
      have hbraces : ∀ {form : Text → Prop},
          (∃ body', list = '{' :: (body' ++ ['}']) ∧ form body') ↔ form body := by
        intro form
        constructor
        · rintro ⟨body', hlist', h⟩
          rwa [unbrace_unique (hlist.symm.trans hlist')]
        · exact fun h => ⟨body, hlist, h⟩
      rw [hbraces, ← pushPairs_exact_iff hkey hval message body]
      exact and_congr_right fun _ => forall_congr' fun ps => iff_congr Iff.rfl hbraces

end

/-- A parser that puts the result of another into a record is exact when that one is. -/
theorem exact_map_iff {run : Exec (Except InvalidInput α)} {f : α → β} {form : α → Prop}
    {form' : β → Prop} (hf : Function.Injective f) (hform : ∀ b, form' b ↔ ∃ a, f a = b ∧ form a) :
    Exact (run.map (Except.map f)) form' ↔ Exact run form := by
  have hreturns : (∃ res, run.map (Except.map f) = .ok res) ↔ ∃ res, run = .ok res := by
    cases run with
    | error e => exact iff_of_false (fun ⟨_, h⟩ => by cases h) (fun ⟨_, h⟩ => by cases h)
    | ok res => exact iff_of_true ⟨_, rfl⟩ ⟨_, rfl⟩
  have hok : ∀ b, run.map (Except.map f) = .ok (.ok b) ↔ ∃ a, f a = b ∧ run = .ok (.ok a) := by
    intro b
    rcases run with e | e | a
    · exact iff_of_false (fun h => by cases h) (fun ⟨_, _, h⟩ => by cases h)
    · exact iff_of_false (fun h => by cases Except.ok.inj h)
        (fun ⟨_, _, h⟩ => by cases Except.ok.inj h)
    · constructor
      · exact fun h => ⟨a, Except.ok.inj (Except.ok.inj h), rfl⟩
      · rintro ⟨a', rfl, h⟩
        rw [Except.ok.inj (Except.ok.inj h)]
        rfl
  unfold Exact
  rw [hreturns]
  refine and_congr_right fun _ => ⟨?_, ?_⟩
  · intro h a
    have hb := h (f a)
    rw [hok, hform] at hb
    constructor
    · intro hrun
      obtain ⟨a', ha', hform'⟩ := hb.mp ⟨a, rfl, hrun⟩
      exact hf ha' ▸ hform'
    · intro hform'
      obtain ⟨a', ha', hrun⟩ := hb.mpr ⟨a, rfl, hform'⟩
      exact hf ha' ▸ hrun
  · intro h b
    rw [hok, hform]
    exact exists_congr fun a => and_congr_right fun _ => h a

/-- A string with one equals sign, cut there; or a string of another form. -/
theorem cut_at_eq (t : Text) :
    (t.count '=' ≠ 1 ∧ ∀ path rest, t.splitOn '=' ≠ [path, rest]) ∨
      ∃ path rest, t.splitOn '=' = [path, rest] ∧ t = path ++ '=' :: rest ∧ t.count '=' = 1 ∧
        '=' ∉ path ∧ '=' ∉ rest := by
  by_cases hcount : t.count '=' = 1
  · obtain ⟨path, rest, hsplit⟩ := Splitting.splitOn_pair_of_count hcount
    obtain ⟨ht, hpath, hrest⟩ := Splitting.splitOn_eq_pair_iff.mp hsplit
    exact Or.inr ⟨path, rest, hsplit, ht, hcount, hpath, hrest⟩
  · refine Or.inl ⟨hcount, fun path rest hsplit => hcount ?_⟩
    have hlen := Splitting.length_splitOn '=' t
    rw [hsplit] at hlen
    exact (Nat.succ.inj hlen).symm

theorem count_eq_one {path rest : Text} (hpath : '=' ∉ path) (hrest : '=' ∉ rest) :
    (path ++ '=' :: rest).count '=' = 1 := by
  rw [List.count_append, List.count_cons_self, List.count_eq_zero.mpr hpath,
    List.count_eq_zero.mpr hrest]

end ArgParse

end Ra2m
