/-
Which arguments the command line takes.

A path without `=` stands in front of the list of an argument.  The parsers are not exact on
every string.  They unwrap: a missing colon or brace or an unknown name is a panic where an
entry with a wrong number of colons is an error.  And every empty entry of a list is skipped,
where only those behind the last pair are commas at the end.  What is left are the strings of
the form and those that are refused before anything is unwrapped that is not there.

The parser of times answers whatever the value is, unless the value is in femtoseconds and
does not fit a `usize`.
-/
import Ra2m.Proofs.ArgLists

namespace Ra2m

open ArgParse

theorem verbosity_names_proper : Proper Verbosity.names := ⟨by decide, by decide, all_solid rfl⟩

theorem category_names_proper : Proper Category.names := ⟨by decide, by decide, all_solid rfl⟩

theorem kind_names_proper : Proper HwTrace.Kind.names := ⟨by decide, by decide, all_solid rfl⟩

theorem bool_names_proper : Proper [("true", true), ("false", false)] :=
  ⟨by decide, by decide, all_solid rfl⟩

/-! ### The log -/

namespace LogArgs

/-- Nothing, or a list in braces. -/
def CatForm (list : Text) (ps : List (Category × Verbosity)) : Prop :=
  (list = [] ∧ ps = []) ∨
    ∃ body, list = '{' :: (body ++ ['}']) ∧
      ListForm (Spells Category.names) (Spells Verbosity.names) body ps

/-- Nothing, or braces that enclose a list that is answered. -/
def CatHandled (list : Text) : Prop :=
  list = [] ∨
    ∃ body, list = '{' :: (body ++ ['}']) ∧
      Answered (Spells Category.names) (Spells Verbosity.names) body

/-- `path=Verbosity:{Category:Verbosity,...}`, with blanks around the names; nothing needs to
stand behind the colon. -/
def Form (s : String) (args : LogArgs) : Prop :=
  ∃ dflt list, s.toList = args.path.toList ++ '=' :: (dflt ++ ':' :: list) ∧
    '=' ∉ args.path.toList ∧ Spells Verbosity.names args.dfltVerb dflt ∧ CatForm list args.catVerb

/-- There is not exactly one equals sign; or a known verbosity and a colon stand behind it, and
then nothing or braces that enclose a list that is answered. -/
def Handled (s : String) : Prop :=
  s.toList.count '=' ≠ 1 ∨
    ∃ path dflt list, s.toList = path ++ '=' :: (dflt ++ ':' :: list) ∧ '=' ∉ path ∧
      (∃ v, Spells Verbosity.names v dflt) ∧ CatHandled list

theorem cat_reads : Reads cat (Spells Category.names) :=
  reads_trim category_names_proper "VariantNotFound"

theorem verb_reads : Reads verb (Spells Verbosity.names) :=
  reads_trim verbosity_names_proper "VariantNotFound"

theorem CatForm.no_eq {list : Text} {ps : List (Category × Verbosity)} (h : CatForm list ps) :
    '=' ∉ list := by
  rcases h with ⟨rfl, -⟩ | ⟨body, rfl, hform⟩
  · exact List.not_mem_nil
  · simp [hform.no_eq cat_reads verb_reads]

theorem catVerb_exact_iff (list : Text) :
    Exact (catVerbFromStr list) (CatForm list) ↔ CatHandled list := by
  by_cases hnone : list = []
  · subst hnone
    refine iff_of_true ⟨⟨_, rfl⟩, fun ps => ⟨fun h => ?_, fun h => ?_⟩⟩ (Or.inl rfl)
    · exact Or.inl ⟨rfl, (Except.ok.inj (Except.ok.inj h)).symm⟩
    · rcases h with ⟨-, rfl⟩ | ⟨body, hbody, -⟩
      · rfl
      · cases hbody
  have hrun : catVerbFromStr list = unbrace list >>= fun body =>
      pushPairs cat verb "Invalid split, expected \"Category:Verbosity\"" []
        (body.splitOn ',') := by
    unfold catVerbFromStr
    split
    · rfl
    · rename_i hshort
      obtain rfl : list = ['{', '}'] := by
        by_contra hother
        exact hshort ⟨hnone, hother⟩
      rfl
  have hsome : ∀ {P Q : Prop}, (list = [] ∧ P) ∨ Q ↔ Q :=
    or_iff_right fun h => hnone h.1
  rw [hrun, CatHandled, or_iff_right hnone, ← braced_exact_iff cat_reads verb_reads]
  exact and_congr_right fun _ => forall_congr' fun ps => iff_congr Iff.rfl hsome

theorem fromStr_other {s : String} (h : ∀ path rest, s.toList.splitOn '=' ≠ [path, rest]) :
    ∃ e, fromStr s = .ok (.error e) := by
  unfold fromStr
  split
  · rename_i path rest hsplit
    exact absurd hsplit (h path rest)
  · exact ⟨_, rfl⟩

theorem fromStr_pair {s : String} {path rest : Text} (h : s.toList.splitOn '=' = [path, rest]) :
    fromStr s = (unwrap (Splitting.splitOnce ':' rest) >>= fun cut =>
      verb cut.1 >>= fun dfltVerb => (catVerbFromStr cut.2).map
        (Except.map fun catVerb => (⟨String.ofList path, dfltVerb, catVerb⟩ : LogArgs))) := by
  unfold fromStr
  rw [h]
  rfl

theorem exact_iff (s : String) : Exact (fromStr s) (Form s) ↔ Handled s := by
  obtain ⟨hcount, hsplit⟩ | ⟨path, rest, hsplit, hs, hcount, hpath, hrest⟩ := cut_at_eq s.toList
  · obtain ⟨e, hrun⟩ := fromStr_other hsplit
    refine iff_of_true (exact_of_error hrun fun args hform => hcount ?_) (Or.inl hcount)
    obtain ⟨dflt, list, hs, hpath, hdflt, hform⟩ := hform
    rw [hs]
    refine count_eq_one hpath ?_
    simp [(verb_reads.plain _ _ hdflt).2.2, hform.no_eq]
  · rw [fromStr_pair hsplit]
    -- What the grammar says of the string, it says of the parts that are cut off.
    have hcut : ∀ {path' dflt list}, s.toList = path' ++ '=' :: (dflt ++ ':' :: list) →
        '=' ∉ path' → ':' ∉ dflt →
          path = path' ∧ Splitting.splitOnce ':' rest = some (dflt, list) := by
      intro path' dflt list hs' hpath' hdflt
      obtain ⟨hpaths, hrests⟩ := Splitting.cut_unique (hs.symm.trans hs') hpath hpath'
      exact ⟨hpaths, Splitting.splitOnce_eq_some_iff.mpr ⟨hrests, hdflt⟩⟩
    cases honce : Splitting.splitOnce ':' rest with
    | none =>
        refine iff_of_false not_exact_error ?_
        rintro (h | ⟨path', dflt, list, hs', hpath', ⟨v, hv⟩, -⟩)
        · exact h hcount
        · cases honce.symm.trans (hcut hs' hpath' (verb_reads.plain _ _ hv).1).2
    | some cut =>
        obtain ⟨dflt, list⟩ := cut
        obtain ⟨hrest', hdflt⟩ := Splitting.splitOnce_eq_some_iff.mp honce
        show Exact (verb dflt >>= fun dfltVerb => (catVerbFromStr list).map
          (Except.map fun catVerb => (⟨String.ofList path, dfltVerb, catVerb⟩ : LogArgs))) _ ↔ _
        cases hverb : verb dflt with
        | error e =>
            refine iff_of_false not_exact_error ?_
            rintro (h | ⟨path', dflt', list', hs', hpath', ⟨v, hv⟩, -⟩)
            · exact h hcount
            · have honce' := (hcut hs' hpath' (verb_reads.plain _ _ hv).1).2
              obtain ⟨rfl, -⟩ := Prod.mk.inj (Option.some.inj (honce.symm.trans honce'))
              cases hverb.symm.trans ((verb_reads.ok_iff _ _).mpr hv)
        | ok v =>
            have hv := (verb_reads.ok_iff _ _).mp hverb
            refine (exact_map_iff ?_ fun args => ?_).trans ((catVerb_exact_iff list).trans ?_)
            · exact fun ps ps' h => (LogArgs.mk.inj h).2.2
            · constructor
              · rintro ⟨dflt', list', hs', hpath', hv', hform⟩
                obtain ⟨hpaths, honce'⟩ := hcut hs' hpath' (verb_reads.plain _ _ hv').1
                obtain ⟨rfl, rfl⟩ := Prod.mk.inj (Option.some.inj (honce.symm.trans honce'))
                have hverb' := hverb.symm.trans ((verb_reads.ok_iff _ _).mpr hv')
                refine ⟨args.catVerb, ?_, hform⟩
                rw [hpaths, String.ofList_toList, Except.ok.inj hverb']
              · rintro ⟨ps, rfl, hform⟩
                refine ⟨dflt, list, ?_, ?_, hv, hform⟩
                · rw [String.toList_ofList, ← hrest']
                  exact hs
                · rwa [String.toList_ofList]
            · constructor
              · exact fun h => Or.inr ⟨path, dflt, list, hrest' ▸ hs, hpath, ⟨v, hv⟩, h⟩
              · rintro (h | ⟨path', dflt', list', hs', hpath', ⟨v', hv'⟩, h⟩)
                · exact absurd hcount h
                · have honce' := (hcut hs' hpath' (verb_reads.plain _ _ hv').1).2
                  obtain ⟨-, rfl⟩ := Prod.mk.inj (Option.some.inj (honce.symm.trans honce'))
                  exact h

end LogArgs

/-! ### The trace -/

namespace TraceArgs

/-- `path={Kind:bool,...}`, with blanks around the kinds. -/
def Form (s : String) (args : TraceArgs) : Prop :=
  ∃ body, s.toList = args.path.toList ++ '=' :: '{' :: (body ++ ['}']) ∧ '=' ∉ args.path.toList ∧
    ListForm (Spells HwTrace.Kind.names) (SpellsExactly [("true", true), ("false", false)]) body
      args.kindVal

/-- There is not exactly one equals sign; or braces enclose a list that is answered. -/
def Handled (s : String) : Prop :=
  s.toList.count '=' ≠ 1 ∨
    ∃ path body, s.toList = path ++ '=' :: '{' :: (body ++ ['}']) ∧ '=' ∉ path ∧
      Answered (Spells HwTrace.Kind.names) (SpellsExactly [("true", true), ("false", false)]) body

theorem kind_reads : Reads kind (Spells HwTrace.Kind.names) :=
  reads_trim kind_names_proper "VariantNotFound"

theorem val_reads : Reads val (SpellsExactly [("true", true), ("false", false)]) :=
  reads_exactly bool_names_proper "ParseBoolError"

theorem fromStr_other {s : String} (h : ∀ path rest, s.toList.splitOn '=' ≠ [path, rest]) :
    ∃ e, fromStr s = .ok (.error e) := by
  unfold fromStr
  split
  · rename_i path rest hsplit
    exact absurd hsplit (h path rest)
  · exact ⟨_, rfl⟩

theorem fromStr_pair {s : String} {path list : Text} (h : s.toList.splitOn '=' = [path, list]) :
    fromStr s = (unbrace list >>= fun body =>
      pushPairs kind val "Invalid split, expected \"Kind:bool\"" [] (body.splitOn ',')).map
        (Except.map fun kindVal => (⟨String.ofList path, kindVal⟩ : TraceArgs)) := by
  unfold fromStr
  rw [h]
  cases hbody : unbrace list with
  | error e =>
      simp only [hbody]
      rfl
  | ok body =>
      simp only [hbody]
      rfl

theorem exact_iff (s : String) : Exact (fromStr s) (Form s) ↔ Handled s := by
  obtain ⟨hcount, hsplit⟩ | ⟨path, list, hsplit, hs, hcount, hpath, hlist⟩ := cut_at_eq s.toList
  · obtain ⟨e, hrun⟩ := fromStr_other hsplit
    refine iff_of_true (exact_of_error hrun fun args hform => hcount ?_) (Or.inl hcount)
    obtain ⟨body, hs, hpath, hform⟩ := hform
    rw [hs]
    refine count_eq_one hpath ?_
    simp [hform.no_eq kind_reads val_reads]
  · rw [fromStr_pair hsplit]
    refine (exact_map_iff ?_ fun args => ?_).trans
      ((braced_exact_iff kind_reads val_reads _ list).trans ?_)
    · exact fun ps ps' h => (TraceArgs.mk.inj h).2
    · constructor
      · rintro ⟨body, hs', hpath', hform⟩
        obtain ⟨hpaths, hlists⟩ := Splitting.cut_unique (hs.symm.trans hs') hpath hpath'
        refine ⟨args.kindVal, ?_, body, hlists, hform⟩
        rw [hpaths, String.ofList_toList]
      · rintro ⟨ps, rfl, body, rfl, hform⟩
        refine ⟨body, ?_, ?_, hform⟩
        · rw [String.toList_ofList]
          exact hs
        · rwa [String.toList_ofList]
    · constructor
      · rintro ⟨body, rfl, h⟩
        exact Or.inr ⟨path, body, hs, hpath, h⟩
      · rintro (h | ⟨path', body, hs', hpath', h⟩)
        · exact absurd hcount h
        · exact ⟨body, (Splitting.cut_unique (hs.symm.trans hs') hpath hpath').2, h⟩

end TraceArgs

/-! ### Times -/

/-- What is above -1 and below 2⁶⁴ is cut to a `usize`. -/
def F64.Fits (value : F64) : Prop := ∃ q, value = finite q ∧ -1 < q ∧ q < 2 ^ 64

theorem F64.toUsize_isSome_iff (value : F64) : (∃ t, value.toUsize = some t) ↔ value.Fits := by
  cases value with
  | nan => exact iff_of_false (fun ⟨_, h⟩ => by cases h) (fun ⟨_, h, _⟩ => by cases h)
  | inf negative => exact iff_of_false (fun ⟨_, h⟩ => by cases h) (fun ⟨_, h, _⟩ => by cases h)
  | finite q =>
      show (∃ t, (if -1 < q ∧ q < 2 ^ 64 then some (UInt64.ofNat ⌊q⌋₊) else none) = some t) ↔ _
      by_cases hq : -1 < q ∧ q < 2 ^ 64
      · rw [if_pos hq]
        exact iff_of_true ⟨_, rfl⟩ ⟨q, rfl, hq⟩
      · rw [if_neg hq]
        refine iff_of_false (fun ⟨_, h⟩ => by cases h) ?_
        rintro ⟨q', h, hq'⟩
        obtain rfl := F64.finite.inj h
        exact hq hq'

namespace ArgParse

/-- Unless it is in femtoseconds, the value may be anything. -/
def Time.Handled (parseF64 : Text → Option F64) (s : String) : Prop :=
  ∀ val value, s.toList = val ++ '_' :: "fs".toList → '_' ∉ val → parseF64 val = some value →
    value.Fits

theorem Time.returns_iff (parseF64 : Text → Option F64) (s : String) :
    (∃ res, Time.fromStr parseF64 s = .ok res) ↔ Time.Handled parseF64 s := by
  have hfs : ∀ val, s.toList = val ++ '_' :: "fs".toList ∧ '_' ∉ val ↔
      s.toList.splitOn '_' = [val, "fs".toList] := by
    intro val
    rw [Splitting.splitOn_eq_pair_iff]
    exact and_congr_right fun _ => (and_iff_left (by decide)).symm
  have hhandled : Time.Handled parseF64 s ↔ ∀ val value, s.toList.splitOn '_' = [val, "fs".toList] →
      parseF64 val = some value → value.Fits := by
    unfold Time.Handled
    refine forall₂_congr fun val value => ?_
    rw [← hfs val, and_imp]
  rw [hhandled]
  unfold Time.fromStr
  split
  · rename_i val unit hsplit
    split
    · rename_i hparse
      refine iff_of_true ⟨_, rfl⟩ fun val' value h hvalue => ?_
      obtain ⟨rfl, -⟩ := List.cons.inj (hsplit.symm.trans h)
      cases hparse.symm.trans hvalue
    · rename_i value hparse
      split
      · -- The unit is `fs`.
        rename_i hunit
        subst hunit
        trans value.Fits
        · rw [← F64.toUsize_isSome_iff]
          cases value.toUsize with
          | none => exact iff_of_false (fun ⟨_, h⟩ => by cases h) (fun ⟨_, h⟩ => by cases h)
          | some t => exact iff_of_true ⟨_, rfl⟩ ⟨t, rfl⟩
        · constructor
          · intro hfits val' value' h hvalue
            obtain ⟨rfl, -⟩ := List.cons.inj (hsplit.symm.trans h)
            rwa [Option.some.inj (hvalue.symm.trans hparse)]
          · exact fun h => h val value hsplit hparse
      · rename_i hunit
        refine iff_of_true ?_ fun val' value' h _ => ?_
        · split_ifs <;> exact ⟨_, rfl⟩
        · obtain ⟨-, htail⟩ := List.cons.inj (hsplit.symm.trans h)
          exact absurd (List.cons.inj htail).1 hunit
  · rename_i hother
    exact iff_of_true ⟨_, rfl⟩ fun val value h _ => absurd h (hother val _)

end ArgParse

/-- The parsers of the log and of the trace are exact, and that of times answers, on these
strings and on no others. -/
theorem parsers_exact_iff (parseF64 : Text → Option F64) (s : String) :
    (Exact (LogArgs.fromStr s) (LogArgs.Form s) ↔ LogArgs.Handled s) ∧
      (Exact (TraceArgs.fromStr s) (TraceArgs.Form s) ↔ TraceArgs.Handled s) ∧
      ((∃ res, ArgParse.Time.fromStr parseF64 s = .ok res) ↔
        ArgParse.Time.Handled parseF64 s) :=
  ⟨LogArgs.exact_iff s, TraceArgs.exact_iff s, ArgParse.Time.returns_iff parseF64 s⟩

/-- A missing colon, missing braces and a time that is no number end in a panic. -/
theorem parsers_panic :
    (LogArgs.fromStr "path=Info" = .error ⟨"called `Option::unwrap()` on a `None` value"⟩ ∧
        ¬ Exact (LogArgs.fromStr "path=Info") (LogArgs.Form "path=Info")) ∧
      (TraceArgs.fromStr "path=Payload:true" =
          .error ⟨"called `Option::unwrap()` on a `None` value"⟩ ∧
        ¬ Exact (TraceArgs.fromStr "path=Payload:true") (TraceArgs.Form "path=Payload:true")) ∧
      ArgParse.Time.fromStr (fun _ => some .nan) "nan_fs" =
        .error ⟨"called `Option::unwrap()` on a `None` value"⟩ := by
  have hlog : LogArgs.fromStr "path=Info" =
      .error ⟨"called `Option::unwrap()` on a `None` value"⟩ := rfl
  have htrace : TraceArgs.fromStr "path=Payload:true" =
      .error ⟨"called `Option::unwrap()` on a `None` value"⟩ := rfl
  refine ⟨⟨hlog, ?_⟩, ⟨htrace, ?_⟩, by decide⟩
  · rw [hlog]
    exact not_exact_error
  · rw [htrace]
    exact not_exact_error

end Ra2m
