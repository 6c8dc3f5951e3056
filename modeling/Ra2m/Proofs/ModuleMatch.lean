/-
An argument configures exactly the modules it describes.

`inner_match_recurse` is shown to give the nodes of the hierarchy that `KeyTree.select`
lists, or `KeyTree.selectBelow` with a wildcard at the end, whatever the number of areas it
starts from.  In a hierarchy the keys of an area are pairwise different, so each of these
nodes is there once, and each module has its own properties, so what is set for one of
them is set for no other.
-/
import Mathlib.Data.List.Induction
import Mathlib.Data.List.Infix
import Ra2m.Sim.Module

namespace Ra2m

/-- The modules of a hierarchy, by the keys that lead to them. -/
noncomputable def Module.tree : KeyTree String Module := ⟨Module.modules, sizeOf, Module.sizeOf_lt⟩

/-- A hierarchy: maps have each key once, and no two modules share their properties. -/
structure ModuleTree where
  root : Module
  keyed : Module.tree.Keyed root
  own : ∀ {path path' : List String} {m m' : Module}, Module.tree.At root path m →
    Module.tree.At root path' m' → m.properties.uid = m'.properties.uid → path = path'

/-- Whether the patterns describe the module at a path. -/
def Describes (ps : List (String → Bool)) : ImrMode → List String → Prop
  | .exactMatch, path => KeyTree.Meets ps path
  | _, path => ∃ pre post, path = pre ++ post ∧ KeyTree.Meets ps pre

/-! ### Hierarchies as they are built -/

namespace ModuleTree

theorem at_nil_of_modules {m n : Module} {path : List String} (hm : m.modules = [])
    (h : Module.tree.At m path n) : path = [] := by
  cases path with
  | nil => rfl
  | cons key path =>
      obtain ⟨c, hc, -⟩ := h
      have hmem : (key, c) ∈ m.modules := hc
      rw [hm] at hmem
      exact absurd hmem List.not_mem_nil

theorem at_single {m n : Module} {path : List String} (hm : m.modules = [])
    (h : Module.tree.At m path n) : n = m := by
  cases at_nil_of_modules hm h
  exact h

/-- A module with no inner modules. -/
def single (m : Module) (hm : m.modules = []) : ModuleTree where
  root := m
  keyed path n hat := by
    cases at_nil_of_modules hm hat
    cases hat
    show (m.modules.map Prod.fst).Nodup
    rw [hm]
    exact List.nodup_nil
  own hpath hpath' _ := (at_nil_of_modules hm hpath).trans (at_nil_of_modules hm hpath').symm

variable {props : Properties} {modules modules' : List (String × Module)} {module : Module}

/-- After `insert_module` a module of the area is below the inserted key, or was there. -/
theorem at_insertModule (props : Properties)
    (h : Module.insertModule modules module = some modules') :
    ∃ key, ∀ path m, Module.tree.At (.area props modules') path m →
      (∃ tail, path = key :: tail ∧ Module.tree.At module tail m) ∨
        ∃ m', Module.tree.At (.area props modules) path m' ∧
          m'.properties.uid = m.properties.uid := by
  obtain ⟨seg, -, h⟩ := Option.bind_eq_some_iff.mp h
  cases h
  refine ⟨String.ofList seg, fun path m hat => ?_⟩
  cases path with
  | nil =>
      cases hat
      exact .inr ⟨.area props modules, rfl, rfl⟩
  | cons key path =>
      obtain ⟨c, hc, hat⟩ := hat
      rcases List.mem_append.mp hc with hold | hnew
      · exact .inr ⟨m, ⟨c, List.mem_of_mem_filter hold, hat⟩, rfl⟩
      · cases List.mem_singleton.mp hnew
        exact .inl ⟨path, rfl, hat⟩

theorem insertModule_keyed (h : Module.insertModule modules module = some modules')
    (hkeyed : Module.tree.Keyed (.area props modules)) (hm : Module.tree.Keyed module) :
    Module.tree.Keyed (.area props modules') := by
  obtain ⟨seg, -, h⟩ := Option.bind_eq_some_iff.mp h
  cases h
  apply KeyTree.keyed_of_children
  · show ((modules.filter _ ++ [_]).map Prod.fst).Nodup
    rw [List.map_append, List.nodup_append]
    refine ⟨hkeyed.keys_nodup.sublist (List.filter_sublist.map Prod.fst),
      List.nodup_singleton _, ?_⟩
    intro key hkey key' hkey' heq
    obtain ⟨kv, hkv, rfl⟩ := List.mem_map.mp hkey
    have hne := of_decide_eq_true (List.mem_filter.mp hkv).2
    exact hne (heq.trans (List.mem_singleton.mp hkey'))
  · intro kv hkv
    rcases List.mem_append.mp hkv with hold | hnew
    · exact hkeyed.child (List.mem_of_mem_filter hold)
    · cases List.mem_singleton.mp hnew
      exact hm

/-- An area with a module inserted.  The module's properties are not those of the area nor of
the modules in it, since each has its `uid` from one counter. -/
def insert {props : Properties} (self : ModuleTree) (hself : self.root = .area props modules)
    (inner : ModuleTree) (h : Module.insertModule modules inner.root = some modules')
    (hfresh : ∀ {path path' : List String} {m m' : Module}, Module.tree.At self.root path m →
      Module.tree.At inner.root path' m' → m.properties.uid ≠ m'.properties.uid) :
    ModuleTree where
  root := .area props modules'
  keyed := insertModule_keyed h (hself ▸ self.keyed) inner.keyed
  own := by
    obtain ⟨key, hfrom⟩ := at_insertModule props h
    rw [hself] at hfresh
    have hown := hself ▸ @self.own
    intro path path' m m' hpath hpath' huid
    rcases hfrom path m hpath with ⟨tail, rfl, hin⟩ | ⟨n, hold, hn⟩ <;>
      rcases hfrom path' m' hpath' with ⟨tail', rfl, hin'⟩ | ⟨n', hold', hn'⟩
    · rw [inner.own hin hin' huid]
    · exact absurd (hn'.trans huid.symm) (hfresh hold' hin)
    · exact absurd (hn.trans huid) (hfresh hold hin')
    · exact hown hold hold' (hn.trans (huid.trans hn'.symm))

end ModuleTree

/-! ### What is matched -/

section Matching

variable {regex : String → Option (String → Bool)}

theorem innerMatch_eq {name : String} {p : String → Bool} (h : regex name = some p)
    (m : Module) :
    m.innerMatch regex name
      = some (((Module.tree.children m).filter fun kv => p kv.1).map Prod.snd) := by
  cases m with
  | flat props => rfl
  | area props modules =>
      rw [Module.innerMatch, h]
      rfl

theorem modules_of_isLeaf {m : Module} (h : m.isLeaf = true) : m.modules = [] := by
  cases m with
  | flat props => rfl
  | area props modules => exact List.isEmpty_iff.mp h

theorem nodes_map_snd (m : Module) :
    (Module.tree.nodes m).map Prod.snd
      = m :: (m.modules.map Prod.snd).flatMap fun c => (Module.tree.nodes c).map Prod.snd := by
  rw [KeyTree.nodes_eq, List.map_cons, KeyTree.lift_map_snd]
  rfl

/-- The mode `WrapUp` lists everything at or below the modules it is given. -/
theorem wrapUp_eq (hany : regex ".*" = some fun _ => true) (modules : List Module) :
    wrapUp regex modules
      = some (modules.flatMap fun m => (Module.tree.nodes m).map Prod.snd) := by
  have hnext : ∀ m : Module, m.innerMatch regex ".*" = some (m.modules.map Prod.snd) := by
    intro m
    rw [innerMatch_eq hany, List.filter_true]
    rfl
  induction modules using wrapUp.induct regex with
  | case1 => rw [wrapUp, List.flatMap_nil]
  | case2 curM modules ihInner ih =>
      rw [wrapUp, ih, List.flatMap_cons, nodes_map_snd]
      by_cases hleaf : curM.isLeaf = true
      · rw [if_pos hleaf, modules_of_isLeaf hleaf]
        rfl
      · rw [if_neg hleaf]
        split
        case h_1 hnone => exact absurd ((hnext curM).symm.trans hnone) (Option.some_ne_none _)
        case h_2 nextM hsome =>
          rw [ihInner nextM hsome]
          cases (hnext curM).symm.trans hsome
          rfl

/-- What a mode lists for each module that the segments lead to. -/
noncomputable def ImrMode.listed : ImrMode → Module → List Module
  | .exactMatch, m => [m]
  | _, m => (Module.tree.nodes m).map Prod.snd

theorem innerMatchRecurse_nil (hany : regex ".*" = some fun _ => true) (modules : List Module)
    (mode : ImrMode) :
    innerMatchRecurse regex modules [] mode = some (modules.flatMap mode.listed) := by
  cases mode with
  | exactMatch => exact congrArg some (List.flatMap_singleton' modules).symm
  | wildcard => exact wrapUp_eq hany modules
  | wrapUp => exact wrapUp_eq hany modules

theorem innerMatchRecurse_eq (hany : regex ".*" = some fun _ => true) (mode : ImrMode)
    {pathSeg : List String} {ps : List (String → Bool)} (h : pathSeg.mapM regex = some ps)
    (modules : List Module) :
    innerMatchRecurse regex modules pathSeg mode
      = some (modules.flatMap fun m =>
          (Module.tree.select ps m).flatMap fun e => mode.listed e.2) := by
  induction pathSeg generalizing modules ps with
  | nil =>
      rw [List.mapM_nil] at h
      cases h
      rw [innerMatchRecurse_nil hany]
      simp only [KeyTree.select, List.flatMap_cons, List.flatMap_nil, List.append_nil]
  | cons curSeg pathSeg ih =>
      rw [List.mapM_cons] at h
      obtain ⟨p, hp, h⟩ := Option.bind_eq_some_iff.mp h
      obtain ⟨ps', hps, h⟩ := Option.bind_eq_some_iff.mp h
      cases h
      -- What the rest of the segments leads to from the inner modules of one module.
      have hone : ∀ curM : Module,
          (do innerMatchRecurse regex (← curM.innerMatch regex curSeg) pathSeg mode)
            = some ((Module.tree.select (p :: ps') curM).flatMap fun e => mode.listed e.2) := by
        intro curM
        rw [innerMatch_eq hp, KeyTree.select, KeyTree.lift_flatMap_snd]
        exact ih hps _
      have hall := List.mapM_pure (m := Option) (l := modules) (f := fun curM =>
        (Module.tree.select (p :: ps') curM).flatMap fun e => mode.listed e.2)
      rw [innerMatchRecurse, funext hone]
      exact Option.bind_eq_some_iff.mpr ⟨_, hall, rfl⟩

theorem innerMatchRecurse_enumerates (hany : regex ".*" = some fun _ => true)
    (t : ModuleTree) (mode : ImrMode) {pathSeg : List String} {ps : List (String → Bool)}
    (h : pathSeg.mapM regex = some ps) :
    ∃ l, innerMatchRecurse regex [t.root] pathSeg mode = some l ∧
      Module.tree.Enumerates t.root (Describes ps mode) l := by
  rw [innerMatchRecurse_eq hany mode h, List.flatMap_singleton]
  refine ⟨_, rfl, ?_⟩
  have hbelow : Module.tree.Enumerates t.root (Describes ps .wildcard)
      ((Module.tree.selectBelow ps t.root).map Prod.snd) :=
    KeyTree.selectBelow_enumerates t.keyed
  rw [KeyTree.selectBelow_map_snd] at hbelow
  cases mode with
  | exactMatch =>
      have hone : (Module.tree.select ps t.root).flatMap (fun e => [e.2])
          = (Module.tree.select ps t.root).map Prod.snd := List.map_eq_flatMap.symm
      show Module.tree.Enumerates t.root _ ((Module.tree.select ps t.root).flatMap fun e => [e.2])
      rw [hone]
      exact KeyTree.select_enumerates t.keyed
  | wildcard => exact hbelow
  | wrapUp => exact hbelow

end Matching

/-! ### What is configured -/

/-- Assigned one after another, the last value given to a key stays. -/
theorem foldl_assign {σ α β : Type*} [DecidableEq α] (get : σ → α → β)
    (step : σ → α × β → σ)
    (hstep : ∀ s e, get (step s e) = Function.update (get s) e.1 e.2) (l : List (α × β))
    (s : σ) : get (l.foldl step s) = fun a => (l.reverse.lookup a).getD (get s a) := by
  induction l using List.reverseRecOn with
  | nil => rfl
  | append_singleton l e ih =>
      obtain ⟨a, b⟩ := e
      funext a'
      rw [List.foldl_append, List.reverse_append]
      show get (step (l.foldl step s) (a, b)) a' = _
      rw [hstep, ih]
      by_cases h : a' = a
      · subst h
        rw [Function.update_self]
        simp
      · have hne : (a' == a) = false := beq_eq_false_iff_ne.mpr h
        rw [Function.update_of_ne h]
        simp [List.lookup_cons, hne]

theorem LogFilter.replace_eq (self filter : LogFilter) : self.replace filter = filter := by
  have hbank : (self.replace filter).bank = filter.bank := by
    funext cat
    cases cat <;> rfl
  cases filter
  exact congrArg LogFilter.mk hbank

/-- What an argument sets the filter of a module to. -/
def LogArgs.filter (arg : LogArgs) : LogFilter :=
  ⟨fun cat => (arg.catVerb.reverse.lookup cat).getD arg.dfltVerb⟩

/-- What an argument makes of the trace flags of a module. -/
def TraceArgs.set (arg : TraceArgs) (trace : HwTrace) : HwTrace :=
  ⟨fun kind => (arg.kindVal.reverse.lookup kind).getD (trace.isOn kind)⟩

theorem foldl_set (arg : LogArgs) :
    arg.catVerb.foldl (fun filter (cat, verb) => filter.set cat verb)
      (LogFilter.new arg.dfltVerb) = arg.filter := by
  have hbank := foldl_assign LogFilter.bank (fun filter e => filter.set e.1 e.2)
    (fun _ _ => rfl) arg.catVerb (LogFilter.new arg.dfltVerb)
  exact congrArg LogFilter.mk hbank

theorem foldl_update (arg : TraceArgs) (trace : HwTrace) :
    arg.kindVal.foldl (fun trace (kind, val) => (trace.update kind val).1) trace
      = arg.set trace := by
  have hon := foldl_assign HwTrace.isOn (fun trace e => (trace.update e.1 e.2).1)
    (fun _ _ => rfl) arg.kindVal trace
  exact congrArg HwTrace.mk hon

/-- Exactly the modules at a path such as `P` are configured: `f` has one value for each
`uid`, and those of the described modules are set by `step`. -/
structure ConfiguresExactly {β : Type} (t : ModuleTree) (P : List String → Prop)
    (step : β → β) (f f' : Nat → β) : Prop where
  described : ∀ {path : List String} {m : Module}, Module.tree.At t.root path m → P path →
    f' m.properties.uid = step (f m.properties.uid)
  undescribed : ∀ {path : List String} {m : Module}, Module.tree.At t.root path m → ¬ P path →
    f' m.properties.uid = f m.properties.uid
  outside : ∀ uid, (∀ path m, Module.tree.At t.root path m → m.properties.uid ≠ uid) →
    f' uid = f uid

section Configured

variable {β : Type} {step : β → β}

/-- What `step` makes of the values of a list of modules, one after another. -/
def configure (step : β → β) (f : Nat → β) (l : List Module) : Nat → β :=
  l.foldl (fun f m =>
    let uid := m.properties.uid
    Function.update f uid (step (f uid))) f

theorem configure_of_notMem {l : List Module} {uid : Nat}
    (h : ∀ m ∈ l, m.properties.uid ≠ uid) (f : Nat → β) : configure step f l uid = f uid := by
  induction l generalizing f with
  | nil => rfl
  | cons m l ih =>
      obtain ⟨hm, hl⟩ := List.forall_mem_cons.mp h
      exact (ih hl _).trans (Function.update_of_ne hm.symm _ f)

theorem configure_of_mem {l : List Module} (hl : (l.map fun m => m.properties.uid).Nodup)
    {m : Module} (hm : m ∈ l) (f : Nat → β) :
    configure step f l m.properties.uid = step (f m.properties.uid) := by
  induction l generalizing f with
  | nil => exact absurd hm List.not_mem_nil
  | cons m' l ih =>
      obtain ⟨hnotMem, hl⟩ := List.nodup_cons.mp hl
      have hne : ∀ n ∈ l, n.properties.uid ≠ m'.properties.uid := fun n hn heq =>
        hnotMem (List.mem_map.mpr ⟨n, hn, heq⟩)
      let uid := m'.properties.uid
      rcases List.mem_cons.mp hm with rfl | hm
      · exact (configure_of_notMem hne (Function.update f uid (step (f uid)))).trans
          (Function.update_self uid _ f)
      · refine (ih hl hm (Function.update f uid (step (f uid)))).trans (congrArg step ?_)
        exact Function.update_of_ne (hne m hm) _ f

variable {t : ModuleTree} {P : List String → Prop} {l : List Module}

theorem ModuleTree.uids_nodup (h : Module.tree.Enumerates t.root P l) :
    (l.map fun m => m.properties.uid).Nodup := by
  obtain ⟨ats, rfl, hnodup, hats⟩ := h
  rw [List.map_map]
  refine List.Nodup.map_on ?_ hnodup.of_map
  rintro ⟨path, m⟩ hat ⟨path', m'⟩ hat' huid
  have hm := ((hats path m).mp hat).1
  have hm' := ((hats path' m').mp hat').1
  cases t.own hm hm' huid
  rw [t.keyed.at_unique hm hm']

theorem configure_exactly (h : Module.tree.Enumerates t.root P l) (f : Nat → β) :
    ConfiguresExactly t P step f (configure step f l) where
  described hat hP :=
    configure_of_mem (ModuleTree.uids_nodup h) (h.mem_iff.mpr ⟨_, hat, hP⟩) f
  undescribed {path m} hat hP := by
    refine configure_of_notMem (fun m' hm' huid => hP ?_) f
    obtain ⟨path', hat', hP'⟩ := h.mem_iff.mp hm'
    exact t.own hat' hat huid ▸ hP'
  outside uid hout := by
    refine configure_of_notMem (fun m hm => ?_) f
    obtain ⟨path, hat, -⟩ := h.mem_iff.mp hm
    exact hout path m hat

end Configured

section Arguments

variable {regex : String → Option (String → Bool)} {t : ModuleTree} {pathSeg : List String}
  {mode : ImrMode}

theorem applyLogArg_eq {l : List Module} {arg : LogArgs} (out : Outputs)
    (hseg : argSegments arg.path = (pathSeg, mode))
    (h : innerMatchRecurse regex [t.root] pathSeg mode = some l) :
    t.root.applyLogArg regex arg out
      = some ({ out with logFilter := configure (fun _ => arg.filter) out.logFilter l },
          l.length) := by
  have hfold : configure (fun self => self.replace arg.filter) out.logFilter l
      = configure (fun _ => arg.filter) out.logFilter l := by
    simp only [LogFilter.replace_eq]
  rw [Module.applyLogArg, foldl_set, hseg, ← hfold]
  exact Option.bind_eq_some_iff.mpr ⟨l, h, rfl⟩

theorem applyTraceArg_eq {l : List Module} {arg : TraceArgs} (out : Outputs)
    (hseg : argSegments arg.path = (pathSeg, mode))
    (h : innerMatchRecurse regex [t.root] pathSeg mode = some l) :
    t.root.applyTraceArg regex arg out
      = some ({ out with hwTrace := configure arg.set out.hwTrace l }, l.length) := by
  rw [Module.applyTraceArg, hseg]
  simp only [foldl_update]
  exact Option.bind_eq_some_iff.mpr ⟨l, h, rfl⟩

end Arguments

/-- Matching goes to exactly the modules the patterns describe, each once, and an argument
configures these and counts them. -/
theorem configures_described (regex : String → Option (String → Bool))
    (hany : regex ".*" = some fun _ => true) (t : ModuleTree) :
    (∀ pathSeg ps, pathSeg.mapM regex = some ps →
      (∃ l, innerMatchRecurse regex [t.root] pathSeg .exactMatch = some l ∧
        Module.tree.Enumerates t.root (fun path => KeyTree.Meets ps path) l) ∧
      ∃ l, innerMatchRecurse regex [t.root] pathSeg .wildcard = some l ∧
        Module.tree.Enumerates t.root
          (fun path => ∃ pre post, path = pre ++ post ∧ KeyTree.Meets ps pre) l) ∧
    (∀ (arg : LogArgs) (out : Outputs) pathSeg mode ps,
      argSegments arg.path = (pathSeg, mode) → pathSeg.mapM regex = some ps →
      ∃ l logFilter, Module.tree.Enumerates t.root (Describes ps mode) l ∧
        t.root.applyLogArg regex arg out = some ({ out with logFilter }, l.length) ∧
        ConfiguresExactly t (Describes ps mode) (fun _ => arg.filter) out.logFilter
          logFilter) ∧
    ∀ (arg : TraceArgs) (out : Outputs) pathSeg mode ps,
      argSegments arg.path = (pathSeg, mode) → pathSeg.mapM regex = some ps →
      ∃ l hwTrace, Module.tree.Enumerates t.root (Describes ps mode) l ∧
        t.root.applyTraceArg regex arg out = some ({ out with hwTrace }, l.length) ∧
        ConfiguresExactly t (Describes ps mode) arg.set out.hwTrace hwTrace := by
  refine ⟨fun pathSeg ps h => ⟨?_, ?_⟩, ?_, ?_⟩
  · exact innerMatchRecurse_enumerates hany t .exactMatch h
  · exact innerMatchRecurse_enumerates hany t .wildcard h
  · intro arg out pathSeg mode ps hseg h
    obtain ⟨l, hmatch, hl⟩ := innerMatchRecurse_enumerates hany t mode h
    have happly := applyLogArg_eq out hseg hmatch
    exact ⟨l, _, hl, happly, configure_exactly hl out.logFilter⟩
  · intro arg out pathSeg mode ps hseg h
    obtain ⟨l, hmatch, hl⟩ := innerMatchRecurse_enumerates hany t mode h
    have happly := applyTraceArg_eq out hseg hmatch
    exact ⟨l, _, hl, happly, configure_exactly hl out.hwTrace⟩

/-- A pattern that is plain text is looked for in the key. -/
def plainText (pattern : String) : Option (String → Bool) :=
  some fun key => pattern = ".*" ∨ pattern.toList <:+: key.toList

theorem plainText_any : plainText ".*" = some fun _ => true := by
  simp [plainText]

/-- An area with one module in it. -/
def ramAlone : ModuleTree :=
  (ModuleTree.single (.new ⟨0, "root"⟩) rfl).insert rfl
    (ModuleTree.single (.flat ⟨1, "root::ram"⟩) rfl) rfl fun hat hat' => by
      cases ModuleTree.at_single rfl hat
      cases ModuleTree.at_single rfl hat'
      decide

theorem configures_described_ram :
    argSegments "ra::*" = (["ra"], .wildcard) ∧
    ∃ l logFilter, Module.tree.Enumerates ramAlone.root
        (Describes [fun key => ("ra" : String) = ".*" ∨ "ra".toList <:+: key.toList] .wildcard)
        l ∧
      ramAlone.root.applyLogArg plainText ⟨"ra::*", .info, [(.port, .debug)]⟩
          ⟨fun _ => .new .error, fun _ => .new false⟩
        = some (⟨logFilter, fun _ => .new false⟩, l.length) ∧
      ConfiguresExactly ramAlone
        (Describes [fun key => ("ra" : String) = ".*" ∨ "ra".toList <:+: key.toList] .wildcard)
        (fun _ => (⟨"ra::*", .info, [(.port, .debug)]⟩ : LogArgs).filter)
        (fun _ => .new .error) logFilter :=
  ⟨by decide, (configures_described plainText plainText_any ramAlone).2.1 _ _ ["ra"] .wildcard _
    (by decide) rfl⟩

end Ra2m
