/-
When a host stays inside its window.

The checks of the bridges and the check of the routing table compare the end of an
access, and that end is taken modulo 2^64.  As long as the true end is a number of 64
bits the comparison is the intended one.  A request whose end runs past the top of the
address space is taken for one that ends near 0, and it passes every check whose upper
bound lies above that: `contained_iff` says that this is all there is to it.
-/
import Ra2m.Cpn.HostRange
import Mathlib

namespace Ra2m

/-- The addresses from `lb` up to, not including, `ub`. -/
abbrev addresses (lb ub : Nat) : Set Nat := Set.Ico lb ub

namespace HostRequest

/-- The addresses of the request. -/
def span (self : HostRequest) : Set Nat :=
  addresses self.addr.toNat (self.addr.toNat + self.size.toNat)

end HostRequest

namespace H2sBridgeParams

/-- The window ends in the address space. -/
def NonWrapping (self : H2sBridgeParams) : Prop :=
  self.addrRange.1.toNat + self.addrRange.2.toNat < 2 ^ 64

instance (self : H2sBridgeParams) : Decidable self.NonWrapping :=
  inferInstanceAs (Decidable (_ < _))

/-- The addresses the host is allowed to reach. -/
def window (self : H2sBridgeParams) : Set Nat :=
  addresses self.addrRange.1.toNat (self.addrRange.1.toNat + self.addrRange.2.toNat)

end H2sBridgeParams

/-- Every range of the table ends in the address space. -/
def AddrRangeMap.NonWrapping (self : AddrRangeMap) : Prop :=
  ∀ e ∈ self.arMap.entries, e.1 + e.2.1 < 2 ^ 64

instance (self : AddrRangeMap) : Decidable self.NonWrapping :=
  inferInstanceAs (Decidable (∀ e ∈ _, _))

/-! ### Sums that wrap -/

theorem wrappingAdd_of_lt {a b : Nat} (h : a + b < 2 ^ 64) : wrappingAdd a b = a + b :=
  Nat.mod_eq_of_lt h

theorem wrappingAdd_of_le {a b : Nat} (ha : a < 2 ^ 64) (hb : b < 2 ^ 64) (h : 2 ^ 64 ≤ a + b) :
    wrappingAdd a b = a + b - 2 ^ 64 := by
  unfold wrappingAdd
  omega

theorem toNat_add_eq (a b : UInt64) : (a + b).toNat = wrappingAdd a.toNat b.toNat :=
  UInt64.toNat_add a b

/-- An access that runs past the top of the address space is in no window of it. -/
theorem not_subset_of_wraps {a n lb ub : Nat} (ha : a < 2 ^ 64) (hub : ub < 2 ^ 64)
    (h : 2 ^ 64 ≤ a + n) : ¬ addresses a (a + n) ⊆ addresses lb ub := by
  intro hsub
  have hlast : a + n - 1 ∈ addresses a (a + n) := by
    rw [Set.mem_Ico]
    omega
  have := (Set.mem_Ico.mp (hsub hlast)).2
  omega

/-! ### The checks -/

theorem H2sBridgeParams.inRange_iff {self : H2sBridgeParams} (hub : self.NonWrapping)
    (lb size : UInt64) :
    self.inRange lb size = true ↔ self.addrRange.1.toNat ≤ lb.toNat ∧
      wrappingAdd lb.toNat size.toNat ≤ self.addrRange.1.toNat + self.addrRange.2.toNat := by
  unfold H2sBridgeParams.inRange H2sBridgeParams.bridgeUb H2sBridgeParams.bridgeLb
  rw [Bool.and_eq_true, decide_eq_true_iff, decide_eq_true_iff, UInt64.le_iff_toNat_le,
    UInt64.le_iff_toNat_le, toNat_add_eq, toNat_add_eq, wrappingAdd_of_lt hub]

namespace HostRequest

variable {debugRead : ReadRequest → String} {debugWrite : WriteRequest → String}

/-- The three checks are one check of the address and the size. -/
theorem accepted_iff_inRange {self : H2sBridgeParams} {req : HostRequest} :
    req.Accepted debugRead debugWrite self ↔ self.inRange req.addr req.size = true := by
  have hcheck : ∀ {ε : Type} {e : ε} {b : Bool},
      (if b = true then Except.ok () else .error e : Except ε Unit) = .ok () ↔ b = true := by
    intro ε e b
    cases b with
    | false => simp
    | true => simp
  cases req with
  | ipc req =>
      cases req with
      | read addr sizeB => exact hcheck
      | write addr data => exact hcheck
  | rpcRead req => exact hcheck
  | rpcWrite req => exact hcheck

end HostRequest

/-- The table routes an access to the last range at or below it, when the end it takes for the
access is inside. -/
theorem AddrRangeMap.findPortWrapping_eq_ok_iff {self : AddrRangeMap} (hmap : self.NonWrapping)
    {addr size : UInt64} {o p : Nat} :
    self.findPortWrapping addr size = .ok (o, p) ↔
      ∃ s, self.arMap.lastLE addr.toNat = some (o, (s, p)) ∧
        wrappingAdd addr.toNat size.toNat ≤ o + s := by
  unfold findPortWrapping
  cases hlast : self.arMap.lastLE addr.toNat with
  | none => simp
  | some e =>
      obtain ⟨o', s', p'⟩ := e
      have hend : wrappingAdd o' s' = o' + s' :=
        wrappingAdd_of_lt (hmap (o', s', p') (self.arMap.lastLE_mem hlast).1)
      simp only [hend, Option.some.injEq, Prod.mk.injEq]
      split
      · rename_i hlt
        simp only [reduceCtorEq, false_iff, not_exists, not_and]
        rintro s ⟨rfl, rfl, rfl⟩
        omega
      · rename_i hge
        simp only [Except.ok.injEq, Prod.mk.injEq]
        constructor
        · rintro ⟨rfl, rfl⟩
          exact ⟨s', ⟨rfl, rfl, rfl⟩, by omega⟩
        · rintro ⟨s, ⟨rfl, rfl, rfl⟩, -⟩
          exact ⟨rfl, rfl⟩

/-- Without a wrap the table routes as it does over exact sums. -/
theorem AddrRangeMap.findPortWrapping_eq_findPort {self : AddrRangeMap} (hmap : self.NonWrapping)
    {addr size : UInt64} (hend : addr.toNat + size.toNat < 2 ^ 64) :
    self.findPortWrapping addr size = self.findPort addr.toNat size.toNat := by
  unfold findPortWrapping findPort
  cases hlast : self.arMap.lastLE addr.toNat with
  | none => rfl
  | some e =>
      have hrange : wrappingAdd e.1 e.2.1 = e.1 + e.2.1 :=
        wrappingAdd_of_lt (hmap _ (self.arMap.lastLE_mem hlast).1)
      simp only [hrange, wrappingAdd_of_lt hend]

/-! ### Containment -/

/-- What is let through stays in the window, and what is routed stays in the range it is routed
to. -/
structure Contained (debugRead : ReadRequest → String) (debugWrite : WriteRequest → String)
    (bridge : H2sBridgeParams) (map : AddrRangeMap) (req : HostRequest) : Prop where
  inWindow : req.Accepted debugRead debugWrite bridge → req.span ⊆ bridge.window
  inRange : ∀ o p, map.findPortWrapping req.addr req.size = .ok (o, p) →
    ∃ s, map.arMap.find? o = some (s, p) ∧ req.span ⊆ addresses o (o + s)

/-- The access ends in the address space, or its end modulo 2^64 is still refused by the window
and by the range at or below it. -/
def EndsInSpace (bridge : H2sBridgeParams) (map : AddrRangeMap) (addr size : Nat) : Prop :=
  addr + size < 2 ^ 64 ∨
    ((addr < bridge.addrRange.1.toNat ∨
        bridge.addrRange.1.toNat + bridge.addrRange.2.toNat < addr + size - 2 ^ 64) ∧
      ∀ e, map.arMap.lastLE addr = some e → e.1 + e.2.1 < addr + size - 2 ^ 64)

instance (bridge : H2sBridgeParams) (map : AddrRangeMap) (addr size : Nat) :
    Decidable (EndsInSpace bridge map addr size) :=
  inferInstanceAs (Decidable (_ ∨ (_ ∨ _) ∧ ∀ e, e ∈ map.arMap.lastLE addr → _))

variable {debugRead : ReadRequest → String} {debugWrite : WriteRequest → String}
variable {bridge : H2sBridgeParams} {map : AddrRangeMap} {req : HostRequest}

/-- An access that ends in the address space is checked as it should be. -/
theorem contained_of_lt (hub : bridge.NonWrapping) (hmap : map.NonWrapping)
    (hend : req.addr.toNat + req.size.toNat < 2 ^ 64) :
    Contained debugRead debugWrite bridge map req := by
  constructor
  · intro hacc
    rw [HostRequest.accepted_iff_inRange, bridge.inRange_iff hub, wrappingAdd_of_lt hend] at hacc
    exact Set.Ico_subset_Ico hacc.1 hacc.2
  · intro o p hfind
    rw [map.findPortWrapping_eq_ok_iff hmap, wrappingAdd_of_lt hend] at hfind
    obtain ⟨s, hlast, hle⟩ := hfind
    refine ⟨s, map.arMap.find?_eq_some_iff.mpr (map.arMap.lastLE_mem hlast).1, ?_⟩
    exact Set.Ico_subset_Ico (map.arMap.lastLE_mem hlast).2 hle

/-- An access that runs past the top is contained only if every check refuses its wrapped end. -/
theorem contained_iff_of_wraps (hub : bridge.NonWrapping) (hmap : map.NonWrapping)
    (hend : 2 ^ 64 ≤ req.addr.toNat + req.size.toNat) :
    Contained debugRead debugWrite bridge map req ↔
      ¬ req.Accepted debugRead debugWrite bridge ∧
        ∀ o p, map.findPortWrapping req.addr req.size ≠ .ok (o, p) := by
  constructor
  · rintro ⟨hwin, hrange⟩
    refine ⟨fun hacc => ?_, fun o p hfind => ?_⟩
    · exact not_subset_of_wraps req.addr.toNat_lt hub hend (hwin hacc)
    · obtain ⟨s, hget, hsub⟩ := hrange o p hfind
      have hub' := hmap _ (map.arMap.find?_eq_some_iff.mp hget)
      exact not_subset_of_wraps req.addr.toNat_lt hub' hend hsub
  · rintro ⟨hacc, hfind⟩
    exact ⟨fun h => absurd h hacc, fun o p h => absurd h (hfind o p)⟩

/-- **A host stays in its window exactly when no check is passed by an end that wrapped.** -/
theorem contained_iff (hub : bridge.NonWrapping) (hmap : map.NonWrapping) :
    Contained debugRead debugWrite bridge map req ↔
      EndsInSpace bridge map req.addr.toNat req.size.toNat := by
  unfold EndsInSpace
  rcases Nat.lt_or_ge (req.addr.toNat + req.size.toNat) (2 ^ 64) with hend | hend
  · exact ⟨fun _ => Or.inl hend, fun _ => contained_of_lt hub hmap hend⟩
  · have hwrap := wrappingAdd_of_le req.addr.toNat_lt req.size.toNat_lt hend
    rw [contained_iff_of_wraps hub hmap hend, HostRequest.accepted_iff_inRange,
      bridge.inRange_iff hub, hwrap, or_iff_right (by omega)]
    refine and_congr ?_ ?_
    · omega
    · constructor
      · rintro hno ⟨o, s, p⟩ hlast
        by_contra hle
        refine hno o p ((map.findPortWrapping_eq_ok_iff hmap).mpr ⟨s, hlast, ?_⟩)
        rw [hwrap]
        exact Nat.le_of_not_lt hle
      · intro hlt o p hfind
        obtain ⟨s, hlast, hle⟩ := (map.findPortWrapping_eq_ok_iff hmap).mp hfind
        rw [hwrap] at hle
        exact absurd (hlt _ hlast) (Nat.not_lt.mpr hle)

/-! ### A window of one page -/

/-- The 4096 bytes from 4096 on, for a bridge or as the only range of a table. -/
def onePage : H2sBridgeParams := ⟨(0x1000, 0x1000)⟩

def onePageMap : AddrRangeMap := ⟨SortedMap.empty.insert 0x1000 (0x1000, 0)⟩

theorem onePageMap_nonWrapping : onePageMap.NonWrapping := by decide

/-- A read of sixteen bytes from the last eight of the address space on. -/
def topRead : HostRequest := .ipc (.read 0xFFFFFFFFFFFFFFF8 0x10)

/-- A read inside the page is contained. -/
theorem contained_iff_pageRead :
    onePage.NonWrapping ∧ onePageMap.NonWrapping ∧
      (Contained (fun _ => "") (fun _ => "") onePage onePageMap (.ipc (.read 0x1000 0x10)) ↔
        EndsInSpace onePage onePageMap 0x1000 0x10) ∧
      Contained (fun _ => "") (fun _ => "") onePage onePageMap (.ipc (.read 0x1000 0x10)) := by
  have hub : onePage.NonWrapping := by decide
  refine ⟨hub, onePageMap_nonWrapping, contained_iff hub onePageMap_nonWrapping, ?_⟩
  exact (contained_iff hub onePageMap_nonWrapping).mpr (Or.inl (by decide))

/-- The read at the top of the address space is let through and routed. -/
theorem topRead_not_contained :
    ¬ (onePage.NonWrapping → onePageMap.NonWrapping →
      Contained (fun _ => "") (fun _ => "") onePage onePageMap topRead) := by
  intro h
  have hub : onePage.NonWrapping := by decide
  have hcont := h hub onePageMap_nonWrapping
  refine ((contained_iff_of_wraps hub onePageMap_nonWrapping (by decide)).mp hcont).1 ?_
  exact HostRequest.accepted_iff_inRange.mpr (by decide)

end Ra2m
