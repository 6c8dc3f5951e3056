/-
The address map a crossbar finds, and the memory behind it.

The ranges that the devices announce are inserted into the address map one after
another (`addrRangeLookup_announced`), so that ranges which do not share an address are
all in it, each with the port it was announced on.  The lookup waits for the end of
every list, and a device without a range never ends its list (`lookup_complete_iff`).

With the map found, the memories are one flat memory to the masters
(`discovered_memories_linearize`).
-/
import Ra2m.Cpn.Discovery
import Ra2m.Proofs.Linearize
import Ra2m.Proofs.Routing

namespace Ra2m

namespace AddrRangeMap

theorem insertAll_append (m : AddrRangeMap) (rs rs' : List Offer) :
    insertAll m (rs ++ rs') = (insertAll m rs).bind fun m' => insertAll m' rs' := by
  induction rs generalizing m with
  | nil => rfl
  | cons r rest ih =>
      simp only [List.cons_append, insertAll, bind]
      cases m.insertRange r.1 r.2.1 r.2.2 with
      | error err => rfl
      | ok m' => exact ih m'

end AddrRangeMap

namespace XBar

open AddrRangeMap

/-- The ranges of a list with their outbound port, as they are offered to the address map. -/
def offersOf (port : Nat) (ranges : List (Nat × Data)) : List Offer :=
  ranges.map fun r => (r.1, (r.2, port))

/-- The ranges of all ports, from port `i` on. -/
def offersFrom (i : Nat) (rangess : List (List (Nat × Data))) : List Offer :=
  (rangess.zipIdx i).flatMap fun e => offersOf e.2 e.1

/-- The requests announce the ranges, whatever comes after them. -/
def Announces (reqs : List MemBus) (ranges : List (Nat × Data)) : Prop :=
  ∃ pre last rest, reqs = pre ++ last :: rest ∧ last.EndsList ∧
    pre.map (fun req => (req.cmd, req.addr)) = ranges.map fun r => (.addrRange, .range r.1 r.2)

/-- Announced ranges are inserted one after another; what comes after the end of the list is left
alone. -/
theorem lookupPort_announced {port : Nat} {ranges : List (Nat × Data)} {m : AddrRangeMap}
    {reqs rest : List MemBus} {last : MemBus} (hlast : last.EndsList)
    (hreqs : reqs.map (fun req => (req.cmd, req.addr)) =
      ranges.map fun r => (.addrRange, .range r.1 r.2)) :
    lookupPort port m (reqs ++ last :: rest) =
      match insertAll m (offersOf port ranges) with
      | .ok m' => .ok (some m')
      | .error _ => .error ⟨"AddrMap insertion failed"⟩ := by
  induction ranges generalizing m reqs with
  | nil =>
      obtain rfl := List.map_eq_nil_iff.mp hreqs
      obtain ⟨hcmd, haddr⟩ := hlast
      simp only [List.nil_append, lookupPort, hcmd]
      cases hl : last.addr with
      | range addr size => exact absurd hl (haddr addr size)
      | unset => rfl
      | phys p => rfl
      | virt v => rfl
      | physVirt p v => rfl
  | cons r ranges ih =>
      cases reqs with
      | nil => cases hreqs
      | cons req reqs =>
          simp only [List.map_cons, List.cons.injEq, Prod.mk.injEq] at hreqs
          obtain ⟨⟨hcmd, haddr⟩, hreqs⟩ := hreqs
          simp only [List.cons_append, lookupPort, hcmd, haddr, offersOf, List.map_cons, insertAll]
          cases hins : m.insertRange r.1 r.2 port with
          | error err => rfl
          | ok m' => exact ih hreqs

/-- A lookup that finishes found the end of the list of every port. -/
theorem lookupPort_ends {port : Nat} {m m' : AddrRangeMap} {reqs : List MemBus}
    (h : lookupPort port m reqs = .ok (some m')) : ∃ req ∈ reqs, req.EndsList := by
  induction reqs generalizing m with
  | nil => cases h
  | cons req rest ih =>
      unfold lookupPort at h
      split at h
      · rename_i hcmd
        split at h
        · split at h
          · obtain ⟨last, hmem, hlast⟩ := ih h
            exact ⟨last, List.mem_cons_of_mem req hmem, hlast⟩
          · cases h
        · rename_i hne
          exact ⟨req, List.mem_cons_self, hcmd, hne⟩
      · cases h

/-- The lookup inserts the announced ranges of all ports. -/
theorem addrRangeLookup_announced {i : Nat} {m : AddrRangeMap} {ports : List (List MemBus)}
    {rangess : List (List (Nat × Data))} (h : List.Forall₂ Announces ports rangess) :
    addrRangeLookup i m ports =
      match insertAll m (offersFrom i rangess) with
      | .ok m' => .ok (some m')
      | .error _ => .error ⟨"AddrMap insertion failed"⟩ := by
  induction h generalizing i m with
  | nil => rfl
  | @cons reqs ranges ports rangess hhead _ ih =>
      obtain ⟨pre, last, rest, rfl, hlast, hpre⟩ := hhead
      have hoffers : offersFrom i (ranges :: rangess) =
          offersOf i ranges ++ offersFrom (i + 1) rangess := by
        simp [offersFrom]
      rw [hoffers, insertAll_append, addrRangeLookup, lookupPort_announced hlast hpre]
      cases insertAll m (offersOf i ranges) with
      | error err => rfl
      | ok m' => exact ih

theorem addrRangeLookup_ends {i : Nat} {m m' : AddrRangeMap} {ports : List (List MemBus)}
    (h : addrRangeLookup i m ports = .ok (some m')) :
    ∀ reqs ∈ ports, ∃ req ∈ reqs, req.EndsList := by
  induction ports generalizing i m with
  | nil => exact List.forall_mem_nil _
  | cons reqs rest ih =>
      unfold addrRangeLookup at h
      obtain ⟨out, hport, h⟩ := ExceptMap.bind_eq_ok_iff.mp h
      cases out with
      | none => cases h
      | some m₁ => exact List.forall_mem_cons.mpr ⟨lookupPort_ends hport, ih h⟩

end XBar

namespace Soc

open AddrRangeMap XBar

variable {self : Soc}

/-- The ranges of the memories that have one. -/
def offers (self : Soc) : List Offer := offersFrom 0 (self.devices.map Option.toList)

/-- The XBar with the given address map and the memories behind it. -/
def system (self : Soc) (m : AddrRangeMap) : MemSystem := ⟨self.xbar m, self.ram⟩

theorem mem_offersFrom {i : Nat} {devices : List (Option (Nat × Data))} {o : Nat} {s : Data}
    {port : Nat} : (o, (s, port)) ∈ offersFrom i (devices.map Option.toList) ↔
      i ≤ port ∧ devices[port - i]? = some (some (o, s)) := by
  simp only [offersFrom, List.mem_flatMap, List.mem_zipIdx_iff_le_and_getElem?_sub, Prod.exists,
    List.getElem?_map, Option.map_eq_some_iff, offersOf, List.mem_map, Prod.mk.injEq]
  constructor
  · rintro ⟨l, p, ⟨hle, d, hget, rfl⟩, a, b, hmem, rfl, rfl, rfl⟩
    obtain rfl := Option.mem_toList.mp hmem
    exact ⟨hle, hget⟩
  · rintro ⟨hle, hget⟩
    exact ⟨_, port, ⟨hle, _, hget, rfl⟩, o, s, Option.mem_toList.mpr rfl, rfl, rfl, rfl⟩

theorem mem_offers {o : Nat} {s : Data} {port : Nat} :
    (o, (s, port)) ∈ self.offers ↔ self.devices[port]? = some (some (o, s)) := by
  rw [offers, mem_offersFrom, Nat.sub_zero]
  exact and_iff_right (Nat.zero_le port)

/-- Each port is offered once. -/
theorem nodup_ports (i : Nat) (devices : List (Option (Nat × Data))) :
    ((offersFrom i (devices.map Option.toList)).map fun e => e.2.2).Nodup := by
  induction devices generalizing i with
  | nil => exact List.nodup_nil
  | cons d rest ih =>
      have hhead : offersFrom i ((d :: rest).map Option.toList) =
          offersOf i d.toList ++ offersFrom (i + 1) (rest.map Option.toList) := by
        simp [offersFrom]
      rw [hhead, List.map_append]
      refine List.Nodup.append ?_ (ih (i + 1)) ?_
      · cases d with
        | none => exact List.nodup_nil
        | some r => exact List.nodup_singleton _
      · intro port hport hlater
        obtain ⟨⟨o, s, p⟩, hmem, rfl⟩ := List.mem_map.mp hlater
        have hlt := (mem_offersFrom.mp hmem).1
        simp only [offersOf, List.map_map, List.mem_map] at hport
        obtain ⟨r, -, hr⟩ := hport
        exact absurd hr (by simp only [Function.comp_apply]; omega)

/-- A memory with a range announces it. -/
theorem announces_of_announce {fromUid : Nat} {now : Nat → Tick} {r : Nat × Data}
    {reqs : List MemBus} (h : MemBus.announce fromUid now (some r) = .ok reqs) :
    Announces reqs [r] := by
  obtain ⟨pre, last, hreqs, hlast, hpre⟩ :=
    MemBus.addrRangeRegister_ranges fromUid now 0 [r]
  obtain rfl := Except.ok.inj (hreqs.symm.trans h)
  exact ⟨pre, last, [], rfl, hlast, hpre⟩

/-- Where every memory has a range, every port announces its own. -/
theorem Announced.announces {ports : List (List MemBus)} (h : self.Announced ports)
    (hall : ∀ d ∈ self.devices, d ≠ none) :
    List.Forall₂ Announces ports (self.devices.map Option.toList) := by
  unfold Announced at h
  generalize self.devices = devices at h hall
  induction h with
  | nil => exact .nil
  | @cons reqs d ports devices hhead _ ih =>
      obtain ⟨fromUid, now, hann⟩ := hhead
      refine .cons ?_ (ih fun d hd => hall d (List.mem_cons_of_mem _ hd))
      cases d with
      | none => exact absurd rfl (hall none List.mem_cons_self)
      | some r => exact announces_of_announce hann

/-- The port of a memory without a range receives nothing. -/
theorem Announced.exists_nil {ports : List (List MemBus)} (h : self.Announced ports)
    (hnone : none ∈ self.devices) : [] ∈ ports := by
  unfold Announced at h
  generalize self.devices = devices at h hnone
  induction h with
  | nil => cases hnone
  | @cons reqs d ports devices hhead _ ih =>
      rcases List.mem_cons.mp hnone with rfl | hnone
      · obtain ⟨fromUid, now, hann⟩ := hhead
        rw [Except.ok.inj hann]
        exact List.mem_cons_self
      · exact List.mem_cons_of_mem _ (ih hnone)

/-- The lookup is complete exactly when every memory has a range, and then it has found them. -/
theorem lookup_complete {ports : List (List MemBus)} (h : self.Announced ports)
    (hapart : Apart self.offers) :
    ((∃ m, addrRangeLookup 0 .new ports = .ok (some m)) ↔ ∀ d ∈ self.devices, d ≠ none) ∧
      ∀ m, addrRangeLookup 0 .new ports = .ok (some m) →
        ∀ e, e ∈ m.arMap.entries ↔ e ∈ self.offers := by
  obtain ⟨m, hm, hmem⟩ := insertAll_perm hapart
  have hins : insertAll .new (offersFrom 0 (self.devices.map Option.toList)) = .ok m :=
    hm self.offers (List.Perm.refl _)
  have hall : (∃ m, addrRangeLookup 0 .new ports = .ok (some m)) →
      ∀ d ∈ self.devices, d ≠ none := by
    rintro ⟨m', hm'⟩ d hd rfl
    obtain ⟨req, hreq, -⟩ := addrRangeLookup_ends hm' [] (h.exists_nil hd)
    exact absurd hreq List.not_mem_nil
  have hlookup : (∀ d ∈ self.devices, d ≠ none) →
      addrRangeLookup 0 .new ports = .ok (some m) := by
    intro hsome
    rw [addrRangeLookup_announced (h.announces hsome), hins]
  refine ⟨⟨hall, fun hsome => ⟨m, hlookup hsome⟩⟩, fun m' hm' => ?_⟩
  have heq := (hlookup (hall ⟨m', hm'⟩)).symm.trans hm'
  obtain rfl := Option.some.inj (Except.ok.inj heq)
  exact hmem

/-- The memories behind a map that has the announced ranges share out the addresses. -/
theorem partitioned (hapart : Apart self.offers) {m : AddrRangeMap}
    (hmem : ∀ e, e ∈ m.arMap.entries ↔ e ∈ self.offers) : (self.system m).Partitioned := by
  have hnodup : self.offers.Nodup := List.Nodup.of_map _ (nodup_ports 0 self.devices)
  have hperm : m.arMap.entries.Perm self.offers :=
    (List.perm_ext_iff_of_nodup (List.Nodup.of_map _ m.arMap.nodup_keys) hnodup).mpr hmem
  refine ⟨fun e he => hapart.nonempty e ((hmem e).mp he), (hapart.perm hperm.symm).disjoint,
    ((hperm.map _).nodup_iff).mpr (nodup_ports 0 self.devices), fun e he => ?_⟩
  obtain ⟨o, s, port⟩ := e
  exact (List.getElem?_eq_some_iff.mp (mem_offers.mp ((hmem _).mp he))).1

/-- They start as a flat memory of zeros. -/
theorem simulates (hapart : Apart self.offers) {m : AddrRangeMap}
    (hmem : ∀ e, e ∈ m.arMap.entries ↔ e ∈ self.offers) {size : Data}
    (hsize : ∀ e ∈ self.offers, e.1 + e.2.1 ≤ size) :
    (self.system m).Simulates (MemoryChecker.start 0 size) := by
  refine ⟨partitioned hapart hmem, rfl, ?_, ?_⟩
  · intro e he
    rw [MemoryChecker.start, List.length_replicate]
    exact hsize e ((hmem e).mp he)
  · intro e he
    obtain ⟨o, s, port⟩ := e
    have hoffer := (hmem _).mp he
    rw [MemoryChecker.start, Window.read_replicate _ (hsize _ hoffer)]
    show (self.ram port).memory = _
    unfold ram
    rw [mem_offers.mp hoffer]
    rfl

/-- **From announcements to one memory.** The crossbar knows its address map exactly when every
memory on its outbound ports has a range; ranges that share no address and end in the address space
are then routed each to its own memory, no other access that ends there is, and to any number of
masters at once the memories are one. -/
theorem discovered_memories_linearize (self : Soc) (ports : List (List MemBus))
    (h : self.Announced ports) (hapart : Apart self.offers) (size : Data)
    (hsize : ∀ e ∈ self.offers, e.1 + e.2.1 ≤ size) (hspace : size < 2 ^ 64) :
    ((∃ m, addrRangeLookup 0 .new ports = .ok (some m)) ↔ ∀ d ∈ self.devices, d ≠ none) ∧
      ∀ m, addrRangeLookup 0 .new ports = .ok (some m) → m.NonWrapping ∧
        (∀ (addr len : UInt64) (ofst port : Nat), 0 < len.toNat →
          addr.toNat + len.toNat < 2 ^ 64 → (m.findPortWrapping addr len = .ok (ofst, port) ↔
            ∃ s, self.devices[port]? = some (some (ofst, s)) ∧ ofst ≤ addr.toNat ∧
              addr.toNat + len.toNat ≤ ofst + s)) ∧
        ∀ inflight acts s, (∀ a ∈ acts, (self.system m).Issues a) →
          Runs.run ((self.system m).xbar.net inflight).step (Stations.State.init self.ram) acts =
            some s →
          MemSystem.Linearized (self.system m) (List.replicate size 0) s := by
  obtain ⟨hiff, hfound⟩ := lookup_complete h hapart
  refine ⟨hiff, fun m hm => ?_⟩
  have hmap : m.NonWrapping := fun e he =>
    Nat.lt_of_le_of_lt (hsize e ((hfound m hm e).mp he)) hspace
  refine ⟨hmap, ?_, ?_⟩
  · intro addr len ofst port hlen hend
    rw [findPortWrapping_eq_findPort hmap hend, findPort_routed (hfound m hm) hapart hlen]
    simp only [mem_offers, access_subset_span hlen]
  · intro inflight acts s hacts hrun
    have hsim := simulates hapart (hfound m hm) hsize
    have hs := (MemSystem.Concurrent.init hsim).run hsim.partitioned hsim.covered
      (fun a ha => (hacts a ha).brings) hrun
    exact hs.linearized hsim.partitioned

/-- Two memories of four bytes, each announced on its own port. -/
def twoBanks : Soc := ⟨0, 2, [some (0, 4), some (4, 4)], fun port => port + 1⟩

/-- What its ports receive. -/
def twoBanksPorts : List (List MemBus) :=
  [[MemBus.new 0 1 .addrRange (.range 0 4) .unset none,
      MemBus.new 0 1 .addrRange .unset .unset none],
    [MemBus.new 0 2 .addrRange (.range 4 4) .unset none,
      MemBus.new 0 2 .addrRange .unset .unset none]]

theorem discovered_memories_linearize_twoBanks :
    ∃ m, addrRangeLookup 0 .new twoBanksPorts = .ok (some m) ∧
      m.findPortWrapping 5 2 = .ok (4, 1) := by
  have hann : twoBanks.Announced twoBanksPorts :=
    .cons ⟨1, fun _ => 0, rfl⟩ (.cons ⟨2, fun _ => 0, rfl⟩ .nil)
  have hapart : Apart twoBanks.offers := by
    refine ⟨by decide, ?_⟩
    show List.Pairwise _ [(0, (4, 0)), (4, (4, 1))]
    simp [disjoint_span_iff]
  obtain ⟨hiff, hfound⟩ :=
    discovered_memories_linearize twoBanks twoBanksPorts hann hapart 8 (by decide) (by decide)
  obtain ⟨m, hm⟩ := hiff.mpr (by decide)
  exact ⟨m, hm, ((hfound m hm).2.1 5 2 4 1 (by decide) (by decide)).mpr
    ⟨4, rfl, by decide, by decide⟩⟩

end Soc

end Ra2m
