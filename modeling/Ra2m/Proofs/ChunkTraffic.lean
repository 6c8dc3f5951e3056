/-
Random traffic over memories side by side (`examples/addr_map.rs`, `examples/gen_soc.rs`).

The examples put memories of one size one behind the other and let traffic generators
draw accesses over all of them, with that size as the chunk that no access may leave.
An access is routed exactly when it leaves no chunk and does not run past the last one
(`findPort_chunks`), and what a generator draws never does either (`draw_request`).  So
the crossbar refuses nothing of such traffic, and the memories answer it as one.
-/
import Ra2m.Proofs.Discovery
import Ra2m.Proofs.TrafficRange

namespace Ra2m

/-! ### What a generator draws -/

theorem Rng.Draws.bounds {S : Type} {rng : Rng S} (h : rng.Draws) {s t : S} {lo hi k : Nat}
    (hdraw : rng.randomRange s lo hi = .ok (k, t)) : lo ≤ k ∧ k < hi := by
  by_cases hlt : lo < hi
  · obtain ⟨k', t', hlo, hhi, hdraw'⟩ := h.drawn s lo hi hlt
    rw [hdraw', Except.ok.injEq, Prod.mk.injEq] at hdraw
    obtain ⟨rfl, -⟩ := hdraw
    exact ⟨hlo, hhi⟩
  · obtain ⟨e, he⟩ := h.empty s lo hi (Nat.le_of_not_lt hlt)
    rw [he] at hdraw
    cases hdraw

theorem Rng.length_bytes {S : Type} (rng : Rng S) (n : Nat) (s : S) :
    (rng.bytes n s).1.length = n := by
  induction n generalizing s with
  | zero => rfl
  | succ n ih => simp [Rng.bytes, ih]

namespace TrafficGenParams

variable {S : Type} {params : TrafficGenParams} {rng : Rng S} {fromUid : Nat} {now : Tick} {s t : S}

/-- A drawn request is a read or a write at an address of the range, and stays in front of the end
of the address's chunk. -/
theorem draw_request (hrng : rng.Draws) {req : MemBus}
    (h : params.draw fromUid rng now s = .ok (some req, t)) :
    ∃ a len, req.addr.phys? = some a ∧ (a + len < 2 ^ 64 → req.Request a len) ∧
      (req.cmd = .read → req.data = []) ∧ a ∈ params.range ∧
      params.lenLow ≤ len ∧ a % params.addrChunk + len < params.addrChunk := by
  unfold draw at h
  obtain ⟨⟨a, s₁⟩, haddr, h⟩ := ExceptMap.bind_eq_ok_iff.mp h
  by_cases hchunk : params.addrChunk = 0
  · simp only [if_pos hchunk] at h
    cases h
  simp only [if_neg hchunk] at h
  by_cases hroom : params.lenMax a < params.lenLow
  · simp only [if_pos hroom] at h
    cases h
  simp only [if_neg hroom] at h
  obtain ⟨⟨len, s₂⟩, hlen, h⟩ := ExceptMap.bind_eq_ok_iff.mp h
  obtain ⟨⟨cmdRand, s₃⟩, -, h⟩ := ExceptMap.bind_eq_ok_iff.mp h
  obtain ⟨hlow, hhigh⟩ := hrng.bounds haddr
  obtain ⟨hshort, hlong⟩ := hrng.bounds hlen
  have hfits := (lenMax_add (Nat.pos_of_ne_zero hchunk) a).2
  have hend : a % params.addrChunk + len < params.addrChunk := by omega
  by_cases hread : cmdRand < params.readWriteWeight.1
  · simp only [if_pos hread] at h
    cases h
    exact ⟨a, len, rfl, fun hspace => ⟨rfl, rfl, rfl, Or.inl rfl, hspace⟩, fun _ => rfl,
      ⟨hlow, hhigh⟩, hshort, hend⟩
  · simp only [if_neg hread] at h
    cases h
    exact ⟨a, len, rfl,
      fun hspace => ⟨rfl, rfl, rfl, Or.inr ⟨rfl, rng.length_bytes len s₃⟩, hspace⟩, nofun,
      ⟨hlow, hhigh⟩, hshort, hend⟩

/-- A generator with the parameters can draw the request. -/
def CanDraw (params : TrafficGenParams) (req : MemBus) : Prop :=
  ∃ (S : Type) (rng : Rng S) (fromUid : Nat) (now : Tick) (s t : S), rng.Draws ∧
    params.draw fromUid rng now s = .ok (some req, t)

end TrafficGenParams

namespace MemSystem

variable {sys : MemSystem} {inflight : sys.xbar.Station → Nat}

/-- A crossbar refuses nothing when every request that comes to it has a route. -/
theorem refusals_eq_nil {flat : MemoryChecker} (hsim : sys.Simulates flat)
    {acts : List sys.xbar.NetAct} (hacts : ∀ a ∈ acts, sys.Issues a)
    (hroute : ∀ idx pkt, .arrive (.inbound idx) pkt ∈ acts →
      ∃ dst, sys.xbar.route pkt.payload = some (.ok dst)) {s : sys.xbar.NetState}
    (hrun : Runs.run (sys.xbar.net inflight).step (Stations.State.init sys.rams) acts = some s)
    (idx : Fin sys.xbar.inboundLen) : XBar.refusals idx s.log = [] := by
  have hs : Concurrent sys inflight flat.memory s :=
    (Concurrent.init hsim).run hsim.partitioned hsim.covered (fun a ha => (hacts a ha).brings) hrun
  have hnone : ∀ pkt ∈ XBar.requests idx s.log, sys.xbar.refusalOf pkt = [] := by
    rw [hs.requests_eq]
    refine Stations.bySrc_none_forall_run (fun pkt hpkt => ?_) (List.forall_mem_nil _) hrun
    obtain ⟨dst, hdst⟩ := hroute idx pkt hpkt
    unfold XBar.refusalOf
    rw [hdst]
  have hrefused := ((hs.linearized hsim.partitioned).refusals idx).isPrefix
  rw [List.flatMap_eq_nil_iff.mpr hnone, List.prefix_nil, List.map_eq_nil_iff] at hrefused
  exact hrefused

end MemSystem

namespace Soc

open AddrRangeMap XBar

/-- `n` memories of one size, each starting where the one before it ends. -/
def chunks (uid masters : Nat) (ramUid : Nat → Nat) (n : Nat) (chunk : Data) : Soc :=
  ⟨uid, masters, (List.range n).map fun i => some (chunk * i, chunk), ramUid⟩

variable {uid masters n : Nat} {ramUid : Nat → Nat} {chunk : Data}

theorem getElem?_chunks {port o s : Nat} :
    (chunks uid masters ramUid n chunk).devices[port]? = some (some (o, s)) ↔
      port < n ∧ o = chunk * port ∧ s = chunk := by
  simp only [chunks, List.getElem?_map]
  by_cases hport : port < n
  · rw [List.getElem?_range hport]
    simp [hport, eq_comm]
  · rw [List.getElem?_eq_none (by simpa using hport)]
    simp [hport]

theorem mem_offers_chunks {e : Offer} : e ∈ (chunks uid masters ramUid n chunk).offers ↔
    e.2.2 < n ∧ e.1 = chunk * e.2.2 ∧ e.2.1 = chunk := by
  obtain ⟨o, s, port⟩ := e
  rw [mem_offers, getElem?_chunks]

/-- They share no address. -/
theorem apart_chunks (hchunk : 0 < chunk) : Apart (chunks uid masters ramUid n chunk).offers := by
  refine ⟨fun e he => ?_, ?_⟩
  · rw [(mem_offers_chunks.mp he).2.2]
    exact hchunk
  · have hnodup : (chunks uid masters ramUid n chunk).offers.Nodup :=
      List.Nodup.of_map _ (nodup_ports 0 _)
    refine hnodup.pairwise_of_forall_ne fun a ha b hb hab => ?_
    obtain ⟨-, ha₁, ha₂⟩ := mem_offers_chunks.mp ha
    obtain ⟨-, hb₁, hb₂⟩ := mem_offers_chunks.mp hb
    rw [disjoint_span_iff, ha₁, ha₂, hb₁, hb₂]
    rcases Nat.lt_trichotomy a.2.2 b.2.2 with hlt | heq | hgt
    · exact Or.inr (Or.inr (Or.inl (Nat.mul_le_mul_left chunk hlt)))
    · exact absurd (Prod.ext (by rw [ha₁, hb₁, heq]) (Prod.ext (ha₂.trans hb₂.symm) heq)) hab
    · exact Or.inr (Or.inr (Or.inr (Nat.mul_le_mul_left chunk hgt)))

/-- An access goes to the memory that its address falls into, if it leaves neither that memory nor
the last one. -/
theorem findPort_chunks (hchunk : 0 < chunk) {m : AddrRangeMap}
    (hmem : ∀ e, e ∈ m.arMap.entries ↔ e ∈ (chunks uid masters ramUid n chunk).offers)
    {addr len : Nat} (hlen : 0 < len) (ofst port : Nat) : m.findPort addr len = .ok (ofst, port) ↔
      addr < chunk * n ∧ addr % chunk + len ≤ chunk ∧ port = addr / chunk ∧
        ofst = chunk * port := by
  have hsplit := Nat.div_add_mod addr chunk
  rw [findPort_routed hmem (apart_chunks hchunk) hlen]
  simp only [mem_offers_chunks, access_subset_span hlen]
  constructor
  · rintro ⟨s, ⟨hport, rfl, rfl⟩, hlo, hhi⟩
    have hnext : s * (port + 1) ≤ s * n := Nat.mul_le_mul_left s hport
    have hq : addr / s = port := by
      rw [Nat.mul_succ] at hnext
      exact Nat.div_eq_of_lt_le (by rw [Nat.mul_comm]; omega)
        (by rw [Nat.mul_comm, Nat.mul_succ]; omega)
    rw [hq] at hsplit
    rw [Nat.mul_succ] at hnext
    exact ⟨by omega, by omega, hq.symm, rfl⟩
  · rintro ⟨haddr, hfits, rfl, rfl⟩
    have hport : addr / chunk < n := Nat.div_lt_of_lt_mul haddr
    exact ⟨chunk, ⟨hport, rfl, rfl⟩, by omega, by omega⟩

/-- A master asks only for what a generator over all of the memories can draw. -/
def Traffic (n : Nat) (chunk : Data) (req : MemBus) : Prop :=
  ∃ params : TrafficGenParams, params.addrRange = (0, chunk * n) ∧ params.addrChunk = chunk ∧
    1 ≤ params.lenLow ∧ params.CanDraw req

/-- Traffic asks for chunks of the memories. -/
theorem Traffic.request (hspace : chunk * n < 2 ^ 64) {req : MemBus} (h : Traffic n chunk req) :
    ∃ addr len, req.Request addr len ∧ 0 < len ∧ addr < chunk * n ∧
      addr % chunk + len ≤ chunk := by
  obtain ⟨params, hrange, hsize, hshort, S, rng, fromUid, now, s, t, hrng, hdraw⟩ := h
  obtain ⟨addr, len, -, hreq, -, ⟨-, hhigh⟩, hlow, hfits⟩ :=
    TrafficGenParams.draw_request hrng hdraw
  rw [TrafficGenParams.addrHigh, hrange, Nat.zero_add] at hhigh
  rw [hsize] at hfits
  have hend : addr + len ≤ chunk * n := by
    have hlast : addr / chunk + 1 ≤ n := Nat.div_lt_of_lt_mul hhigh
    calc addr + len
        = chunk * (addr / chunk) + (addr % chunk + len) := by
          rw [← Nat.add_assoc, Nat.div_add_mod]
      _ ≤ chunk * (addr / chunk) + chunk := Nat.add_le_add_left (by omega) _
      _ = chunk * (addr / chunk + 1) := (Nat.mul_succ _ _).symm
      _ ≤ chunk * n := Nat.mul_le_mul_left chunk hlast
  exact ⟨addr, len, hreq (Nat.lt_of_le_of_lt hend hspace), by omega, hhigh, by omega⟩

/-- The memories with the address map the crossbar found. -/
def chunkSystem (uid masters : Nat) (ramUid : Nat → Nat) (n : Nat) (chunk : Data)
    (m : AddrRangeMap) : MemSystem := (chunks uid masters ramUid n chunk).system m

/-- The steps of a run whose masters make only traffic. -/
def MakesTraffic (sys : MemSystem) (n : Nat) (chunk : Data) : sys.xbar.NetAct → Prop
  | .arrive (.inbound _) pkt => Traffic n chunk pkt.payload
  | .arrive _ _ => False
  | _ => True

theorem MakesTraffic.issues {sys : MemSystem} (hspace : chunk * n < 2 ^ 64)
    {a : sys.xbar.NetAct} (h : MakesTraffic sys n chunk a) : sys.Issues a := by
  cases a with
  | arrive q pkt =>
      cases q with
      | inbound idx =>
          obtain ⟨addr, len, hreq, -⟩ := Traffic.request hspace h
          exact ⟨addr, len, hreq⟩
      | outbound dst => exact h.elim
      | memory dst => exact h.elim
      | master idx => exact h.elim
  | take q t => trivial
  | pass p => trivial

/-- **Random traffic over memories side by side.** Where the memories end in the address space, the
map of the announced memories is always found and routes exactly the accesses that stay in one of
them.  Traffic drawn with the size of the memories as its chunk is never refused, whatever is drawn
and however the masters interleave, and the memories answer it as one memory. -/
theorem random_traffic_never_refused (uid masters : Nat) (ramUid : Nat → Nat) (n : Nat)
    (chunk : Data) (hchunk : 0 < chunk) (hspace : chunk * n < 2 ^ 64)
    (ports : List (List MemBus)) (h : (chunks uid masters ramUid n chunk).Announced ports) :
    ∃ m, addrRangeLookup 0 .new ports = .ok (some m) ∧ m.NonWrapping ∧
      (∀ addr len ofst port, 0 < len → (m.findPort addr len = .ok (ofst, port) ↔
        addr < chunk * n ∧ addr % chunk + len ≤ chunk ∧ port = addr / chunk ∧
          ofst = chunk * port)) ∧
      ∀ sys, sys = chunkSystem uid masters ramUid n chunk m →
        ∀ inflight acts s, (∀ a ∈ acts, MakesTraffic sys n chunk a) →
          Runs.run (sys.xbar.net inflight).step (Stations.State.init sys.rams) acts = some s →
          MemSystem.Linearized sys (List.replicate (chunk * n) 0) s ∧
            ∀ idx, XBar.refusals idx s.log = [] := by
  have hsome : ∀ d ∈ (chunks uid masters ramUid n chunk).devices, d ≠ none := by
    simp [chunks]
  have hapart : Apart (chunks uid masters ramUid n chunk).offers := apart_chunks hchunk
  obtain ⟨hiff, hfound⟩ := lookup_complete h hapart
  obtain ⟨m, hm⟩ := hiff.mpr hsome
  have hmem := hfound m hm
  have hsize : ∀ e ∈ (chunks uid masters ramUid n chunk).offers, e.1 + e.2.1 ≤ chunk * n := by
    intro e he
    obtain ⟨hport, hofst, hlen⟩ := mem_offers_chunks.mp he
    rw [hofst, hlen, ← Nat.mul_succ]
    exact Nat.mul_le_mul_left chunk hport
  refine ⟨m, hm, fun e he => Nat.lt_of_le_of_lt (hsize e ((hmem e).mp he)) hspace,
    fun addr len ofst port hlen => findPort_chunks hchunk hmem hlen ofst port, ?_⟩
  intro sys hsys inflight acts s hacts hrun
  have hsim : sys.Simulates (MemoryChecker.start 0 (chunk * n)) := by
    rw [hsys]
    exact simulates hapart hmem hsize
  have hissues : ∀ a ∈ acts, sys.Issues a := fun a ha => (hacts a ha).issues hspace
  have hs := (MemSystem.Concurrent.init hsim).run hsim.partitioned hsim.covered
    (fun a ha => (hissues a ha).brings) hrun
  refine ⟨hs.linearized hsim.partitioned, MemSystem.refusals_eq_nil hsim hissues ?_ hrun⟩
  intro idx pkt hpkt
  obtain ⟨addr, len, hreq, hlen, haddr, hfits⟩ := Traffic.request hspace (hacts _ hpkt)
  have hmap : sys.xbar.addrMap = m := by
    rw [hsys]
    rfl
  have hfind := (findPort_chunks hchunk hmem hlen _ _).mpr ⟨haddr, hfits, rfl, rfl⟩
  refine ⟨addr / chunk, ?_⟩
  rw [MemSystem.route_eq sys hreq, hmap, hfind]
  rfl

/-- A drawn write of two bytes in the second of two memories. -/
def drawnWrite : Packet MemBus :=
  { uid := 7, payload := MemBus.new 0 3 .write (.phys 5) (.simple 2) (some [0, 0]) }

theorem drawnWrite_traffic : Traffic 2 4 drawnWrite.payload :=
  ⟨⟨(0, 8), 4, (1, 4), (50, 50)⟩, rfl, rfl, by decide, List Nat, TrafficGenParams.scripted, 3, 0,
    [5, 2, 60], [], TrafficGenParams.scripted_draws, rfl⟩

theorem random_traffic_never_refused_drawnWrite :
    ∃ m, addrRangeLookup 0 .new twoBanksPorts = .ok (some m) ∧ m.findPort 5 2 = .ok (4, 1) ∧
      ∃ s, Runs.run ((chunkSystem 0 2 (· + 1) 2 4 m).xbar.net fun _ => 1).step
          (Stations.State.init (chunkSystem 0 2 (· + 1) 2 4 m).rams)
          [.arrive (.inbound (1 : Fin 2)) drawnWrite] = some s ∧
        XBar.refusals (1 : Fin 2) s.log = [] := by
  have hann : (chunks 0 2 (· + 1) 2 4).Announced twoBanksPorts :=
    .cons ⟨1, fun _ => 0, rfl⟩ (.cons ⟨2, fun _ => 0, rfl⟩ .nil)
  obtain ⟨m, hm, -, hroute, hrun⟩ :=
    random_traffic_never_refused 0 2 (· + 1) 2 4 (by decide) (by decide) twoBanksPorts hann
  refine ⟨m, hm, (hroute 5 2 4 1 (by decide)).mpr (by decide), _, rfl, ?_⟩
  refine (hrun (chunkSystem 0 2 (· + 1) 2 4 m) rfl (fun _ => 1)
    [.arrive (.inbound (1 : Fin 2)) drawnWrite] _ ?_ rfl).2 (1 : Fin 2)
  intro a ha
  rw [List.mem_singleton.mp ha]
  exact drawnWrite_traffic

end Soc

end Ra2m
