/-
The checker never raises a false alarm on generators that keep to themselves.

The checker sees the accesses of all generators in the order their entries arrive, and
that is not the order in which the memories served them.  A generator has one request
under way at a time, so it reports its own accesses in the order they were served
(`OneAtATime`), and an access does not see what happens outside its own addresses
(`Access.result_serve_filter`).  So when every generator has addresses of its own, each
read returns what the generator's own earlier accesses left there, and so it is in the
checker's memory: `Passing` is kept by every step.

What a generator draws leaves no chunk of its addresses.  So the crossbar has a route for
it when each of these chunks lies in one memory, and its addresses are its own when no
other generator draws in them (`CanDraw.drawn`).
-/
import Ra2m.Cpn.TestBench
import Ra2m.Proofs.ChunkTraffic
import Ra2m.Proofs.OneAtATime

namespace Ra2m

/-- A request a generator sends: a read or a write of one chunk of its own addresses, which the
crossbar has a route for. -/
structure MemSystem.Drawn (sys : MemSystem) (own : Set Nat) (req : MemBus) : Prop where
  request : ∃ addr len, req.Request addr len ∧ req.addr.phys? = some addr ∧
    Set.Ico addr (addr + len) ⊆ own ∧ ∃ dst, sys.xbar.route req = some (.ok dst)
  read : req.cmd = .read → req.data = []

/-! ### The requests of a generator -/

/-- The addresses a generator may touch: the chunks that its range reaches. -/
def TrafficGenParams.reach (params : TrafficGenParams) : Set Nat :=
  {b | ∃ a ∈ params.range, b / params.addrChunk = a / params.addrChunk}

/-- Each chunk of the generator lies in one memory. -/
def MemSystem.Holds (sys : MemSystem) (params : TrafficGenParams) : Prop :=
  ∀ a ∈ params.range, ∃ e ∈ sys.ranges, ∀ b : Nat, b / params.addrChunk = a / params.addrChunk →
    e.1 ≤ b ∧ b < e.1 + e.2.1

/-- What the generator draws is routed, and stays in its addresses. -/
theorem TrafficGenParams.CanDraw.drawn {sys : MemSystem} {flat : MemoryChecker}
    {params : TrafficGenParams} (hsim : sys.Simulates flat) (hspace : flat.memory.length ≤ 2 ^ 64)
    (hholds : sys.Holds params) {req : MemBus} (h : params.CanDraw req) :
    sys.Drawn params.reach req := by
  obtain ⟨S, rng, fromUid, now, s, t, hrng, hdraw⟩ := h
  obtain ⟨a, len, hphys, hreq, hread, hrange, -, hend⟩ := draw_request hrng hdraw
  have hchunk : ∀ b, a ≤ b → b ≤ a + len → b / params.addrChunk = a / params.addrChunk := by
    intro b hlo hhi
    have hsplit := Nat.div_add_mod a params.addrChunk
    refine Nat.div_eq_of_lt_le ?_ ?_
    · rw [Nat.mul_comm]
      omega
    · rw [Nat.mul_comm, Nat.mul_succ]
      omega
  obtain ⟨e, he, hin⟩ := hholds a hrange
  have hlo := (hin a rfl).1
  have hhi := (hin (a + len) (hchunk _ (Nat.le_add_right a len) (Nat.le_refl _))).2
  have hreq := hreq (Nat.lt_of_lt_of_le hhi ((hsim.covered e he).trans hspace))
  obtain ⟨e', -, -, -, hfind⟩ := hsim.partitioned.findPort_inside ⟨e, he, hlo, Nat.le_of_lt hhi⟩
  refine ⟨⟨a, len, hreq, hphys, fun b hb => ⟨a, hrange, hchunk b hb.1 (Nat.le_of_lt hb.2)⟩,
    e'.2.2, ?_⟩, hread⟩
  rw [MemSystem.route_eq sys hreq, hfind]
  rfl

namespace MemSystem

open Stations (UpTo)

variable {sys : MemSystem} {own : Fin sys.xbar.inboundLen → Set Nat} {req : MemBus}

/-! ### The accesses of a request -/

theorem Drawn.exists_route {A : Set Nat} (h : sys.Drawn A req) :
    ∃ dst, sys.xbar.route req = some (.ok dst) := by
  obtain ⟨addr, len, -, -, -, hroute⟩ := h.request
  exact hroute

theorem Request_span {addr len : Nat} (h : req.Request addr len) :
    (NpRam.accessOf req).span = Set.Ico addr (addr + len) := by
  rcases h.cmd with hcmd | ⟨hcmd, hdata⟩
  · simp only [NpRam.accessOf, h.subrange, h.pattern, hcmd, Access.span]
    rfl
  · simp only [NpRam.accessOf, h.subrange, h.pattern, hcmd, Access.span, hdata]
    rfl

theorem Drawn.span_own {A : Set Nat} (h : sys.Drawn A req) : (NpRam.accessOf req).span ⊆ A := by
  obtain ⟨addr, len, hreq, -, hown, -⟩ := h.request
  rw [Request_span hreq]
  exact hown

/-- It lies in the flat memory. -/
theorem Drawn.inRange {A : Set Nat} (h : sys.Drawn A req) {size : Nat}
    (hcovered : ∀ e ∈ sys.ranges, e.1 + e.2.1 ≤ size) : (NpRam.accessOf req).InRange size := by
  obtain ⟨addr, len, hreq, -, -, dst, hroute⟩ := h.request
  exact inRange_of_route hreq hroute hcovered

/-- All requests of all masters are drawn. -/
def AllDrawn (sys : MemSystem) (own : Fin sys.xbar.inboundLen → Set Nat) (s : sys.xbar.NetState) :
    Prop :=
  ∀ idx, ∀ pkt ∈ XBar.requests idx s.log, sys.Drawn (own idx) pkt.payload

/-- The accesses of drawn requests are those of what was served for them. -/
theorem map_placeOf {A : Set Nat} {l : List (Packet MemBus)}
    (h : ∀ pkt ∈ l, sys.Drawn A pkt.payload) :
    (l.flatMap sys.xbar.placeOf).map Prod.snd = l.map fun pkt => NpRam.accessOf pkt.payload := by
  induction l with
  | nil => rfl
  | cons pkt rest ih =>
      obtain ⟨dst, hroute⟩ := (h pkt List.mem_cons_self).exists_route
      rw [List.flatMap_cons, List.map_append, ih fun p hp => h p (List.mem_cons_of_mem pkt hp),
        XBar.placeOf_of_route hroute]
      rfl

/-- **A master's answer is what its own accesses left**, when the addresses of its requests are its
own. -/
theorem AnsweredAs.data_of_drawn {flat : List UInt8} {s : sys.xbar.NetState}
    (hcovered : ∀ e ∈ sys.ranges, e.1 + e.2.1 ≤ flat.length)
    (hown : ∀ i j, i ≠ j → Disjoint (own i) (own j)) (hlin : Linearized sys flat s)
    (hdrawn : sys.AllDrawn own s) {idx : Fin sys.xbar.inboundLen} {done : List (Packet MemBus)}
    {pkt ans : Packet MemBus} (hreqs : XBar.requests idx s.log = done ++ [pkt])
    (h : AnsweredAs sys idx flat s.log done pkt ans) :
    ans.payload.mode = .response ∧ ans.payload.data = pkt.payload.data ++
      (NpRam.accessOf pkt.payload).result
        (Access.serve flat (done.map fun pkt => NpRam.accessOf pkt.payload)).2 := by
  have hpkt : sys.Drawn (own idx) pkt.payload := hdrawn idx pkt (by simp [hreqs])
  have hdone : ∀ p ∈ done, sys.Drawn (own idx) p.payload :=
    fun p hp => hdrawn idx p (by simp [hreqs, hp])
  cases h with
  | refused err route mode =>
      obtain ⟨dst, hroute⟩ := hpkt.exists_route
      rw [hroute] at route
      cases route
  | served dst pre x post route serves master access order mode data =>
      refine ⟨mode, ?_⟩
      have hserved : ∀ y ∈ pre, ∃ j : Fin sys.xbar.inboundLen, y.master = j ∧
          ∃ p ∈ XBar.requests j s.log, y.access sys.xbar = NpRam.accessOf p.payload := by
        intro y hy
        obtain ⟨j, d, hj, -, p, hp, -, hacc⟩ := hlin.served (serves ▸ List.mem_append_left _ hy)
        exact ⟨j, hj, p, hp, hacc⟩
      have hmine : (pre.filter fun y => decide (y.master = (idx : Nat))).map
          (XBar.Serve.access sys.xbar) = done.map fun p => NpRam.accessOf p.payload := by
        rw [← map_placeOf hdone, ← order, List.map_map]
        rfl
      rw [data, ← hmine]
      refine congrArg _ (Access.result_serve_filter ?_ ?_).symm
      · intro y hy
        obtain ⟨j, -, p, hp, hacc⟩ := hserved y hy
        rw [hacc]
        exact (hdrawn j p hp).inRange hcovered
      · intro y hy hne b hb hb'
        obtain ⟨j, hj, p, hp, hacc⟩ := hserved y hy
        rw [hacc] at hb
        have hji : j ≠ idx := by
          rintro rfl
          simp [hj] at hne
        exact Set.disjoint_left.mp (hown j idx hji) ((hdrawn j p hp).span_own hb)
          (hpkt.span_own hb')

end MemSystem

/-! ### Entries for the checker -/

namespace MemBusChecker

/-- The access an entry stands for. -/
def access (self : MemBusChecker) : Access UInt8 :=
  match self.addr.phys?, self.pattern, self.cmd with
  | some addr, .simple len, .read => .read addr len
  | some addr, .simple _, .write => .write addr self.data
  | _, _, _ => .read 0 0

end MemBusChecker

namespace MemSystem

variable {sys : MemSystem} {A : Set Nat}

/-- The entry for a request that found the memory `m`. -/
def entryOf (m : List UInt8) (req : MemBus) : MemBusChecker where
  cmd := req.cmd
  addr := req.addr
  pattern := req.pattern
  data := if req.cmd = .read then (NpRam.accessOf req).result m else req.data

/-- The entries for requests that found `m` and what the ones before them left. -/
def entriesOf : List UInt8 → List (Packet MemBus) → List MemBusChecker
  | _, [] => []
  | m, pkt :: rest =>
      entryOf m pkt.payload :: entriesOf ((NpRam.accessOf pkt.payload).step m) rest

theorem Drawn.ofAnswer_eq {req ans : MemBus} (h : sys.Drawn A req) {m : List UInt8}
    (hdata : ans.data = req.data ++ (NpRam.accessOf req).result m) :
    MemBusChecker.ofAnswer req ans = entryOf m req := by
  by_cases hcmd : req.cmd = .read
  · have hnil := h.read hcmd
    rw [MemBusChecker.ofAnswer_read ans hcmd hnil, hdata, hnil]
    simp [entryOf, hcmd]
  · rw [MemBusChecker.ofAnswer_of_ne ans hcmd]
    simp [entryOf, hcmd]

theorem Drawn.access_entryOf {req : MemBus} (h : sys.Drawn A req) (m : List UInt8) :
    (entryOf m req).access = NpRam.accessOf req := by
  obtain ⟨addr, len, hreq, haddr, -⟩ := h.request
  rcases hreq.cmd with hcmd | ⟨hcmd, -⟩
  · simp [MemBusChecker.access, entryOf, NpRam.accessOf, haddr, hreq.subrange, hreq.pattern, hcmd]
  · simp [MemBusChecker.access, entryOf, NpRam.accessOf, haddr, hreq.subrange, hreq.pattern, hcmd]

/-- The checker accepts an entry when its memory shows the access what the memory did. -/
theorem Drawn.checkRx_entryOf {req : MemBus} (h : sys.Drawn A req) {checker : MemoryChecker}
    (hofst : checker.offset = 0) (hin : (NpRam.accessOf req).InRange checker.memory.length)
    {m : List UInt8} (hsame : (NpRam.accessOf req).result m =
      (NpRam.accessOf req).result checker.memory) :
    checker.checkRx (entryOf m req) =
      .ok { checker with memory := (NpRam.accessOf req).step checker.memory } := by
  obtain ⟨addr, len, hreq, haddr, -⟩ := h.request
  rcases hreq.cmd with hcmd | ⟨hcmd, hdata⟩
  · have hacc : NpRam.accessOf req = .read addr len := by
      simp [NpRam.accessOf, hreq.subrange, hreq.pattern, hcmd]
    rw [hacc] at hin hsame ⊢
    refine MemoryChecker.checkRx_read hofst haddr hreq.pattern hcmd hin ?_
    simp only [entryOf, hcmd, if_pos, hacc, hsame]
    rfl
  · have hacc : NpRam.accessOf req = .write addr req.data := by
      simp [NpRam.accessOf, hreq.subrange, hreq.pattern, hcmd]
    have hentry : (entryOf m req).data = req.data := by
      simp [entryOf, hcmd]
    rw [hacc] at hin ⊢
    simp only [Access.InRange, hdata] at hin
    rw [MemoryChecker.checkRx_write hofst haddr hreq.pattern hcmd (by rw [hentry, hdata]) hin,
      hentry]
    rfl

theorem entriesOf_snoc (m : List UInt8) (done : List (Packet MemBus)) (req : Packet MemBus) :
    entriesOf m (done ++ [req]) = entriesOf m done ++
        [entryOf (Access.serve m (done.map fun pkt => NpRam.accessOf pkt.payload)).2
          req.payload] := by
  induction done generalizing m with
  | nil => rfl
  | cons pkt rest ih =>
      rw [List.cons_append, entriesOf, ih]
      rfl

/-- An entry among them is that of a request, which found what the requests before it left. -/
theorem entriesOf_split {m : List UInt8} {done : List (Packet MemBus)}
    {pre post : List MemBusChecker} {c : MemBusChecker} (h : entriesOf m done = pre ++ c :: post) :
    ∃ before req after, done = before ++ req :: after ∧ pre = entriesOf m before ∧
      c = entryOf (Access.serve m (before.map fun pkt => NpRam.accessOf pkt.payload)).2
        req.payload := by
  induction pre generalizing m done with
  | nil =>
      cases done with
      | nil => cases h
      | cons req after =>
          obtain ⟨rfl, -⟩ := List.cons.inj h
          exact ⟨[], req, after, rfl, rfl, rfl⟩
  | cons c' pre ih =>
      cases done with
      | nil => cases h
      | cons pkt rest =>
          obtain ⟨rfl, hrest⟩ := List.cons.inj h
          obtain ⟨before, req, after, rfl, rfl, rfl⟩ := ih hrest
          exact ⟨pkt :: before, req, after, rfl, rfl, rfl⟩

/-- They stand for the accesses of the requests. -/
theorem map_access_entriesOf {m : List UInt8} {done : List (Packet MemBus)}
    (h : ∀ pkt ∈ done, sys.Drawn A pkt.payload) :
    (entriesOf m done).map MemBusChecker.access =
      done.map fun pkt => NpRam.accessOf pkt.payload := by
  induction done generalizing m with
  | nil => rfl
  | cons pkt rest ih =>
      rw [entriesOf, List.map_cons, List.map_cons, ih fun p hp => h p (List.mem_cons_of_mem _ hp),
        (h pkt List.mem_cons_self).access_entryOf]

end MemSystem

/-! ### One step of the bench -/

namespace GenStage

/-- The request a generator waits with. -/
def waits : GenStage → List (Packet MemBus)
  | waiting req => [req]
  | _ => []

/-- The entry it is about to put on the channel. -/
def holds : GenStage → List MemBusChecker
  | sending checker => [checker]
  | _ => []

@[simp] theorem holds_drawing : drawing.holds = [] := rfl

@[simp] theorem holds_waiting (req : Packet MemBus) : (waiting req).holds = [] := rfl

@[simp] theorem holds_sending (checker : MemBusChecker) : (sending checker).holds = [checker] := rfl

end GenStage

namespace TestBench

open MemSystem

variable {xbar : XBar} {inflight : xbar.Station → Nat} {slots : Nat} {s s' : TestBench xbar}
  {a : BenchAct xbar}

/-- The entries of a generator, in the order it made them. -/
def entries (s : TestBench xbar) (idx : Fin xbar.inboundLen) : List MemBusChecker :=
  ((s.passed ++ s.channel).filter fun e => e.1 = idx).map Prod.snd ++ (s.gens idx).holds

/-- What each step does, and when it can. -/
inductive Moved (inflight : xbar.Station → Nat) (slots : Nat) (s : TestBench xbar) :
    BenchAct xbar → TestBench xbar → Prop where
  | refused (idx : Fin xbar.inboundLen) (req : Packet MemBus) (err : MemBusError)
      (tx : TxStatus.txCheck req.payload = .error err) :
      Moved inflight slots s (.send idx req) { s with failed := some ⟨"Faulty Tx access"⟩ }
  | send (idx : Fin xbar.inboundLen) (req : Packet MemBus) (net : xbar.NetState)
      (stage : s.gens idx = .drawing)
      (step : (xbar.net inflight).step s.net (.arrive (.inbound idx) req) = some net) :
      Moved inflight slots s (.send idx req)
        { s with net, gens := Function.update s.gens idx (.waiting req) }
  | work (b : xbar.NetAct) (net : xbar.NetState) (layer : XBar.ofLayer b = true)
      (step : (xbar.net inflight).step s.net b = some net) :
      Moved inflight slots s (.work b) { s with net }
  | recv (idx : Fin xbar.inboundLen) (req ans : Packet MemBus) (src : Option xbar.Station)
      (rest : List (Option xbar.Station × Packet MemBus)) (net : xbar.NetState)
      (stage : s.gens idx = .waiting req) (queue : s.net.queue (.master idx) = (src, ans) :: rest)
      (step : (xbar.net inflight).step s.net (.take (.master idx) {}) = some net) :
      Moved inflight slots s (.recv idx) (s.answered idx req ans net)
  | report (idx : Fin xbar.inboundLen) (checker : MemBusChecker)
      (stage : s.gens idx = .sending checker) (room : s.channel.length < slots) :
      Moved inflight slots s (.report idx)
        { s with
          channel := s.channel ++ [(idx, checker)]
          gens := Function.update s.gens idx .drawing }
  | check (e : Fin xbar.inboundLen × MemBusChecker)
      (rest : List (Fin xbar.inboundLen × MemBusChecker)) (channel : s.channel = e :: rest) :
      Moved inflight slots s .check (s.checked e rest)

theorem moved_of_step (h : s.step inflight slots a = some s') :
    s.failed = none ∧ Moved inflight slots s a s' := by
  unfold step at h
  split at h
  · cases h
  rename_i hfine
  refine ⟨hfine, ?_⟩
  cases a with
  | send idx req =>
      simp only [stepOk] at h
      split at h
      · rename_i hstage
        split at h
        · rename_i err htx
          cases h
          exact .refused idx req err htx
        · simp only [Option.map_eq_some_iff] at h
          obtain ⟨net, hnet, rfl⟩ := h
          exact .send idx req net hstage hnet
      · cases h
  | work b =>
      simp only [stepOk, Option.ite_none_right_eq_some, Option.map_eq_some_iff] at h
      obtain ⟨hlayer, net, hnet, rfl⟩ := h
      exact .work b net hlayer hnet
  | recv idx =>
      simp only [stepOk] at h
      split at h
      · rename_i req src ans rest hstage hqueue
        simp only [Option.map_eq_some_iff] at h
        obtain ⟨net, hnet, rfl⟩ := h
        exact .recv idx req ans src rest net hstage hqueue hnet
      · cases h
  | report idx =>
      simp only [stepOk] at h
      split at h
      · rename_i checker hstage
        simp only [Option.ite_none_right_eq_some, Option.some.injEq] at h
        obtain ⟨hroom, rfl⟩ := h
        exact .report idx checker hstage hroom
      · cases h
  | check =>
      simp only [stepOk] at h
      split at h
      · cases h
      · rename_i e rest hchannel
        cases h
        exact .check e rest hchannel

/-! ### Every step of the bench -/

section

variable {sys : MemSystem} {own : Fin sys.xbar.inboundLen → Set Nat} {flat : List UInt8}
  {inflight : sys.xbar.Station → Nat} {slots : Nat} {s s' : TestBench sys.xbar}
  {a : BenchAct sys.xbar}

/-- The generators send requests of their own addresses, in packets without a session. -/
def Sends (sys : MemSystem) (own : Fin sys.xbar.inboundLen → Set Nat) : BenchAct sys.xbar → Prop
  | .send idx req => sys.Drawn (own idx) req.payload ∧ req.sid = none
  | _ => True

/-- A generator has an entry for each of its requests but the one it waits for, with what its own
requests before it left. -/
structure Reports (sys : MemSystem) (flat : List UInt8) (s : TestBench sys.xbar)
    (idx : Fin sys.xbar.inboundLen) (done : List (Packet MemBus)) : Prop where
  one : OneAtATime sys idx done (s.gens idx).waits s.net
  entries : s.entries idx = entriesOf flat done

/-- What holds in every state of the bench. -/
structure Passing (sys : MemSystem) (own : Fin sys.xbar.inboundLen → Set Nat)
    (inflight : sys.xbar.Station → Nat) (flat : List UInt8) (s : TestBench sys.xbar) : Prop where
  fine : s.failed = none
  concurrent : Concurrent sys inflight flat s.net
  untagged : Stations.Sound (sys.xbar.net inflight) (fun _ _ pkt => pkt.sid = none) (fun _ => True)
    s.net
  drawn : sys.AllDrawn own s.net
  offset : s.checker.offset = 0
  memory : s.checker.memory = (Access.serve flat (s.passed.map fun e => e.2.access)).2
  reports : ∀ idx, ∃ done, Reports sys flat s idx done

/-- Steps that another takes change nothing for a generator. -/
theorem Reports.other (hpart : sys.Partitioned) {idx : Fin sys.xbar.inboundLen}
    {done : List (Packet MemBus)} (h : Reports sys flat s idx done)
    (hs : Concurrent sys inflight flat s.net) (hs' : Concurrent sys inflight flat s'.net)
    {b : sys.xbar.NetAct} (hstep : (sys.xbar.net inflight).step s.net b = some s'.net)
    (hsend : ∀ req, b ≠ .arrive (.inbound idx) req) (htake : ∀ t, b ≠ .take (.master idx) t)
    (hgen : s'.gens idx = s.gens idx) (hentries : s'.entries idx = s.entries idx) :
    Reports sys flat s' idx done := by
  refine ⟨?_, hentries.trans h.entries⟩
  rw [hgen]
  exact h.one.other hpart hs hs' hstep hsend htake

theorem AllDrawn.of_requests {net net' : sys.xbar.NetState} (h : sys.AllDrawn own net)
    (heq : ∀ idx, XBar.requests idx net'.log = XBar.requests idx net.log) :
    sys.AllDrawn own net' := by
  intro idx pkt hpkt
  rw [heq] at hpkt
  exact h idx pkt hpkt

theorem Passing.send (h : Passing sys own inflight flat s) (hpart : sys.Partitioned)
    (hcovered : ∀ e ∈ sys.ranges, e.1 + e.2.1 ≤ flat.length) {idx : Fin sys.xbar.inboundLen}
    {req : Packet MemBus} {net : sys.xbar.NetState} (hstage : s.gens idx = .drawing)
    (hdrawn : sys.Drawn (own idx) req.payload) (hsid : req.sid = none)
    (hstep : (sys.xbar.net inflight).step s.net (.arrive (.inbound idx) req) = some net) :
    Passing sys own inflight flat
      { s with net, gens := Function.update s.gens idx (.waiting req) } := by
  have hplain : (Stations.Act.arrive (.inbound idx) req : sys.xbar.NetAct).Brings
      (fun _ _ pkt => pkt.sid = none) := hsid
  have hbrings : (Stations.Act.arrive (.inbound idx) req : sys.xbar.NetAct).Brings sys.Kind := by
    obtain ⟨addr, len, hreq, -⟩ := hdrawn.request
    exact ⟨addr, len, hreq⟩
  have hnet := h.concurrent.step hpart hcovered hbrings hstep
  refine ⟨h.fine, hnet, h.untagged.step (XBar.keeps_untagged inflight) hplain hstep, ?_, h.offset,
    h.memory, ?_⟩
  · intro i pkt hpkt
    rw [requests_of_send hstep, List.mem_append] at hpkt
    rcases hpkt with hpkt | hpkt
    · exact h.drawn i pkt hpkt
    · by_cases hi : idx = i
      · subst hi
        rw [if_pos rfl, List.mem_singleton] at hpkt
        rw [hpkt]
        exact hdrawn
      · rw [if_neg hi] at hpkt
        cases hpkt
  · intro i
    obtain ⟨done, hdone⟩ := h.reports i
    refine ⟨done, ?_⟩
    by_cases hi : i = idx
    · subst hi
      have hone := hdone.one
      rw [hstage] at hone
      have hold := hdone.entries
      simp only [entries, hstage, GenStage.holds_drawing] at hold
      refine ⟨?_, ?_⟩
      · simp only [Function.update_self]
        exact hone.send hstep
      · simp only [entries, Function.update_self, GenStage.holds_waiting]
        exact hold
    · have hgen : Function.update s.gens idx (.waiting req) i = s.gens i :=
        Function.update_of_ne hi _ _
      refine hdone.other hpart h.concurrent hnet hstep ?_ (by intro t heq; cases heq) hgen ?_
      · rintro req' heq
        cases heq
        exact hi rfl
      · simp only [entries, hgen]

theorem Passing.work (h : Passing sys own inflight flat s) (hpart : sys.Partitioned)
    (hcovered : ∀ e ∈ sys.ranges, e.1 + e.2.1 ≤ flat.length) {b : sys.xbar.NetAct}
    {net : sys.xbar.NetState} (hlayer : XBar.ofLayer b = true)
    (hstep : (sys.xbar.net inflight).step s.net b = some net) :
    Passing sys own inflight flat { s with net } := by
  have hinner := XBar.inner_of_layer hlayer
  have hnet := h.concurrent.step hpart hcovered hinner.brings hstep
  have hreqs := requests_of_inner hinner h.concurrent hnet hstep
  refine ⟨h.fine, hnet, h.untagged.step (XBar.keeps_untagged inflight) hinner.brings hstep,
    AllDrawn.of_requests h.drawn hreqs, h.offset, h.memory, fun idx => ?_⟩
  obtain ⟨done, hdone⟩ := h.reports idx
  refine ⟨done, hdone.other hpart h.concurrent hnet hstep (hinner _) ?_ rfl rfl⟩
  rintro t rfl
  cases hlayer

theorem Passing.recv (h : Passing sys own inflight flat s) (hpart : sys.Partitioned)
    (hcovered : ∀ e ∈ sys.ranges, e.1 + e.2.1 ≤ flat.length)
    (hown : ∀ i j, i ≠ j → Disjoint (own i) (own j)) {idx : Fin sys.xbar.inboundLen}
    {req ans : Packet MemBus} {src : Option sys.xbar.Station}
    {rest : List (Option sys.xbar.Station × Packet MemBus)} {net : sys.xbar.NetState}
    (hstage : s.gens idx = .waiting req) (hqueue : s.net.queue (.master idx) = (src, ans) :: rest)
    (hstep : (sys.xbar.net inflight).step s.net (.take (.master idx) {}) = some net) :
    Passing sys own inflight flat (s.answered idx req ans net) := by
  have hinner : (Stations.Act.take (.master idx) {} : sys.xbar.NetAct).Inner :=
    Stations.Act.inner_take _ _
  have hnet := h.concurrent.step hpart hcovered hinner.brings hstep
  have hreqs := requests_of_inner hinner h.concurrent hnet hstep
  have hdrawn : sys.AllDrawn own net := AllDrawn.of_requests h.drawn hreqs
  obtain ⟨done, hdone⟩ := h.reports idx
  have hone := hdone.one
  rw [hstage] at hone
  obtain ⟨pkt, hcur, hone', -, hanswered⟩ := hone.recv hpart h.concurrent hnet hqueue hstep
  obtain rfl : req = pkt := List.singleton_inj.mp hcur
  have hlast : XBar.requests idx net.log = done ++ [req] := by
    rw [hone'.requests, List.append_nil]
  obtain ⟨hmode, hdata⟩ :=
    hanswered.data_of_drawn hcovered hown (hnet.linearized hpart) hdrawn hlast
  have hsid : ans.sid = none :=
    h.untagged.queue _ (src, ans) (by rw [hqueue]; exact List.mem_cons_self)
  have haccept : (SlavePort.waitPktEp.accept ans : Except (PktFailure MemBusError) _) = .ok ans :=
    SlavePort.accept_of_response hmode hsid
  have hreq : sys.Drawn (own idx) req.payload := hdrawn idx req (by simp [hlast])
  have hentry := hreq.ofAnswer_eq hdata
  have hsending : s.answered idx req ans net = { s with
      net
      gens := Function.update s.gens idx (.sending (.ofAnswer req.payload ans.payload)) } := by
    simp only [answered, haccept]
  rw [hsending]
  refine ⟨h.fine, hnet, h.untagged.step (XBar.keeps_untagged inflight) hinner.brings hstep, hdrawn,
    h.offset, h.memory, fun i => ?_⟩
  by_cases hi : i = idx
  · subst hi
    refine ⟨done ++ [req], ?_, ?_⟩
    · simp only [Function.update_self]
      exact hone'
    · have hold := hdone.entries
      simp only [entries, hstage, GenStage.holds_waiting, List.append_nil] at hold
      simp only [entries, Function.update_self, GenStage.holds_sending, hold, hentry,
        entriesOf_snoc]
  · obtain ⟨done', hdone'⟩ := h.reports i
    have hgen : Function.update s.gens idx (.sending (.ofAnswer req.payload ans.payload)) i =
        s.gens i := Function.update_of_ne hi _ _
    refine ⟨done', hdone'.other hpart h.concurrent hnet hstep (hinner _) ?_ hgen ?_⟩
    · rintro t heq
      cases heq
      exact hi rfl
    · simp only [entries, hgen]

theorem Passing.report (h : Passing sys own inflight flat s) {idx : Fin sys.xbar.inboundLen}
    {checker : MemBusChecker} (hstage : s.gens idx = .sending checker) :
    Passing sys own inflight flat
      { s with
        channel := s.channel ++ [(idx, checker)]
        gens := Function.update s.gens idx .drawing } := by
  refine ⟨h.fine, h.concurrent, h.untagged, h.drawn, h.offset, h.memory, fun i => ?_⟩
  obtain ⟨done, hdone⟩ := h.reports i
  refine ⟨done, ?_⟩
  by_cases hi : i = idx
  · subst hi
    refine ⟨?_, ?_⟩
    · have hone := hdone.one
      rw [hstage] at hone
      simp only [Function.update_self]
      exact hone
    · have hold := hdone.entries
      simp only [entries, hstage] at hold
      simpa [entries] using hold
  · have hgen : Function.update s.gens idx .drawing i = s.gens i := Function.update_of_ne hi _ _
    refine ⟨?_, ?_⟩
    · simp only [hgen]
      exact hdone.one
    · rw [← hdone.entries]
      simp [entries, hi, Ne.symm hi]

/-- An entry stands for the access of a request of its generator. -/
theorem Passing.access_entry (h : Passing sys own inflight flat s)
    {e : Fin sys.xbar.inboundLen × MemBusChecker} (he : e ∈ s.passed) :
    ∃ pkt ∈ XBar.requests e.1 s.net.log, e.2.access = NpRam.accessOf pkt.payload := by
  obtain ⟨done, hdone⟩ := h.reports e.1
  have hsub : ∀ pkt ∈ done, pkt ∈ XBar.requests e.1 s.net.log := by
    intro pkt hpkt
    rw [hdone.one.requests]
    exact List.mem_append_left _ hpkt
  have hmem : e.2 ∈ entriesOf flat done := by
    rw [← hdone.entries, entries]
    refine List.mem_append_left _ (List.mem_map_of_mem (List.mem_filter.mpr ⟨?_, by simp⟩))
    exact List.mem_append_left _ he
  have hacc : e.2.access ∈ done.map fun pkt => NpRam.accessOf pkt.payload := by
    rw [← map_access_entriesOf (m := flat) fun pkt hpkt => h.drawn e.1 pkt (hsub pkt hpkt)]
    exact List.mem_map_of_mem hmem
  obtain ⟨pkt, hpkt, heq⟩ := List.mem_map.mp hacc
  exact ⟨pkt, hsub pkt hpkt, heq.symm⟩

theorem Passing.check (h : Passing sys own inflight flat s)
    (hcovered : ∀ e ∈ sys.ranges, e.1 + e.2.1 ≤ flat.length)
    (hown : ∀ i j, i ≠ j → Disjoint (own i) (own j)) {e : Fin sys.xbar.inboundLen × MemBusChecker}
    {rest : List (Fin sys.xbar.inboundLen × MemBusChecker)} (hchannel : s.channel = e :: rest) :
    Passing sys own inflight flat (s.checked e rest) := by
  obtain ⟨done, hdone⟩ := h.reports e.1
  have hentries := hdone.entries
  simp only [entries, hchannel, List.filter_append, List.filter_cons_of_pos (p := fun e' :
    Fin sys.xbar.inboundLen × MemBusChecker => decide (e'.1 = e.1)) (decide_eq_true rfl),
    List.map_append, List.map_cons, List.append_assoc, List.cons_append] at hentries
  obtain ⟨before, req, after, rfl, hbefore, hentry⟩ := entriesOf_split hentries.symm
  have hbefore' : ∀ pkt ∈ before, sys.Drawn (own e.1) pkt.payload := fun pkt hpkt =>
    h.drawn e.1 pkt (by rw [hdone.one.requests]; simp [hpkt])
  have hreq : sys.Drawn (own e.1) req.payload :=
    h.drawn e.1 req (by rw [hdone.one.requests]; simp)
  -- The checker's memory shows the access what the memory did.
  have hin : ∀ e' ∈ s.passed, (e'.2.access).InRange flat.length := by
    intro e' he'
    obtain ⟨pkt, hpkt, hacc⟩ := h.access_entry he'
    rw [hacc]
    exact (h.drawn e'.1 pkt hpkt).inRange hcovered
  have hsame := Access.result_serve_filter (m := flat)
    (f := fun e' : Fin sys.xbar.inboundLen × MemBusChecker => e'.2.access)
    (p := fun e' => decide (e'.1 = e.1)) (l := s.passed) (x := NpRam.accessOf req.payload) hin ?_
  · have hfound : (s.passed.filter fun e' => decide (e'.1 = e.1)).map (fun e' => e'.2.access) =
        before.map fun pkt => NpRam.accessOf pkt.payload := by
      rw [← map_access_entriesOf (m := flat) hbefore', ← hbefore, List.map_map]
      rfl
    rw [hfound, ← h.memory] at hsame
    have hlen : s.checker.memory.length = flat.length := by
      rw [h.memory]
      exact Access.length_serve (List.forall_mem_map.mpr hin)
    have hcheck := hreq.checkRx_entryOf h.offset (hlen ▸ hreq.inRange hcovered) hsame
    rw [← hentry] at hcheck
    have hchecked : s.checked e rest = { s with
        channel := rest
        checker := { s.checker with
          memory := (NpRam.accessOf req.payload).step s.checker.memory }
        passed := s.passed ++ [e] } := by
      simp only [checked, hcheck]
    rw [hchecked]
    refine ⟨h.fine, h.concurrent, h.untagged, h.drawn, h.offset, ?_, fun i => ?_⟩
    · simp only [List.map_append, List.map_cons, List.map_nil, Access.serve_append, ← h.memory,
        hentry, hreq.access_entryOf]
      rfl
    · obtain ⟨done', hdone'⟩ := h.reports i
      refine ⟨done', hdone'.one, ?_⟩
      rw [← hdone'.entries]
      simp only [entries, hchannel, List.append_assoc, List.singleton_append]
  · intro e' he' hne b hb hb'
    obtain ⟨pkt, hpkt, hacc⟩ := h.access_entry he'
    rw [hacc] at hb
    have hdisj := hown e'.1 e.1 (by simpa using hne)
    exact Set.disjoint_left.mp hdisj ((h.drawn e'.1 pkt hpkt).span_own hb) (hreq.span_own hb')

/-- **Every step of the bench keeps it.** -/
theorem Passing.step (h : Passing sys own inflight flat s) (hpart : sys.Partitioned)
    (hcovered : ∀ e ∈ sys.ranges, e.1 + e.2.1 ≤ flat.length)
    (hown : ∀ i j, i ≠ j → Disjoint (own i) (own j)) (ha : Sends sys own a)
    (hstep : s.step inflight slots a = some s') : Passing sys own inflight flat s' := by
  obtain ⟨-, hmoved⟩ := moved_of_step hstep
  cases hmoved with
  | refused idx req err tx =>
      obtain ⟨addr, len, hreq, -⟩ := ha.1.request
      rw [MemBus.txCheck_eq_ok_iff.mpr hreq.mode] at tx
      cases tx
  | send idx req net stage step => exact h.send hpart hcovered stage ha.1 ha.2 step
  | work b net layer step => exact h.work hpart hcovered layer step
  | recv idx req ans src rest net stage queue step =>
      exact h.recv hpart hcovered hown stage queue step
  | report idx checker stage room => exact h.report stage
  | check e rest channel => exact h.check hcovered hown channel

/-! ### Every run of the bench -/

/-- The start of the bench. -/
theorem Passing.init {size : Data} (hsim : sys.Simulates (MemoryChecker.start 0 size)) :
    Passing sys own inflight (MemoryChecker.start 0 size).memory
      (TestBench.init sys.rams size) where
  fine := rfl
  concurrent := Concurrent.init hsim
  untagged := Stations.Sound.init trivial
  drawn := fun _ _ hpkt => absurd hpkt List.not_mem_nil
  offset := rfl
  memory := rfl
  reports := fun idx => ⟨[], OneAtATime.init sys idx sys.rams, rfl⟩

theorem Passing.run (h : Passing sys own inflight flat s) (hpart : sys.Partitioned)
    (hcovered : ∀ e ∈ sys.ranges, e.1 + e.2.1 ≤ flat.length)
    (hown : ∀ i j, i ≠ j → Disjoint (own i) (own j)) {acts : List (BenchAct sys.xbar)}
    (hacts : ∀ a ∈ acts, Sends sys own a)
    (hrun : Runs.run (TestBench.step inflight slots) s acts = some s') :
    Passing sys own inflight flat s' := by
  refine Runs.run_inv_along (I := Passing sys own inflight flat) (P := fun _ a => Sends sys own a)
    ?_ h (Runs.along_of_forall hacts) hrun
  intro s a s' h ha hstep
  exact h.step hpart hcovered hown ha hstep

/-- What is left to do. -/
def left (s : TestBench sys.xbar) : Nat :=
  3 * Stations.load MemSystem.weight s.net + s.channel.length +
    ∑ idx, 2 * (s.gens idx).holds.length

/-- Some process can go on without a new draw, and the bench comes closer to its end. -/
def GoesOn (own : Fin sys.xbar.inboundLen → Set Nat) (inflight : sys.xbar.Station → Nat)
    (slots : Nat) (s : TestBench sys.xbar) : Prop :=
  ∃ a s', Sends sys own a ∧ s.step inflight slots a = some s' ∧
    (∀ idx, XBar.requests idx s'.net.log = XBar.requests idx s.net.log) ∧ left s' < left s

/-- Only a generator that waits finds something at its port. -/
theorem Passing.waiting_of_take (h : Passing sys own inflight flat s) (hpart : sys.Partitioned)
    (hcovered : ∀ e ∈ sys.ranges, e.1 + e.2.1 ≤ flat.length) {idx : Fin sys.xbar.inboundLen}
    {src : Option sys.xbar.Station} {ans : Packet MemBus}
    {rest : List (Option sys.xbar.Station × Packet MemBus)} {t : Timing} {net : sys.xbar.NetState}
    (hqueue : s.net.queue (.master idx) = (src, ans) :: rest)
    (hstep : (sys.xbar.net inflight).step s.net (.take (.master idx) t) = some net) :
    ∃ req, s.gens idx = .waiting req := by
  have hinner : (Stations.Act.take (.master idx) t : sys.xbar.NetAct).Inner :=
    Stations.Act.inner_take _ _
  have hnet := h.concurrent.step hpart hcovered hinner.brings hstep
  obtain ⟨done, hdone⟩ := h.reports idx
  obtain ⟨req, hcur, -⟩ := hdone.one.recv hpart h.concurrent hnet hqueue hstep
  cases hgen : s.gens idx with
  | waiting req' => exact ⟨req', rfl⟩
  | drawing =>
      rw [hgen] at hcur
      cases hcur
  | sending checker =>
      rw [hgen] at hcur
      cases hcur

/-- No generator waits once nothing is under way. -/
theorem Passing.not_waiting_of_quiet (h : Passing sys own inflight flat s) (hpart : sys.Partitioned)
    (hquiet : s.net.Quiet) (idx : Fin sys.xbar.inboundLen) (req : Packet MemBus) :
    s.gens idx ≠ .waiting req := by
  intro hgen
  obtain ⟨done, hdone⟩ := h.reports idx
  have hnil := hdone.one.cur_eq_nil hpart (h.concurrent.linearized hpart) hquiet ?_
  · rw [hgen] at hnil
    cases hnil
  · intro pkt hpkt
    obtain ⟨addr, len, hreq, -⟩ :=
      (h.drawn idx pkt (by rw [hdone.one.requests]; simp [hpkt])).request
    exact ⟨addr, len, hreq⟩

theorem sum_holds_update {n : Nat} (gens : Fin n → GenStage) (idx : Fin n) (stage : GenStage) :
    (∑ i, 2 * (Function.update gens idx stage i).holds.length) + 2 * (gens idx).holds.length =
      (∑ i, 2 * (gens i).holds.length) + 2 * stage.holds.length := by
  rw [← Stations.sum_update (fun i => 2 * (gens i).holds.length) idx (2 * stage.holds.length)]
  congr 1
  refine Finset.sum_congr rfl fun i _ => ?_
  by_cases hi : i = idx
  · subst hi
    rw [Function.update_self, Function.update_self]
  · rw [Function.update_of_ne hi, Function.update_of_ne hi]

/-- A generator takes what is at its port. -/
theorem Passing.exists_recv (h : Passing sys own inflight flat s) (hpart : sys.Partitioned)
    (hcovered : ∀ e ∈ sys.ranges, e.1 + e.2.1 ≤ flat.length) {idx : Fin sys.xbar.inboundLen}
    {t : Timing} {net : sys.xbar.NetState}
    (hb : (sys.xbar.net inflight).step s.net (.take (.master idx) t) = some net) :
    GoesOn own inflight slots s := by
  obtain ⟨src, ans, rest, hqueue, net', hb'⟩ := XBar.exists_take hb
  obtain ⟨req, hgen⟩ := h.waiting_of_take hpart hcovered hqueue hb'
  have hinner : (Stations.Act.take (.master idx) {} : sys.xbar.NetAct).Inner :=
    Stations.Act.inner_take _ _
  have hstep : s.step inflight slots (.recv idx) = some (s.answered idx req ans net') := by
    simp only [TestBench.step, h.fine, stepOk, hgen, hqueue, hb', Option.map_some]
  have hnet' := h.concurrent.step hpart hcovered hinner.brings hb'
  have hlt := Stations.load_lt (descends hpart) h.concurrent.regular.sound hinner hb'
  have hans : (s.answered idx req ans net').net = net' ∧
      left (s.answered idx req ans net') < left s := by
    unfold answered
    split
    · refine ⟨rfl, ?_⟩
      simp only [left]
      omega
    · refine ⟨rfl, ?_⟩
      rename_i resp _
      have hsum := sum_holds_update s.gens idx (.sending (.ofAnswer req.payload resp.payload))
      simp only [hgen, GenStage.holds_waiting, GenStage.holds_sending, List.length_singleton,
        List.length_nil] at hsum
      simp only [left]
      omega
  refine ⟨.recv idx, _, trivial, hstep, fun i => ?_, hans.2⟩
  rw [hans.1]
  exact requests_of_inner hinner h.concurrent hnet' hb' i

/-- What is in the channel of the checker can be checked. -/
theorem Passing.exists_check (h : Passing sys own inflight flat s)
    {e : Fin sys.xbar.inboundLen × MemBusChecker}
    {rest : List (Fin sys.xbar.inboundLen × MemBusChecker)} (hchannel : s.channel = e :: rest) :
    GoesOn own inflight slots s := by
  have hstep : s.step inflight slots .check = some (s.checked e rest) := by
    simp only [TestBench.step, h.fine, stepOk, hchannel]
  have hnet : (s.checked e rest).net = s.net ∧ (s.checked e rest).channel = rest ∧
      (s.checked e rest).gens = s.gens := by
    unfold checked
    split
    · exact ⟨rfl, rfl, rfl⟩
    · exact ⟨rfl, rfl, rfl⟩
  refine ⟨.check, _, trivial, hstep, fun idx => by rw [hnet.1], ?_⟩
  simp only [left, hnet.1, hnet.2.1, hnet.2.2, hchannel, List.length_cons]
  omega

/-- What a generator reports can be sent when there is room for it. -/
theorem Passing.exists_report (h : Passing sys own inflight flat s) {idx : Fin sys.xbar.inboundLen}
    {checker : MemBusChecker} (hgen : s.gens idx = .sending checker)
    (hroom : s.channel.length < slots) : GoesOn own inflight slots s := by
  have hstep : s.step inflight slots (.report idx) = some { s with
      channel := s.channel ++ [(idx, checker)]
      gens := Function.update s.gens idx .drawing } := by
    simp only [TestBench.step, h.fine, stepOk, hgen, if_pos hroom]
  refine ⟨.report idx, _, trivial, hstep, fun _ => rfl, ?_⟩
  have hsum := sum_holds_update s.gens idx .drawing
  simp only [hgen, GenStage.holds_drawing, GenStage.holds_sending, List.length_singleton,
    List.length_nil] at hsum
  simp only [left, List.length_append, List.length_singleton]
  omega

/-- Something is on its way: it can move, or a generator takes it. -/
theorem Passing.exists_inner (h : Passing sys own inflight flat s) (hpart : sys.Partitioned)
    (hcovered : ∀ e ∈ sys.ranges, e.1 + e.2.1 ≤ flat.length) (hroom : ∀ q, 0 < inflight q)
    (hbusy : ¬ s.net.Quiet) : GoesOn own inflight slots s := by
  obtain ⟨b, net, hinner, hb⟩ : ∃ b net, b.Inner ∧
      (sys.xbar.net inflight).step s.net b = some net :=
    Stations.exists_step (descends hpart) hroom h.concurrent.regular hbusy
  by_cases hlayer : XBar.ofLayer b = true
  · have hstep : s.step inflight slots (.work b) = some { s with net } := by
      simp only [TestBench.step, h.fine, stepOk, if_pos hlayer, hb, Option.map_some]
    have hnet := h.concurrent.step hpart hcovered hinner.brings hb
    refine ⟨.work b, _, trivial, hstep, requests_of_inner hinner h.concurrent hnet hb, ?_⟩
    have hlt := Stations.load_lt (descends hpart) h.concurrent.regular.sound hinner hb
    simp only [left]
    omega
  · obtain ⟨idx, t, rfl⟩ := XBar.exists_take_of_inner hinner hlayer
    exact h.exists_recv hpart hcovered hb

/-- As long as something is left to do, some process can do it. -/
theorem Passing.goesOn (h : Passing sys own inflight flat s) (hpart : sys.Partitioned)
    (hcovered : ∀ e ∈ sys.ranges, e.1 + e.2.1 ≤ flat.length) (hroom : ∀ q, 0 < inflight q)
    (hslots : 0 < slots)
    (hbusy : ¬ (s.channel = [] ∧ ∀ idx, s.gens idx = .drawing)) : GoesOn own inflight slots s := by
  cases hchannel : s.channel with
  | cons e rest => exact h.exists_check hchannel
  | nil =>
      by_cases hsend : ∃ idx checker, s.gens idx = .sending checker
      · obtain ⟨idx, checker, hgen⟩ := hsend
        refine h.exists_report hgen ?_
        rw [hchannel]
        exact hslots
      · refine h.exists_inner hpart hcovered hroom fun hquiet => hbusy ⟨hchannel, fun idx => ?_⟩
        cases hgen : s.gens idx with
        | drawing => rfl
        | waiting req => exact absurd hgen (h.not_waiting_of_quiet hpart hquiet idx req)
        | sending checker => exact absurd ⟨idx, checker, hgen⟩ hsend

/-- Each generator sends what it can draw, in packets without a session. -/
def Generates (sys : MemSystem) (params : Fin sys.xbar.inboundLen → TrafficGenParams) :
    BenchAct sys.xbar → Prop
  | .send idx req => (params idx).CanDraw req.payload ∧ req.sid = none
  | _ => True

/-- What the generators send is routed, and stays in the addresses of each. -/
theorem Generates.sends {flat : MemoryChecker} (hsim : sys.Simulates flat)
    (hspace : flat.memory.length ≤ 2 ^ 64) {params : Fin sys.xbar.inboundLen → TrafficGenParams}
    (hholds : ∀ idx, sys.Holds (params idx)) {a : BenchAct sys.xbar}
    (h : Generates sys params a) : Sends sys (fun idx => (params idx).reach) a := by
  cases a with
  | send idx req => exact ⟨h.1.drawn hsim hspace (hholds idx), h.2⟩
  | work b => trivial
  | recv idx => trivial
  | report idx => trivial
  | check => trivial

end

/-- The generators of two memories: each draws in one of them. -/
def halves (idx : Fin twoMasters.xbar.inboundLen) : TrafficGenParams where
  addrRange := (4 * idx, 4)
  addrChunk := 4
  dataRange := (1, 4)
  readWriteWeight := (50, 50)

theorem reach_halves (idx : Fin twoMasters.xbar.inboundLen) :
    (halves idx).reach = {b | b / 4 = (idx : Nat)} := by
  ext b
  constructor
  · rintro ⟨a, ⟨hlo, hhi⟩, hb⟩
    simp only [halves, TrafficGenParams.addrHigh] at hlo hhi hb
    show b / 4 = (idx : Nat)
    omega
  · rintro (hb : b / 4 = (idx : Nat))
    have hlo : 4 * (idx : Nat) ≤ b := by omega
    have hhi : b < 4 * (idx : Nat) + 4 := by omega
    exact ⟨b, ⟨hlo, hhi⟩, rfl⟩

theorem holds_halves (idx : Fin twoMasters.xbar.inboundLen) : twoMasters.Holds (halves idx) := by
  rintro a ⟨hlo, hhi⟩
  simp only [halves, TrafficGenParams.addrHigh] at hlo hhi
  have hrange : ∀ i : Fin 2, ∃ e ∈ twoMasters.ranges, e.1 = 4 * (i : Nat) ∧ e.2.1 = 4 := by decide
  obtain ⟨e, he, hbase, hlen⟩ := hrange idx
  refine ⟨e, he, fun b hb => ?_⟩
  have hsame : b / 4 = a / 4 := hb
  omega

/-- A read of the three bytes from 4 on. -/
def readAbove : Packet MemBus where
  uid := 1
  payload := MemBus.new 0 1 .read (.phys 4) (.simple 3) none

/-- A write of the byte at 1. -/
def writeOne : Packet MemBus where
  uid := 0
  payload := MemBus.new 0 0 .write (.phys 1) (.simple 1) (some [0])

/-- Both generators have sent a request. -/
def bothSent : List (BenchAct twoMasters.xbar) :=
  [.send (1 : Fin 2) readAbove, .send (0 : Fin 2) writeOne]

theorem bothSent_generates : ∀ a ∈ bothSent, Generates twoMasters halves a := by
  have hread : (halves (1 : Fin 2)).CanDraw readAbove.payload :=
    ⟨List Nat, TrafficGenParams.scripted, 1, 0, [4, 3, 0], [], TrafficGenParams.scripted_draws, rfl⟩
  have hwrite : (halves (0 : Fin 2)).CanDraw writeOne.payload :=
    ⟨List Nat, TrafficGenParams.scripted, 0, 0, [1, 1, 60], [], TrafficGenParams.scripted_draws,
      rfl⟩
  simp only [bothSent, List.forall_mem_cons]
  exact ⟨⟨hread, rfl⟩, ⟨hwrite, rfl⟩, List.forall_mem_nil _⟩

/-- One request on its way through the layers and back. -/
def served (idx : Fin twoMasters.xbar.inboundLen) (dst : Fin twoMasters.xbar.outboundLen) :
    List (BenchAct twoMasters.xbar) :=
  [.work (.take (.inbound idx) {}), .work (.pass (.inbound idx)), .work (.take (.memory dst) {}),
    .work (.pass (.memory dst)), .work (.take (.outbound dst) {}), .work (.pass (.outbound dst))]

-- Addresses that two generators share: the read of the one sees the write of the other, and is
-- checked before it.
example : ((Runs.run (step (fun _ => 1) 1) (TestBench.init twoMasters.rams 8)
    (.send (0 : Fin 2) writeThree :: served (0 : Fin 2) (1 : Fin 2) ++
      .send (1 : Fin 2) readBelow :: served (1 : Fin 2) (1 : Fin 2) ++
        [.recv (1 : Fin 2), .report (1 : Fin 2), .check])).bind TestBench.failed) =
    some ⟨"Faulty access"⟩ := by decide

end TestBench

end Ra2m
