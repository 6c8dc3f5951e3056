/-
Concurrent accesses through a crossbar take effect one after another.

Several masters send requests to a XBar at once; its layers, the memories and the
channels between them take their steps in any order.  Whatever that order is, the
requests take effect as if they were made on one flat memory, one after another: in the
order the memories served them, which keeps the order of the requests of one master to
one memory (`Linearized`).  Every request is served or refused once and its answer goes
to the master that sent it.

`Kind` is what holds of a packet on its way, `turn_inbound_inside` and the lemmas after it say
what each process makes of such a packet.  The order of the packets then comes from the
network of stations, and `Serial` is kept because a memory serves a request in one step.
-/
import Ra2m.Cpn.XBarNet
import Ra2m.Lib.Accesses
import Ra2m.Proofs.BurstOrder
import Ra2m.Proofs.FlatMemory
import Ra2m.Proofs.HostRange

namespace Ra2m

open Stations (UpTo)

/-- A request as a master sends it: a read or a write of one chunk at a physical address, that ends
in the address space. -/
structure MemBus.Request (req : MemBus) (addr len : Nat) : Prop where
  mode : req.mode = .request
  subrange : req.subrangeAddr = .phys addr
  pattern : req.pattern = .simple len
  cmd : req.cmd = .read ∨ req.cmd = .write ∧ req.data.length = len
  fits : addr + len < 2 ^ 64

namespace MemBus.Request

variable {req : MemBus} {addr len : Nat}

theorem asks (h : req.Request addr len) : XBar.Asks req addr len where
  subrange := h.subrange
  pattern := by
    rw [h.pattern]
    rfl
  cmd := by
    rcases h.cmd with hc | ⟨hc, -⟩
    · rw [hc]
      exact Command.noConfusion
    · rw [hc]
      exact Command.noConfusion

theorem len_ok (h : req.Request addr len) : ∃ m, req.pattern.len = .ok m :=
  ⟨len, by rw [h.pattern]; rfl⟩

/-- A memory that holds the chunk can serve the request. -/
theorem served (h : req.Request addr len) {size : Nat} (hin : addr + len ≤ size) (uid : Nat) :
    NpRam.Served size { uid, payload := req } :=
  ⟨rfl, h.mode, addr, len, h.subrange, h.pattern, hin, h.cmd⟩

/-- The address map finds its route with the sums the machine takes. -/
theorem findPort_eq (h : req.Request addr len) {map : AddrRangeMap} (hmap : map.NonWrapping) :
    map.findPortWrapping (.ofNat addr) (.ofNat len) = map.findPort addr len := by
  have haddr : (UInt64.ofNat addr).toNat = addr :=
    UInt64.toNat_ofNat_of_lt' (Nat.lt_of_le_of_lt (Nat.le_add_right addr len) h.fits)
  have hlen : (UInt64.ofNat len).toNat = len :=
    UInt64.toNat_ofNat_of_lt' (Nat.lt_of_le_of_lt (Nat.le_add_left len addr) h.fits)
  have hend : (UInt64.ofNat addr).toNat + (UInt64.ofNat len).toNat < 2 ^ 64 := by
    rw [haddr, hlen]
    exact h.fits
  rw [AddrRangeMap.findPortWrapping_eq_findPort hmap hend, haddr, hlen]

end MemBus.Request

namespace XBar

variable {self : XBar}

/-- The outbound port a request is routed to, or the error it is refused with. -/
def route (self : XBar) (req : MemBus) : Option (Except AddrRangeError Nat) :=
  match req.subrangeAddr, req.pattern.range with
  | .phys addr, .ok range => some ((self.addrMap.findPort addr range).map Prod.snd)
  | _, _ => none

/-- The access that a request asks outbound port `dst` for, with the uid of the packet and the data
it brings along. -/
def askFor (self : XBar) (dst : Nat) (pkt : Packet MemBus) :
    List (Nat × Access UInt8 × List UInt8) :=
  match self.route pkt.payload with
  | some (.ok port) =>
      if port = dst then [(pkt.uid, NpRam.accessOf pkt.payload, pkt.payload.data)] else []
  | _ => []

/-- The error that a request in no range is sent back with. -/
def refusalOf (self : XBar) (pkt : Packet MemBus) : List (Nat × Mode MemBusError) :=
  match self.route pkt.payload with
  | some (.error err) => [(pkt.uid, .error (.addrRange err))]
  | _ => []

/-- Where the range of an outbound port starts. -/
def base (self : XBar) (dst : Nat) : Nat :=
  ((self.addrMap.arMap.entries.find? fun e => e.2.2 = dst).map Prod.fst).getD 0

/-- The access to the flat memory that a served request stands for. -/
def Serve.access (self : XBar) (x : Serve) : Access UInt8 :=
  (NpRam.accessOf x.req.payload).shift (self.base x.dst)

/-- The flat memory after the requests that were served. -/
def memoryAfter (self : XBar) (flat : List UInt8) (xs : List Serve) : List UInt8 :=
  (Access.serve flat (xs.map (Serve.access self))).2

/-- A response keeps its uid on the way back. -/
theorem backwardLayer_uid {t : Timing} {idx : Nat} {pkt : Packet MemBus} {i : Nat}
    {ans : Packet MemBus} (h : backwardLayer t self idx pkt = .ok (i, ans)) :
    ans.uid = pkt.uid := by
  unfold backwardLayer at h
  split at h
  · cases h
  · split at h
    · obtain ⟨accLen, -, h⟩ := ExceptMap.bind_eq_ok_iff.mp h
      cases h
      rfl
    · cases h

end XBar

namespace MemSystem

variable {sys : MemSystem}

/-- What a master sees of an answer. -/
def outcome (ans : Packet MemBus) : Nat × Mode MemBusError × List UInt8 :=
  (ans.uid, ans.payload.mode, ans.payload.data)

/-- The requests of master `idx` for memory `dst` that were served. -/
def servedFor (idx : Fin sys.xbar.inboundLen) (dst : Fin sys.xbar.outboundLen)
    (log : sys.xbar.NetLog) : List XBar.Serve :=
  (XBar.serves log).filter fun x => x.master = idx ∧ x.dst = dst

/-- What a master of the route stack sees of an answer. -/
def answerFor (idx : Nat) (resp : Packet MemBus) : List (Nat × Mode MemBusError × List UInt8) :=
  if resp.payload.xbarPort.getLast? = some idx then [outcome resp] else []

/-- The requests take effect on the flat memory one after another, in an order that keeps that of
each master's requests to each memory, and are answered accordingly, each once. -/
structure Linearized (sys : MemSystem) (flat : List UInt8) (s : sys.xbar.NetState) : Prop where
  requests : ∀ idx dst, UpTo s.Quiet
    ((servedFor idx dst s.log).map fun x => (x.req.uid, x.access sys.xbar, x.req.payload.data))
    ((XBar.requests idx s.log).flatMap (sys.xbar.askFor dst))
  serial : ∀ pre x post, XBar.serves s.log = pre ++ x :: post →
    x.ans.uid = x.req.uid ∧ x.ans.payload.mode = .response ∧ x.ans.payload.data =
      x.req.payload.data ++ (x.access sys.xbar).result (sys.xbar.memoryAfter flat pre)
  memories : ∀ e ∈ sys.ranges, (s.shared e.2.2).memory =
    Window.read (sys.xbar.memoryAfter flat (XBar.serves s.log)) e.1 e.2.1
  answers : ∀ idx dst, UpTo s.Quiet ((XBar.answers idx dst s.log).map outcome)
    ((servedFor idx dst s.log).map fun x => outcome x.ans)
  refusals : ∀ idx, UpTo s.Quiet
    ((XBar.refusals idx s.log).map fun ans => (ans.uid, ans.payload.mode))
    ((XBar.requests idx s.log).flatMap sys.xbar.refusalOf)
  received : ∀ idx, ∀ e ∈ Stations.taken (.master idx) s.log,
    e.1 = some (.inbound idx) ∨ ∃ dst, e.1 = some (.outbound dst)
  /-- The routes are those the address map finds with sums of 64 bits. -/
  routes : sys.xbar.addrMap.NonWrapping → ∀ idx, ∀ pkt ∈ XBar.requests idx s.log, ∃ addr len,
    pkt.payload.Request addr len ∧ sys.xbar.route pkt.payload =
      some ((sys.xbar.addrMap.findPortWrapping (.ofNat addr) (.ofNat len)).map Prod.snd)

/-! ### What each process makes of its packet -/

/-- A route is one of the ranges. -/
theorem findPort_ok {addr len ofst port : Nat}
    (h : sys.xbar.addrMap.findPort addr len = .ok (ofst, port)) :
    ∃ e ∈ sys.ranges, e.1 = ofst ∧ e.2.2 = port ∧ e.1 ≤ addr ∧ addr + len ≤ e.1 + e.2.1 := by
  obtain ⟨size, hlast, hhi⟩ := AddrRangeMap.findPort_eq_ok_iff.1 h
  obtain ⟨he, hlo, -⟩ := (SortedMap.lastLE_eq_some_iff _).1 hlast
  exact ⟨_, he, rfl, rfl, hlo, hhi⟩

theorem Partitioned.base_eq (h : sys.Partitioned) {e : Nat × (Nat × Nat)} (he : e ∈ sys.ranges) :
    sys.xbar.base e.2.2 = e.1 := by
  unfold XBar.base
  cases hfind : sys.ranges.find? fun e' => e'.2.2 = e.2.2 with
  | none =>
      have hnone := List.find?_eq_none.mp hfind e he
      simp at hnone
  | some e' =>
      have hport : e'.2.2 = e.2.2 := by simpa using List.find?_some hfind
      rw [h.port_inj (List.mem_of_find?_eq_some hfind) he hport]
      rfl

/-- A packet a forward layer sent on for the request `pkt`. -/
structure Forwarded (idx : Nat) (e : Nat × (Nat × Nat)) (pkt fwd : Packet MemBus) : Prop where
  uid : fwd.uid = pkt.uid
  stack : fwd.payload.xbarPort = pkt.payload.xbarPort ++ [idx]
  request : ∃ addr len, fwd.payload.Request addr len ∧ addr + len ≤ e.2.1
  access : (NpRam.accessOf fwd.payload).shift e.1 = NpRam.accessOf pkt.payload
  data : fwd.payload.data = pkt.payload.data

/-- A forward layer sends a request that is in a range to the memory of the range. -/
theorem turn_inbound_inside (h : sys.Partitioned) (idx : Fin sys.xbar.inboundLen) (t : Timing)
    (rams : Nat → NpRam) {pkt : Packet MemBus} {addr len ofst port : Nat}
    (hreq : pkt.payload.Request addr len)
    (hfind : sys.xbar.addrMap.findPort addr len = .ok (ofst, port)) :
    ∃ e ∈ sys.ranges, ∃ (dst : Fin sys.xbar.outboundLen) (fwd : Packet MemBus), e.2.2 = dst ∧
      port = dst ∧ sys.xbar.turn (.inbound idx) t rams pkt = some ([(.memory dst, fwd)], rams) ∧
        Forwarded idx e pkt fwd := by
  obtain ⟨e, he, rfl, rfl, hlo, hhi⟩ := findPort_ok hfind
  have hport := h.outbound e he
  obtain ⟨n, hfwd⟩ := XBar.forwardLayer_asks t sys.xbar idx hreq.asks
  rw [hfind] at hfwd
  simp only [if_pos hport] at hfwd
  obtain ⟨fwd, hfwd, huid, hstack, hmode, hsub, hpat, hcmd, hdata⟩ : ∃ fwd : Packet MemBus,
      XBar.forwardLayer t sys.xbar idx pkt = .ok (.outbound e.2.2 fwd) ∧ fwd.uid = pkt.uid ∧
      fwd.payload.xbarPort = pkt.payload.xbarPort ++ [(idx : Nat)] ∧
      fwd.payload.mode = pkt.payload.mode ∧ fwd.payload.subrangeAddr = .phys (addr - e.1) ∧
      fwd.payload.pattern = pkt.payload.pattern ∧ fwd.payload.cmd = pkt.payload.cmd ∧
      fwd.payload.data = pkt.payload.data := ⟨_, hfwd, rfl, rfl, rfl, rfl, rfl, rfl, rfl⟩
  have hreq' : fwd.payload.Request (addr - e.1) len := by
    have hle : addr - e.1 + len ≤ addr + len := Nat.add_le_add_right (Nat.sub_le addr e.1) len
    refine ⟨hmode.trans hreq.mode, hsub, hpat.trans hreq.pattern, ?_,
      Nat.lt_of_le_of_lt hle hreq.fits⟩
    rw [hcmd, hdata]
    exact hreq.cmd
  refine ⟨e, he, ⟨e.2.2, hport⟩, fwd, rfl, rfl, ?_,
    ⟨huid, hstack, ⟨addr - e.1, len, hreq', by omega⟩, ?_, hdata⟩⟩
  · simp only [XBar.turn, hfwd, dif_pos hport]
  · have haddr : e.1 + (addr - e.1) = addr := Nat.add_sub_cancel' hlo
    have hsub' := hreq.subrange
    have hpat' := hreq.pattern
    rcases hreq.cmd with hcmd' | ⟨hcmd', -⟩
    · simp only [NpRam.accessOf, hsub, hpat, hcmd, hsub', hpat', hcmd', Access.shift, haddr]
    · simp only [NpRam.accessOf, hsub, hpat, hcmd, hdata, hsub', hpat', hcmd', Access.shift, haddr]

/-- It answers a request that is in no range with the error of the address map. -/
theorem turn_inbound_outside (idx : Fin sys.xbar.inboundLen) (t : Timing) (rams : Nat → NpRam)
    {pkt : Packet MemBus} {addr len : Nat} {err : AddrRangeError}
    (hreq : pkt.payload.Request addr len)
    (hfind : sys.xbar.addrMap.findPort addr len = .error err) :
    ∃ ans : Packet MemBus,
      sys.xbar.turn (.inbound idx) t rams pkt = some ([(.master idx, ans)], rams) ∧
        ans.uid = pkt.uid ∧ ans.payload.mode = .error (.addrRange err) := by
  obtain ⟨n, hfwd⟩ := XBar.forwardLayer_asks t sys.xbar idx hreq.asks
  rw [hfind] at hfwd
  obtain ⟨ans, hfwd, huid, hmode⟩ : ∃ ans : Packet MemBus,
      XBar.forwardLayer t sys.xbar idx pkt = .ok (.inbound idx ans) ∧ ans.uid = pkt.uid ∧
      ans.payload.mode = .error (.addrRange err) := ⟨_, hfwd, rfl, rfl⟩
  refine ⟨ans, ?_, huid, hmode⟩
  simp only [XBar.turn, hfwd, dif_pos idx.isLt]

/-- A memory serves a request that fits into it in one step, and answers it. -/
theorem turn_memory (dst : Fin sys.xbar.outboundLen) (t : Timing) (rams : Nat → NpRam)
    {req : Packet MemBus} {addr len : Nat} (hreq : req.payload.Request addr len)
    (hin : addr + len ≤ (rams dst).memory.length) :
    ∃ (resp : Packet MemBus) (ram : NpRam),
      sys.xbar.turn (.memory dst) t rams req =
        some ([(.outbound dst, resp)], Function.update rams dst ram) ∧
      ram.memory = (NpRam.accessOf req.payload).step (rams dst).memory ∧
      resp.uid = req.uid ∧ resp.payload.mode = .response ∧
      resp.payload.data = req.payload.data ++
        (NpRam.accessOf req.payload).result (rams dst).memory ∧
      resp.payload.xbarPort = req.payload.xbarPort ∧ resp.payload.cmd = req.payload.cmd ∧
      resp.payload.pattern = req.payload.pattern := by
  have hserved := hreq.served hin req.uid
  obtain ⟨delay, resp, hhandle, hmode, hdata⟩ := NpRam.handleRequest_served t hserved
  obtain ⟨hport, hcmd, hpat⟩ := NpRam.handleRequest_keeps hhandle
  have htx : TxStatus.txCheck req.payload = .ok () := hserved.txCheck
  have hrx : RxStatus.rxCheck resp = .ok () := MemBus.rxCheck_eq_ok_iff.mpr hmode
  refine ⟨(req.setPayload resp).appendDelay delay,
    { rams dst with memory := (NpRam.accessOf req.payload).step (rams dst).memory }, ?_, rfl, rfl,
    hmode, hdata, hport, hcmd, hpat⟩
  simp only [XBar.turn, forgeResp, htx]
  dsimp only at hhandle
  rw [hhandle]
  simp only [bind, Except.bind, hrx]
  rfl

/-- A backward layer sends an answer to the master on top of its route stack. -/
theorem turn_outbound (dst : Fin sys.xbar.outboundLen) (t : Timing) (rams : Nat → NpRam)
    {resp : Packet MemBus} {idx : Fin sys.xbar.inboundLen}
    (htop : resp.payload.xbarPort.getLast? = some (idx : Nat))
    (hcmd : resp.payload.cmd ≠ .addrRange) (hlen : ∃ m, resp.payload.pattern.len = .ok m) :
    ∃ ans : Packet MemBus,
      sys.xbar.turn (.outbound dst) t rams resp = some ([(.master idx, ans)], rams) ∧
        outcome ans = outcome resp := by
  have hown : resp.payload.xbarPort = resp.payload.xbarPort.dropLast ++ [(idx : Nat)] := by
    obtain ⟨l, hl⟩ := List.getLast?_eq_some_iff.mp htop
    rw [hl, List.dropLast_concat]
  obtain ⟨ans, hback, -⟩ := XBar.backwardLayer_own t dst hown idx.isLt hcmd hlen
  obtain ⟨-, -, hmode, hdata, -⟩ := XBar.backwardLayer_spec hback
  have huid := XBar.backwardLayer_uid hback
  refine ⟨ans, ?_, by rw [outcome, outcome, huid, hmode, hdata]⟩
  simp only [XBar.turn, hback, dif_pos idx.isLt]

/-! ### The packets on their way -/

/-- What holds of a packet, by where it is and who put it there. -/
def Kind (sys : MemSystem) : sys.xbar.Station → Option sys.xbar.Station → Packet MemBus → Prop
  | .inbound _, none, pkt => ∃ addr len, pkt.payload.Request addr len
  | .memory dst, some (.inbound idx), pkt =>
      pkt.payload.xbarPort.getLast? = some (idx : Nat) ∧ ∃ e ∈ sys.ranges, e.2.2 = dst ∧
        ∃ addr len, pkt.payload.Request addr len ∧ addr + len ≤ e.2.1
  | .outbound dst, some (.memory dst'), pkt =>
      dst' = dst ∧ (∃ idx : Fin sys.xbar.inboundLen,
        pkt.payload.xbarPort.getLast? = some (idx : Nat)) ∧
      pkt.payload.cmd ≠ .addrRange ∧ ∃ m, pkt.payload.pattern.len = .ok m
  | .master _, some (.outbound _), _ => True
  | .master idx, some (.inbound idx'), _ => idx' = idx
  | _, _, _ => False

/-- Each memory is as large as its range. -/
def Sized (sys : MemSystem) (rams : Nat → NpRam) : Prop :=
  ∀ e ∈ sys.ranges, (rams e.2.2).memory.length = e.2.1

/-- What a turn makes of a packet, and of the memories. -/
inductive Turned (sys : MemSystem) (rams : Nat → NpRam) :
    sys.xbar.Station → Option sys.xbar.Station → Packet MemBus →
      List (sys.xbar.Station × Packet MemBus) → (Nat → NpRam) → Prop where
  | forward (idx : Fin sys.xbar.inboundLen) (dst : Fin sys.xbar.outboundLen)
      (e : Nat × (Nat × Nat)) (pkt fwd : Packet MemBus) (he : e ∈ sys.ranges) (hport : e.2.2 = dst)
      (hroute : sys.xbar.route pkt.payload = some (.ok dst)) (hfwd : Forwarded idx e pkt fwd) :
      Turned sys rams (.inbound idx) none pkt [(.memory dst, fwd)] rams
  | refuse (idx : Fin sys.xbar.inboundLen) (pkt ans : Packet MemBus) (err : AddrRangeError)
      (hroute : sys.xbar.route pkt.payload = some (.error err)) (huid : ans.uid = pkt.uid)
      (hmode : ans.payload.mode = .error (.addrRange err)) :
      Turned sys rams (.inbound idx) none pkt [(.master idx, ans)] rams
  | serve (idx : Fin sys.xbar.inboundLen) (dst : Fin sys.xbar.outboundLen)
      (e : Nat × (Nat × Nat)) (req resp : Packet MemBus) (ram : NpRam) (he : e ∈ sys.ranges)
      (hport : e.2.2 = dst) (htop : resp.payload.xbarPort.getLast? = some (idx : Nat))
      (hin : (NpRam.accessOf req.payload).InRange e.2.1)
      (hram : ram.memory = (NpRam.accessOf req.payload).step (rams dst).memory)
      (huid : resp.uid = req.uid) (hmode : resp.payload.mode = .response)
      (hdata : resp.payload.data =
        req.payload.data ++ (NpRam.accessOf req.payload).result (rams dst).memory)
      (hcmd : resp.payload.cmd ≠ .addrRange) (hlen : ∃ m, resp.payload.pattern.len = .ok m) :
      Turned sys rams (.memory dst) (some (.inbound idx)) req [(.outbound dst, resp)]
        (Function.update rams dst ram)
  | deliver (idx : Fin sys.xbar.inboundLen) (dst : Fin sys.xbar.outboundLen)
      (resp ans : Packet MemBus) (htop : resp.payload.xbarPort.getLast? = some (idx : Nat))
      (hout : outcome ans = outcome resp) :
      Turned sys rams (.outbound dst) (some (.memory dst)) resp [(.master idx, ans)] rams
  | receive (idx : Fin sys.xbar.inboundLen) (src : Option sys.xbar.Station) (ans : Packet MemBus)
      (hsrc : src = some (.inbound idx) ∨ ∃ dst, src = some (.outbound dst)) :
      Turned sys rams (.master idx) src ans [] rams

theorem route_eq (sys : MemSystem) {req : MemBus} {addr len : Nat} (h : req.Request addr len) :
    sys.xbar.route req = some ((sys.xbar.addrMap.findPort addr len).map Prod.snd) := by
  have hrange : req.pattern.range = .ok len := by
    rw [h.pattern]
    rfl
  simp only [XBar.route, h.subrange, hrange]

/-- No process panics on a packet of its kind. -/
theorem turn_turned (h : sys.Partitioned) {rams : Nat → NpRam} (hsized : sys.Sized rams)
    {q : sys.xbar.Station} {src : Option sys.xbar.Station} {pkt : Packet MemBus}
    (hk : sys.Kind q src pkt) (t : Timing) :
    ∃ outs rams', sys.xbar.turn q t rams pkt = some (outs, rams') ∧
      Turned sys rams q src pkt outs rams' := by
  cases q with
  | inbound idx =>
      cases src with
      | some src => exact hk.elim
      | none =>
          obtain ⟨addr, len, hreq⟩ := hk
          have hroute := route_eq sys hreq
          cases hfind : sys.xbar.addrMap.findPort addr len with
          | error err =>
              obtain ⟨ans, hturn, huid, hmode⟩ := turn_inbound_outside idx t rams hreq hfind
              rw [hfind] at hroute
              exact ⟨_, _, hturn, .refuse idx pkt ans err hroute huid hmode⟩
          | ok out =>
              obtain ⟨ofst, port⟩ := out
              obtain ⟨e, he, dst, fwd, hport, rfl, hturn, hfwd⟩ :=
                turn_inbound_inside h idx t rams hreq hfind
              rw [hfind] at hroute
              exact ⟨_, _, hturn, .forward idx dst e pkt fwd he hport hroute hfwd⟩
  | memory dst =>
      rcases src with - | src
      · exact hk.elim
      · cases src with
        | outbound i => exact hk.elim
        | memory i => exact hk.elim
        | master i => exact hk.elim
        | inbound idx =>
            obtain ⟨htop, e, he, hport, addr, len, hreq, hin⟩ := hk
            have hlen : (rams dst).memory.length = e.2.1 := hport ▸ hsized e he
            obtain ⟨resp, ram, hturn, hram, huid, hmode, hdata, hstack, hcmd, hpat⟩ :=
              turn_memory dst t rams hreq (by omega)
            refine ⟨_, _, hturn, .serve idx dst e pkt resp ram he hport (hstack ▸ htop)
              (hreq.served hin pkt.uid).inRange hram huid hmode hdata ?_ ?_⟩
            · rw [hcmd]
              exact hreq.asks.cmd
            · rw [hpat]
              exact hreq.len_ok
  | outbound dst =>
      rcases src with - | src
      · exact hk.elim
      · cases src with
        | inbound i => exact hk.elim
        | outbound i => exact hk.elim
        | master i => exact hk.elim
        | memory dst' =>
            obtain ⟨rfl, ⟨idx, htop⟩, hcmd, hlen⟩ := hk
            obtain ⟨ans, hturn, hout⟩ := turn_outbound dst' t rams htop hcmd hlen
            exact ⟨_, _, hturn, .deliver idx dst' pkt ans htop hout⟩
  | master idx =>
      rcases src with - | src
      · exact hk.elim
      · cases src with
        | memory i => exact hk.elim
        | master i => exact hk.elim
        | outbound dst => exact ⟨_, _, rfl, .receive idx _ pkt (Or.inr ⟨dst, rfl⟩)⟩
        | inbound idx' =>
            obtain rfl : idx' = idx := hk
            exact ⟨_, _, rfl, .receive idx' _ pkt (Or.inl rfl)⟩

variable {inflight : sys.xbar.Station → Nat}

/-- What a process makes of a packet of its kind is what its turn makes. -/
theorem turned_of_turn (h : sys.Partitioned) {rams rams' : Nat → NpRam} (hsized : sys.Sized rams)
    {q : sys.xbar.Station} {src : Option sys.xbar.Station} {pkt : Packet MemBus}
    (hk : sys.Kind q src pkt) {t : Timing} {outs : List (sys.xbar.Station × Packet MemBus)}
    (hturn : sys.xbar.turn q t rams pkt = some (outs, rams')) :
    Turned sys rams q src pkt outs rams' := by
  obtain ⟨outs₁, rams₁, hturn₁, hturned⟩ := turn_turned h hsized hk t
  rw [hturn, Option.some.injEq, Prod.mk.injEq] at hturn₁
  obtain ⟨rfl, rfl⟩ := hturn₁
  exact hturned

/-- Serving a request keeps the size of every memory. -/
theorem Sized.update {rams : Nat → NpRam} (h : sys.Sized rams) {e : Nat × (Nat × Nat)}
    (he : e ∈ sys.ranges) {req : MemBus} {ram : NpRam}
    (hin : (NpRam.accessOf req).InRange e.2.1)
    (hram : ram.memory = (NpRam.accessOf req).step (rams e.2.2).memory) :
    sys.Sized (Function.update rams e.2.2 ram) := by
  intro e' he'
  by_cases hp : e'.2.2 = e.2.2
  · have hlen : (rams e.2.2).memory.length = e'.2.1 := hp ▸ h e' he'
    rw [hp, Function.update_self, hram, Access.length_step, hlen]
    rw [h e he]
    exact hin
  · rw [Function.update_of_ne hp]
    exact h e' he'

theorem keeps (h : sys.Partitioned) :
    Stations.Keeps (sys.xbar.net inflight) sys.Kind sys.Sized := by
  refine ⟨fun q t rams src pkt outs rams' hk hsized hturn => ?_⟩
  cases turned_of_turn h hsized hk hturn with
  | forward idx dst e pkt fwd he hport hroute hfwd =>
      refine ⟨hsized, List.forall_mem_singleton.mpr ⟨?_, e, he, hport, hfwd.request⟩⟩
      rw [hfwd.stack, List.getLast?_concat]
  | refuse idx pkt ans err hroute huid hmode =>
      exact ⟨hsized, List.forall_mem_singleton.mpr rfl⟩
  | serve idx dst e req resp ram he hport htop hin hram huid hmode hdata hcmd hlen =>
      refine ⟨?_, List.forall_mem_singleton.mpr ⟨rfl, ⟨idx, htop⟩, hcmd, hlen⟩⟩
      rw [← hport] at hram ⊢
      exact hsized.update he hin hram
  | deliver idx dst resp ans htop hout => exact ⟨hsized, List.forall_mem_singleton.mpr trivial⟩
  | receive idx src ans hsrc => exact ⟨hsized, List.forall_mem_nil _⟩

/-- How many steps a packet is from its master, at most. -/
def weight : sys.xbar.Station → Nat
  | .inbound _ => 7
  | .memory _ => 5
  | .outbound _ => 3
  | .master _ => 1

theorem descends (h : sys.Partitioned) :
    Stations.Descends (sys.xbar.net inflight) sys.Kind sys.Sized weight where
  works q rams src pkt hk hsized := by
    obtain ⟨outs, rams', hturn, -⟩ := turn_turned h hsized hk {}
    exact ⟨{}, _, hturn⟩
  lighter q t rams src pkt outs rams' hk hsized hturn := by
    cases turned_of_turn h hsized hk hturn <;> simp [weight]

/-! ### In order and once -/

/-- Every entry of the log is a turn of a process. -/
def Turns (sys : MemSystem) (log : sys.xbar.NetLog) : Prop :=
  ∀ q src pkt outs, .worked q src pkt outs ∈ log → ∃ rams rams',
    Turned sys rams q src pkt outs rams'

theorem Turns.of_sound (h : sys.Partitioned) {s : sys.xbar.NetState}
    (hs : Stations.Sound (sys.xbar.net inflight) sys.Kind sys.Sized s) : sys.Turns s.log := by
  intro q src pkt outs hmem
  obtain ⟨hk, t, rams, rams', hsized, hturn⟩ := hs.worked q src pkt outs hmem
  exact ⟨rams, rams', turned_of_turn h hsized hk hturn⟩

theorem Turns.tail {e : Stations.Event sys.xbar.Station (Packet MemBus)} {log : sys.xbar.NetLog}
    (h : sys.Turns (e :: log)) : sys.Turns log :=
  fun q src pkt outs hmem => h q src pkt outs (List.mem_cons_of_mem e hmem)

/-- The requests of a master that a memory served are those it took from the forward layer of that
master. -/
theorem map_req_servedFor {log : sys.xbar.NetLog} (h : sys.Turns log)
    (idx : Fin sys.xbar.inboundLen) (dst : Fin sys.xbar.outboundLen) :
    (servedFor idx dst log).map XBar.Serve.req =
      Stations.bySrc (some (.inbound idx)) (Stations.taken (.memory dst) log) := by
  induction log with
  | nil => rfl
  | cons e rest ih =>
      have hrest := ih h.tail
      cases e with
      | arrived q m => simpa [servedFor, XBar.serves, Stations.taken] using hrest
      | passed p q m => simpa [servedFor, XBar.serves, Stations.taken] using hrest
      | worked q src m outs =>
          obtain ⟨rams, rams', hturned⟩ := h q src m outs List.mem_cons_self
          cases hturned with
          | forward => simpa [servedFor, XBar.serves, Stations.taken] using hrest
          | refuse => simpa [servedFor, XBar.serves, Stations.taken] using hrest
          | deliver => simpa [servedFor, XBar.serves, Stations.taken] using hrest
          | receive => simpa [servedFor, XBar.serves, Stations.taken] using hrest
          | serve idx' dst' =>
              by_cases hi : idx' = idx <;> by_cases hd : dst' = dst <;>
                simpa [servedFor, XBar.serves, Stations.taken, Stations.bySrc, Fin.val_inj, hi, hd]
                  using hrest

/-- The answers to them are those the memory made for it. -/
theorem map_ans_servedFor {log : sys.xbar.NetLog} (h : sys.Turns log)
    (idx : Fin sys.xbar.inboundLen) (dst : Fin sys.xbar.outboundLen) :
    (servedFor idx dst log).map (fun x => outcome x.ans) =
      (Stations.toDst (.outbound dst) (Stations.made (.memory dst) log)).flatMap
        (answerFor idx) := by
  induction log with
  | nil => rfl
  | cons e rest ih =>
      have hrest := ih h.tail
      cases e with
      | arrived q m => simpa [servedFor, XBar.serves, Stations.made] using hrest
      | passed p q m => simpa [servedFor, XBar.serves, Stations.made] using hrest
      | worked q src m outs =>
          obtain ⟨rams, rams', hturned⟩ := h q src m outs List.mem_cons_self
          cases hturned with
          | forward => simpa [servedFor, XBar.serves, Stations.made] using hrest
          | refuse => simpa [servedFor, XBar.serves, Stations.made] using hrest
          | deliver => simpa [servedFor, XBar.serves, Stations.made] using hrest
          | receive => simpa [servedFor, XBar.serves, Stations.made] using hrest
          | serve idx' dst' e' req resp ram he hport htop =>
              by_cases hi : idx' = idx <;> by_cases hd : dst' = dst <;>
                simpa [servedFor, XBar.serves, Stations.made, Stations.toDst, Fin.val_inj, hi, hd,
                  answerFor, htop] using hrest

/-- What a forward layer sends to a memory are the accesses its master asked the memory for. -/
theorem map_made_memory (h : sys.Partitioned) {log : sys.xbar.NetLog} (ht : sys.Turns log)
    (idx : Fin sys.xbar.inboundLen) (dst : Fin sys.xbar.outboundLen) :
    (Stations.toDst (.memory dst) (Stations.made (.inbound idx) log)).map
        (fun fwd => (fwd.uid, (NpRam.accessOf fwd.payload).shift (sys.xbar.base dst),
          fwd.payload.data)) =
      ((Stations.taken (.inbound idx) log).map Prod.snd).flatMap (sys.xbar.askFor dst) := by
  refine Stations.map_made_eq fun src pkt outs hmem => ?_
  obtain ⟨rams, rams', hturned⟩ := ht _ _ _ _ hmem
  cases hturned with
  | forward idx dst' e pkt fwd he hport hroute hfwd =>
      by_cases hd : dst' = dst
      · subst hd
        have hbase := h.base_eq he
        rw [hport] at hbase
        simp [Stations.toDst, XBar.askFor, hroute, hbase, hfwd.uid, hfwd.access,
          hfwd.data]
      · simp [Stations.toDst, XBar.askFor, hroute, Fin.val_inj, hd]
  | refuse idx pkt ans err hroute => simp [Stations.toDst, XBar.askFor, hroute]

/-- What it sends back to its master are the requests that are in no range. -/
theorem map_made_master {log : sys.xbar.NetLog} (ht : sys.Turns log)
    (idx : Fin sys.xbar.inboundLen) :
    (Stations.toDst (.master idx) (Stations.made (.inbound idx) log)).map
        (fun ans => (ans.uid, ans.payload.mode)) =
      ((Stations.taken (.inbound idx) log).map Prod.snd).flatMap sys.xbar.refusalOf := by
  refine Stations.map_made_eq fun src pkt outs hmem => ?_
  obtain ⟨rams, rams', hturned⟩ := ht _ _ _ _ hmem
  cases hturned with
  | forward idx dst e pkt fwd he hport hroute => simp [Stations.toDst, XBar.refusalOf, hroute]
  | refuse idx pkt ans err hroute huid hmode =>
      simp [Stations.toDst, XBar.refusalOf, hroute, huid, hmode]

/-- A backward layer takes its packets from its memory alone. -/
theorem bySrc_taken_outbound {log : sys.xbar.NetLog} (ht : sys.Turns log)
    (dst : Fin sys.xbar.outboundLen) :
    Stations.bySrc (some (.memory dst)) (Stations.taken (.outbound dst) log) =
      (Stations.taken (.outbound dst) log).map Prod.snd := by
  refine Stations.bySrc_eq_map fun e he => ?_
  obtain ⟨outs, hmem⟩ := Stations.exists_worked_of_mem_taken he
  obtain ⟨rams, rams', hturned⟩ := ht _ _ _ _ hmem
  generalize hsrc : e.1 = src at hturned
  cases hturned
  rfl

/-- What it sends to a master are the answers with the master on top of their stack. -/
theorem map_made_answers {log : sys.xbar.NetLog} (ht : sys.Turns log)
    (idx : Fin sys.xbar.inboundLen) (dst : Fin sys.xbar.outboundLen) :
    (Stations.toDst (.master idx) (Stations.made (.outbound dst) log)).map outcome =
      (Stations.bySrc (some (.memory dst)) (Stations.taken (.outbound dst) log)).flatMap
        (answerFor idx) := by
  rw [bySrc_taken_outbound ht]
  refine Stations.map_made_eq fun src resp outs hmem => ?_
  obtain ⟨rams, rams', hturned⟩ := ht _ _ _ _ hmem
  cases hturned with
  | deliver idx' dst resp ans htop hout =>
      by_cases hi : idx' = idx <;>
        simp [Stations.toDst, answerFor, Fin.val_inj, htop, hout, hi]

/-! ### One memory -/

/-- Each memory is its window of the flat memory after the requests that were served, and each
request was answered with what it found there. -/
structure Serial (sys : MemSystem) (flat : List UInt8) (s : sys.xbar.NetState) : Prop where
  answered : ∀ pre x post, XBar.serves s.log = pre ++ x :: post →
    x.ans.uid = x.req.uid ∧ x.ans.payload.mode = .response ∧ x.ans.payload.data =
      x.req.payload.data ++ (x.access sys.xbar).result (sys.xbar.memoryAfter flat pre)
  memories : ∀ e ∈ sys.ranges, (s.shared e.2.2).memory =
    Window.read (sys.xbar.memoryAfter flat (XBar.serves s.log)) e.1 e.2.1
  size : (sys.xbar.memoryAfter flat (XBar.serves s.log)).length = flat.length

theorem memoryAfter_snoc (self : XBar) (flat : List UInt8) (xs : List XBar.Serve) (x : XBar.Serve) :
    self.memoryAfter flat (xs ++ [x]) = (x.access self).step (self.memoryAfter flat xs) := by
  unfold XBar.memoryAfter
  rw [List.map_append, Access.serve_append]
  rfl

theorem serves_snoc {self : XBar} (log : self.NetLog)
    (e : Stations.Event self.Station (Packet MemBus)) :
    XBar.serves (log ++ [e]) = XBar.serves log ++ XBar.serves [e] := List.flatMap_append

/-- A step that serves nothing keeps it. -/
theorem Serial.of_eq {flat : List UInt8} {s s' : sys.xbar.NetState} (h : Serial sys flat s)
    (hserves : XBar.serves s'.log = XBar.serves s.log) (hshared : s'.shared = s.shared) :
    Serial sys flat s' := by
  refine ⟨?_, ?_, ?_⟩
  · rw [hserves]
    exact h.answered
  · rw [hserves, hshared]
    exact h.memories
  · rw [hserves]
    exact h.size

/-- Serving a request keeps it. -/
theorem Serial.serve {flat : List UInt8} (h : sys.Partitioned)
    (hcovered : ∀ e ∈ sys.ranges, e.1 + e.2.1 ≤ flat.length) {s s' : sys.xbar.NetState}
    (hs : Serial sys flat s) {idx : Fin sys.xbar.inboundLen} {dst : Fin sys.xbar.outboundLen}
    {e : Nat × (Nat × Nat)} {req resp : Packet MemBus} {ram : NpRam} (he : e ∈ sys.ranges)
    (hport : e.2.2 = dst) (hin : (NpRam.accessOf req.payload).InRange e.2.1)
    (hram : ram.memory = (NpRam.accessOf req.payload).step (s.shared dst).memory)
    (huid : resp.uid = req.uid) (hmode : resp.payload.mode = .response)
    (hdata : resp.payload.data =
      req.payload.data ++ (NpRam.accessOf req.payload).result (s.shared dst).memory)
    (hserves : XBar.serves s'.log = XBar.serves s.log ++ [⟨idx, dst, req, resp⟩])
    (hshared : s'.shared = Function.update s.shared dst ram) : Serial sys flat s' := by
  have hwindow := hs.memories e he
  have hcov : e.1 + e.2.1 ≤ (sys.xbar.memoryAfter flat (XBar.serves s.log)).length := by
    rw [hs.size]
    exact hcovered e he
  have hacc : XBar.Serve.access sys.xbar ⟨idx, dst, req, resp⟩ =
      (NpRam.accessOf req.payload).shift e.1 := by
    rw [← h.base_eq he, hport]
    rfl
  rw [hport] at hwindow
  refine ⟨?_, ?_, ?_⟩
  · intro pre x post hsplit
    rw [hserves] at hsplit
    rcases Stations.snoc_eq_append_cons hsplit with ⟨rfl, rfl⟩ | ⟨post', hsplit⟩
    · refine ⟨huid, hmode, ?_⟩
      rw [hdata, hacc, Access.result_shift hin, ← hwindow]
    · exact hs.answered pre x post' hsplit
  · intro e' he'
    rw [hserves, memoryAfter_snoc, hacc, hshared]
    by_cases hee : e' = e
    · rw [hee, hport, Function.update_self, hram, Access.read_step_shift hin hcov, hwindow]
    · have hne : e'.2.2 ≠ dst := fun hp => hee (h.port_inj he' he (hp.trans hport.symm))
      rw [Function.update_of_ne hne, hs.memories e' he', Access.read_step_shift_apart hin hcov]
      exact (h.apart he' he hee).symm
  · rw [hserves, memoryAfter_snoc, hacc, Access.length_step (hin.shift hcov), hs.size]

/-- **Every step keeps it.** -/
theorem Serial.step {flat : List UInt8} (h : sys.Partitioned)
    (hcovered : ∀ e ∈ sys.ranges, e.1 + e.2.1 ≤ flat.length) {s s' : sys.xbar.NetState}
    {a : sys.xbar.NetAct} (hreg : Stations.Sound (sys.xbar.net inflight) sys.Kind sys.Sized s)
    (hs : Serial sys flat s) (hstep : (sys.xbar.net inflight).step s a = some s') :
    Serial sys flat s' := by
  cases Stations.step_iff.mp hstep with
  | arrive q m room => exact hs.of_eq (by simp [XBar.serves]) rfl
  | pass p q m rest hand room => exact hs.of_eq (by simp [XBar.serves]) rfl
  | take q t src m rest outs shared hand queue work =>
      have hk : sys.Kind q src m := hreg.queue q (src, m) (queue ▸ List.mem_cons_self)
      cases turned_of_turn h hreg.shared hk work with
      | forward => exact hs.of_eq (by simp [XBar.serves]) rfl
      | refuse => exact hs.of_eq (by simp [XBar.serves]) rfl
      | deliver => exact hs.of_eq (by simp [XBar.serves]) rfl
      | receive => exact hs.of_eq (by simp [XBar.serves]) rfl
      | serve idx dst e req resp ram he hport htop hin hram huid hmode hdata =>
          exact hs.serve h hcovered he hport hin hram huid hmode hdata
            (serves_snoc s.log _) rfl

/-! ### Every interleaving -/

/-- What holds in every state of a run. -/
structure Concurrent (sys : MemSystem) (inflight : sys.xbar.Station → Nat) (flat : List UInt8)
    (s : sys.xbar.NetState) : Prop where
  regular : Stations.Regular (sys.xbar.net inflight) sys.Kind sys.Sized weight s
  serial : Serial sys flat s

/-- The masters send reads and writes of one chunk at physical addresses, each to its own inbound
port; nothing else comes in from outside. -/
def Issues (sys : MemSystem) : sys.xbar.NetAct → Prop
  | .arrive (.inbound _) pkt => ∃ addr len, pkt.payload.Request addr len
  | .arrive _ _ => False
  | _ => True

theorem Issues.brings {a : sys.xbar.NetAct} (h : sys.Issues a) : a.Brings sys.Kind := by
  cases a with
  | arrive q pkt =>
      cases q with
      | inbound idx => exact h
      | outbound dst => exact h.elim
      | memory dst => exact h.elim
      | master idx => exact h.elim
  | take q t => trivial
  | pass p => trivial

/-- The memories as the flat memory has them, and nothing under way. -/
theorem Concurrent.init {flat : MemoryChecker} (hsim : sys.Simulates flat) :
    Concurrent sys inflight flat.memory (Stations.State.init sys.rams) := by
  refine ⟨Stations.Regular.init fun e he => hsim.length he, ⟨?_, hsim.window, rfl⟩⟩
  intro pre x post hsplit
  exact absurd hsplit (by simp [XBar.serves, Stations.State.init])

theorem Concurrent.step {flat : List UInt8} (h : sys.Partitioned)
    (hcovered : ∀ e ∈ sys.ranges, e.1 + e.2.1 ≤ flat.length) {s s' : sys.xbar.NetState}
    {a : sys.xbar.NetAct} (hs : Concurrent sys inflight flat s) (ha : a.Brings sys.Kind)
    (hstep : (sys.xbar.net inflight).step s a = some s') : Concurrent sys inflight flat s' :=
  ⟨hs.regular.step (keeps h) (descends h) ha hstep,
    hs.serial.step h hcovered hs.regular.sound hstep⟩

theorem Concurrent.run {flat : List UInt8} (h : sys.Partitioned)
    (hcovered : ∀ e ∈ sys.ranges, e.1 + e.2.1 ≤ flat.length) {s s' : sys.xbar.NetState}
    (hs : Concurrent sys inflight flat s) {acts : List sys.xbar.NetAct}
    (hacts : ∀ a ∈ acts, a.Brings sys.Kind)
    (hrun : Runs.run (sys.xbar.net inflight).step s acts = some s') :
    Concurrent sys inflight flat s' := by
  refine Runs.run_inv_along (I := Concurrent sys inflight flat)
    (P := fun _ a => a.Brings sys.Kind) ?_ hs (Runs.along_of_forall hacts) hrun
  intro s a s' hs ha hstep
  exact hs.step h hcovered ha hstep

/-- The requests of a master are what came to its inbound port from outside. -/
theorem Concurrent.requests_eq {flat : List UInt8} {s : sys.xbar.NetState}
    (hs : Concurrent sys inflight flat s) (idx : Fin sys.xbar.inboundLen) :
    XBar.requests idx s.log = Stations.bySrc none (Stations.arrivals (.inbound idx) s.log) := by
  refine (Stations.bySrc_eq_map fun e he => ?_).symm
  have hk := hs.regular.arrivals_ok he
  generalize e.1 = src at hk
  cases src with
  | none => rfl
  | some src => exact hk.elim

/-- Each is of one chunk at a physical address. -/
theorem Concurrent.request {flat : List UInt8} {s : sys.xbar.NetState}
    (hs : Concurrent sys inflight flat s) {idx : Fin sys.xbar.inboundLen} {pkt : Packet MemBus}
    (hpkt : pkt ∈ XBar.requests idx s.log) : ∃ addr len, pkt.payload.Request addr len := by
  obtain ⟨e, he, rfl⟩ := List.mem_map.mp hpkt
  have hk := hs.regular.arrivals_ok he
  generalize e.1 = src at hk
  cases src with
  | none => exact hk
  | some src => exact hk.elim

/-- In such a state the requests have taken effect one after another. -/
theorem Concurrent.linearized {flat : List UInt8} (h : sys.Partitioned) {s : sys.xbar.NetState}
    (hs : Concurrent sys inflight flat s) : Linearized sys flat s := by
  have hacc := hs.regular.accounted
  have ht := Turns.of_sound h hs.regular.sound
  have hreqs : ∀ idx, UpTo s.Quiet ((Stations.taken (.inbound idx) s.log).map Prod.snd)
      (XBar.requests idx s.log) := fun idx => (hacc.taken_arrivals (.inbound idx)).map Prod.snd
  refine ⟨?_, hs.serial.answered, hs.serial.memories, ?_, ?_, ?_, ?_⟩
  · intro idx dst
    have hserved : (servedFor idx dst s.log).map
          (fun x => (x.req.uid, x.access sys.xbar, x.req.payload.data)) =
        (Stations.bySrc (some (.inbound idx)) (Stations.taken (.memory dst) s.log)).map
          fun req => (req.uid, (NpRam.accessOf req.payload).shift (sys.xbar.base dst),
            req.payload.data) := by
      rw [← map_req_servedFor ht, List.map_map]
      refine List.map_congr_left fun x hx => ?_
      have hdst : x.dst = dst := by
        have hx' := (List.mem_filter.mp hx).2
        simp only [decide_eq_true_eq] at hx'
        exact hx'.2
      simp only [Function.comp_apply, XBar.Serve.access, hdst]
    rw [hserved]
    have hmade := (hacc.taken_made (.inbound idx) (.memory dst)).map
      fun req => (req.uid, (NpRam.accessOf req.payload).shift (sys.xbar.base dst),
        req.payload.data)
    rw [map_made_memory h ht] at hmade
    exact hmade.trans ((hreqs idx).flatMap _)
  · intro idx dst
    have hback := (hacc.taken_made (.outbound dst) (.master idx)).map outcome
    rw [map_made_answers ht] at hback
    rw [map_ans_servedFor ht]
    exact hback.trans ((hacc.taken_made (.memory dst) (.outbound dst)).flatMap _)
  · intro idx
    have hback := (hacc.taken_made (.inbound idx) (.master idx)).map
      fun ans : Packet MemBus => (ans.uid, ans.payload.mode)
    rw [map_made_master ht] at hback
    exact hback.trans ((hreqs idx).flatMap _)
  · intro idx e he
    obtain ⟨outs, hmem⟩ := Stations.exists_worked_of_mem_taken he
    obtain ⟨rams, rams', hturned⟩ := ht _ _ _ _ hmem
    generalize e.1 = src at hturned
    cases hturned with
    | receive idx src ans hsrc => exact hsrc
  · intro hmap idx pkt hpkt
    obtain ⟨addr, len, hreq⟩ := hs.request hpkt
    exact ⟨addr, len, hreq, by rw [route_eq sys hreq, hreq.findPort_eq hmap]⟩

/-- **Accesses linearize.** Memories behind disjoint ranges of a XBar are one flat memory to any
number of masters at once: in every interleaving of the masters, the layers of the XBar and the
memories, through channels of any size, the requests take effect one after another. -/
theorem accesses_linearize (sys : MemSystem) (inflight : sys.xbar.Station → Nat)
    (flat : MemoryChecker) (hsim : sys.Simulates flat) (acts : List sys.xbar.NetAct)
    (hacts : ∀ a ∈ acts, sys.Issues a) (s : sys.xbar.NetState)
    (hrun : Runs.run (sys.xbar.net inflight).step (Stations.State.init sys.rams) acts = some s) :
    Linearized sys flat.memory s := by
  have hs : Concurrent sys inflight flat.memory s :=
    (Concurrent.init hsim).run hsim.partitioned hsim.covered
      (fun a ha => (hacts a ha).brings) hrun
  exact hs.linearized hsim.partitioned

/-- Two masters and two memories of four bytes. -/
def twoMasters : MemSystem := { twoRams with xbar := { twoRams.xbar with inboundLen := 2 } }

theorem twoMasters_simulates : twoMasters.Simulates (MemoryChecker.start 0 8) := by
  refine ⟨⟨by decide, ?_, by decide, by decide⟩, rfl, by decide, by decide⟩
  show List.Pairwise _ [(0, (4, 1)), (4, (4, 0))]
  simp [AddrRangeMap.disjoint_span_iff]

/-- A write of the byte at 3. -/
def writeThree : Packet MemBus where
  uid := 0
  payload := MemBus.new 0 0 .write (.phys 3) (.simple 1) (some [7])

/-- A read of the four bytes below 4. -/
def readBelow : Packet MemBus where
  uid := 1
  payload := MemBus.new 0 1 .read (.phys 0) (.simple 4) none

/-- The second master is served first. -/
def secondFirst : List twoMasters.xbar.NetAct :=
  [.arrive (.inbound ⟨0, by decide⟩) writeThree, .take (.inbound ⟨0, by decide⟩) {},
    .arrive (.inbound ⟨1, by decide⟩) readBelow, .take (.inbound ⟨1, by decide⟩) {},
    .pass (.inbound ⟨1, by decide⟩), .take (.memory ⟨1, by decide⟩) {},
    .pass (.inbound ⟨0, by decide⟩), .pass (.memory ⟨1, by decide⟩),
    .take (.memory ⟨1, by decide⟩) {}]

theorem secondFirst_issues : ∀ a ∈ secondFirst, twoMasters.Issues a := by
  have hwrite : writeThree.payload.Request 3 1 := ⟨rfl, rfl, rfl, Or.inr ⟨rfl, rfl⟩, by decide⟩
  have hread : readBelow.payload.Request 0 4 := ⟨rfl, rfl, rfl, Or.inl rfl, by decide⟩
  simp only [secondFirst, List.forall_mem_cons]
  exact ⟨⟨3, 1, hwrite⟩, trivial, ⟨0, 4, hread⟩, trivial, trivial, trivial, trivial, trivial,
    trivial, List.forall_mem_nil _⟩

theorem secondFirst_runs : ∃ s, Runs.run (twoMasters.xbar.net fun _ => 1).step
    (Stations.State.init twoMasters.rams) secondFirst = some s :=
  Option.isSome_iff_exists.mp (by decide)

theorem accesses_linearize_secondFirst : ∃ s, Runs.run (twoMasters.xbar.net fun _ => 1).step
      (Stations.State.init twoMasters.rams) secondFirst = some s ∧
    Linearized twoMasters (MemoryChecker.start 0 8).memory s := by
  obtain ⟨s, hs⟩ := secondFirst_runs
  exact ⟨s, hs, accesses_linearize twoMasters _ _ twoMasters_simulates secondFirst
    secondFirst_issues s hs⟩

/-- **No request is lost.** Whatever happened, the processes can go on until nothing is under way,
however small the channels are, and then every request of every master has been answered once: by
the memory it was for, in the order the master asked that memory, or with the error of the map. -/
theorem every_request_answered (sys : MemSystem) (inflight : sys.xbar.Station → Nat)
    (hroom : ∀ q, 0 < inflight q) (flat : MemoryChecker) (hsim : sys.Simulates flat)
    (acts : List sys.xbar.NetAct) (hacts : ∀ a ∈ acts, sys.Issues a) (s : sys.xbar.NetState)
    (hrun : Runs.run (sys.xbar.net inflight).step (Stations.State.init sys.rams) acts = some s) :
    ∃ acts' s', (∀ a ∈ acts', a.Inner) ∧
      Runs.run (sys.xbar.net inflight).step s acts' = some s' ∧ s'.Quiet ∧
      Linearized sys flat.memory s' ∧
      (∀ idx dst, (XBar.answers idx dst s'.log).map Packet.uid =
        ((XBar.requests idx s.log).flatMap (sys.xbar.askFor dst)).map Prod.fst) ∧
      ∀ idx, (XBar.refusals idx s'.log).map (fun ans => (ans.uid, ans.payload.mode)) =
        (XBar.requests idx s.log).flatMap sys.xbar.refusalOf := by
  have hpart := hsim.partitioned
  have hs : Concurrent sys inflight flat.memory s :=
    (Concurrent.init hsim).run hpart hsim.covered (fun a ha => (hacts a ha).brings) hrun
  obtain ⟨acts', s', hrun', hinner, hquiet⟩ :=
    Stations.exists_quiet (keeps hpart) (descends hpart) hroom hs.regular
  have hs' := hs.run hpart hsim.covered (fun a ha => (hinner a ha).brings) hrun'
  have hlin := hs'.linearized hpart
  have hsame : ∀ idx, XBar.requests idx s'.log = XBar.requests idx s.log := by
    intro idx
    rw [hs'.requests_eq, hs.requests_eq]
    exact Stations.bySrc_none_run hinner hrun' _
  refine ⟨acts', s', hinner, hrun', hquiet, hlin, ?_, ?_⟩
  · intro idx dst
    have hans := congrArg (List.map Prod.fst) ((hlin.answers idx dst).eq hquiet)
    have hreq := congrArg (List.map Prod.fst) ((hlin.requests idx dst).eq hquiet)
    rw [List.map_map, List.map_map] at hans
    rw [hsame idx, List.map_map] at hreq
    rw [← hreq]
    refine hans.trans (List.map_congr_left fun x hx => ?_)
    obtain ⟨pre, post, hsplit⟩ := List.append_of_mem (List.mem_of_mem_filter hx)
    exact (hlin.serial pre x post hsplit).1
  · intro idx
    rw [← hsame idx]
    exact (hlin.refusals idx).eq hquiet

theorem every_request_answered_secondFirst : ∃ acts' s', (∀ a ∈ acts', a.Inner) ∧
    Runs.run (twoMasters.xbar.net fun _ => 1).step (Stations.State.init twoMasters.rams)
      (secondFirst ++ acts') = some s' ∧ s'.Quiet ∧
    Linearized twoMasters (MemoryChecker.start 0 8).memory s' := by
  obtain ⟨s, hs⟩ := secondFirst_runs
  obtain ⟨acts', s', hinner, hrun, hquiet, hlin, -⟩ := every_request_answered twoMasters
    (fun _ => 1) (fun _ => Nat.one_pos) _ twoMasters_simulates secondFirst secondFirst_issues s hs
  exact ⟨acts', s', hinner, Runs.run_append_iff.mpr ⟨s, hs, hrun⟩, hquiet, hlin⟩

end MemSystem

end Ra2m
