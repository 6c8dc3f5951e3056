/-
The accesses of hosts take effect in the order they were asked for.

A host sends requests ahead, but the bridge handles one at a time, so it is a master with
one request under way (`OneAtATime`) whatever the hosts do.  `Acked` says what each
request is acked with, `Hosted` is what every step keeps.  As the bridge waits for nothing
but its own packets, every request of a host that stays is acked in the end.
-/
import Ra2m.Cpn.HostLink
import Ra2m.Proofs.OneAtATime

namespace Ra2m

/-! ### The requests of a host -/

namespace IpcReq

def addr : IpcReq Slice → UInt64
  | read addr _ => addr
  | write addr _ => addr

def size : IpcReq Slice → UInt64
  | read _ sizeB => sizeB
  | write _ data => data.len

/-- The access a host asks for. -/
def access : IpcReq Slice → Access UInt8
  | read addr sizeB => .read addr.toNat sizeB.toNat
  | write addr data => .write addr.toNat data.bytes

/-- The ack of the access with its result. -/
def ack (data : List UInt8) : IpcReq Slice → IpcAck (List UInt8)
  | read _ _ => .read data
  | write _ _ => .write

end IpcReq

namespace H2sBridge

open MemSystem

variable {bridge : H2sBridge} {req : IpcReq Slice} {pkt : Packet MemBus}

/-- The bridge makes requests, if the addresses of the access end within the machine. -/
theorem toMemBus_request (bridge : H2sBridge) (now : Tick) {req : IpcReq Slice}
    (hfits : req.addr.toNat + req.size.toNat < 2 ^ 64) :
    (bridge.toMemBus now req).Request req.addr.toNat req.size.toNat := by
  cases req with
  | read addr sizeB => exact ⟨rfl, rfl, rfl, Or.inl rfl, hfits⟩
  | write addr data =>
      refine ⟨rfl, rfl, ?_, Or.inr ⟨rfl, ?_⟩, hfits⟩
      · simp [toMemBus, IpcReq.size]
      · simp [toMemBus, IpcReq.size, MemBus.new, MemBus.updateSubrange]

@[simp] theorem accessOf_toMemBus (bridge : H2sBridge) (now : Tick) (req : IpcReq Slice) :
    NpRam.accessOf (bridge.toMemBus now req) = req.access := by
  cases req with
  | read addr sizeB => rfl
  | write addr data =>
      simp [toMemBus, IpcReq.access, NpRam.accessOf, MemBus.new, MemBus.updateSubrange]

/-- Where a request goes and what it does there, if it is let through and has a route. -/
def place (bridge : H2sBridge) (sys : MemSystem) (req : IpcReq Slice) : List (Nat × Access UInt8) :=
  match bridge.params.checkRange req with
  | .error _ => []
  | .ok () =>
      match sys.xbar.addrMap.findPort req.addr.toNat req.size.toNat with
      | .ok (_, port) => [(port, req.access)]
      | .error _ => []

/-- The packet is one the bridge made for the request. -/
structure Made (bridge : H2sBridge) (req : IpcReq Slice) (pkt : Packet MemBus) : Prop where
  range : bridge.params.checkRange req = .ok ()
  sid : pkt.sid = none
  payload : ∃ now, pkt.payload = bridge.toMemBus now req
  fits : req.addr.toNat + req.size.toNat < 2 ^ 64

namespace Made

theorem request (h : Made bridge req pkt) :
    pkt.payload.Request req.addr.toNat req.size.toNat := by
  obtain ⟨now, hpayload⟩ := h.payload
  rw [hpayload]
  exact bridge.toMemBus_request now h.fits

theorem accessOf (h : Made bridge req pkt) : NpRam.accessOf pkt.payload = req.access := by
  obtain ⟨now, hpayload⟩ := h.payload
  rw [hpayload, accessOf_toMemBus]

theorem placeOf (h : Made bridge req pkt) (sys : MemSystem) :
    sys.xbar.placeOf pkt = bridge.place sys req := by
  unfold XBar.placeOf place
  rw [route_eq sys h.request, h.range, h.accessOf]
  cases sys.xbar.addrMap.findPort req.addr.toNat req.size.toNat with
  | error err => rfl
  | ok out => rfl

/-- A read brings no data along, and a write is acked without any. -/
theorem ack_eq (h : Made bridge req pkt) {ans : Packet MemBus} {data : List UInt8}
    (hdata : ans.payload.data = pkt.payload.data ++ data) :
    bridge.answer req (.ok ans) = req.ack data := by
  obtain ⟨now, hpayload⟩ := h.payload
  cases req with
  | read addr sizeB =>
      rw [hpayload] at hdata
      exact congrArg IpcAck.read hdata
  | write addr slice => rfl

end Made

end H2sBridge

/-! ### What a request is acked with -/

/-- The ack of a request: the error of the window or of the address map, or what the access found
when it took effect, after the requests handled before it. -/
inductive HostLink.Acked (sys : MemSystem) (bridge : H2sBridge) (idx : Fin sys.xbar.inboundLen)
    (flat : List UInt8) (log : sys.xbar.NetLog) (before : List (IpcReq Slice)) (req : IpcReq Slice)
    (ack : IpcAck (List UInt8)) : Prop where
  | outside (err : IpcError) (range : bridge.params.checkRange req = .error err)
      (ack : ack = .error err)
  | refused (err : AddrRangeError) (range : bridge.params.checkRange req = .ok ())
      (map : sys.xbar.addrMap.findPort req.addr.toNat req.size.toNat = .error err)
      (ack : ack = .error (.ra2m (bridge.errText (.status (.addrRange err)))))
  | served (ofst port : Nat) (range : bridge.params.checkRange req = .ok ())
      (map : sys.xbar.addrMap.findPort req.addr.toNat req.size.toNat = .ok (ofst, port))
      (pre : List XBar.Serve) (x : XBar.Serve) (post : List XBar.Serve)
      (serves : XBar.serves log = pre ++ x :: post) (master : x.master = (idx : Nat))
      (access : x.access sys.xbar = req.access)
      (order : (pre.filter fun y => y.master = (idx : Nat)).map (XBar.Serve.place sys.xbar) =
        before.flatMap (bridge.place sys))
      (ack : ack = req.ack (req.access.result (sys.xbar.memoryAfter flat pre)))

namespace H2sStage

/-- The request under way, with its packet. -/
def current : H2sStage → List (IpcReq Slice × Packet MemBus)
  | polling => []
  | sending req pkt => [(req, pkt)]
  | waiting req pkt => [(req, pkt)]

/-- The packet that is on its way. -/
def waits : H2sStage → List (Packet MemBus)
  | waiting _ pkt => [pkt]
  | _ => []

@[simp] theorem current_polling : polling.current = [] := rfl
@[simp] theorem current_sending (req : IpcReq Slice) (pkt : Packet MemBus) :
    (sending req pkt).current = [(req, pkt)] := rfl
@[simp] theorem current_waiting (req : IpcReq Slice) (pkt : Packet MemBus) :
    (waiting req pkt).current = [(req, pkt)] := rfl
@[simp] theorem waits_polling : polling.waits = [] := rfl
@[simp] theorem waits_sending (req : IpcReq Slice) (pkt : Packet MemBus) :
    (sending req pkt).waits = [] := rfl
@[simp] theorem waits_waiting (req : IpcReq Slice) (pkt : Packet MemBus) :
    (waiting req pkt).waits = [pkt] := rfl

end H2sStage

namespace HostLink

open MemSystem

variable {sys : MemSystem} {bridge : H2sBridge} {idx : Fin sys.xbar.inboundLen}
  {flat : List UInt8} {inflight : sys.xbar.Station → Nat} {s s' : HostLink sys.xbar}
  {a : HostAct sys.xbar} {ipc : HostIpc}

/-- It stays so while the memories go on. -/
theorem Acked.mono {log log' : sys.xbar.NetLog} {before : List (IpcReq Slice)} {req : IpcReq Slice}
    {ack : IpcAck (List UInt8)} (h : Acked sys bridge idx flat log before req ack)
    (hlog : XBar.serves log <+: XBar.serves log') :
    Acked sys bridge idx flat log' before req ack := by
  cases h with
  | outside err range ack => exact .outside err range ack
  | refused err range map ack => exact .refused err range map ack
  | served ofst port range map pre x post serves master access order ack =>
      obtain ⟨more, hmore⟩ := hlog
      have hserves : XBar.serves log' = pre ++ x :: (post ++ more) := by
        rw [← hmore, serves, List.append_assoc, List.cons_append]
      exact .served ofst port range map pre x _ hserves master access order ack

theorem serves_isPrefix (hpart : sys.Partitioned) {net net' : sys.xbar.NetState}
    {b : sys.xbar.NetAct} (hs : Concurrent sys inflight flat net)
    (hstep : (sys.xbar.net inflight).step net b = some net') :
    XBar.serves net.log <+: XBar.serves net'.log := by
  rcases serves_of_step hpart hs hstep with hsame | ⟨x, hmore⟩
  · rw [hsame]
  · rw [hmore]
    exact List.prefix_append _ _

/-- What the port returns for a request it has answered so is what the host is acked. -/
theorem acked_of_answered {done : List (Packet MemBus)} {before : List (IpcReq Slice)}
    {req : IpcReq Slice} {pkt ans : Packet MemBus} {log : sys.xbar.NetLog}
    (hmade : bridge.Made req pkt) (hsid : ans.sid = none)
    (hbefore : done.flatMap sys.xbar.placeOf = before.flatMap (bridge.place sys))
    (h : AnsweredAs sys idx flat log done pkt ans) :
    Acked sys bridge idx flat log before req
      (bridge.answer req (SlavePort.waitPktEp.accept ans)) := by
  have hroute := route_eq sys hmade.request
  cases h with
  | refused err route mode =>
      have haccept : (SlavePort.waitPktEp.accept ans : Except (PktFailure MemBusError) _) =
          .error (.status (.addrRange err)) := SlavePort.accept_of_error mode
      rw [haccept]
      refine .refused err hmade.range ?_ rfl
      rw [hroute] at route
      cases hfind : sys.xbar.addrMap.findPort req.addr.toNat req.size.toNat with
      | error err' =>
          rw [hfind] at route
          cases route
          rfl
      | ok out =>
          rw [hfind] at route
          cases route
  | served dst pre x post route serves master access order mode data =>
      have haccept : (SlavePort.waitPktEp.accept ans : Except (PktFailure MemBusError) _) =
          .ok ans := SlavePort.accept_of_response mode hsid
      rw [haccept, hmade.ack_eq data, hmade.accessOf]
      rw [hmade.accessOf] at access
      rw [hroute] at route
      cases hfind : sys.xbar.addrMap.findPort req.addr.toNat req.size.toNat with
      | error err' =>
          rw [hfind] at route
          cases route
      | ok out =>
          exact .served out.1 out.2 hmade.range hfind pre x post serves master access
            (order.trans hbefore) rfl

/-! ### What holds all along -/

/-- The host's requests were handled, one is under way, or they wait; and the host got its acks in
the order it asked, as long as it was there. -/
def Session (s : HostLink sys.xbar) (ipc : HostIpc) : Prop :=
  ∃ old mine, s.handled = old ++ mine ∧
    ipc.asked = mine.map Prod.fst ++ s.stage.current.map Prod.fst ++ ipc.req ∧
    (ipc.connected = true → ipc.ack = mine.map Prod.snd)

/-- Every request that was handled was acked for what it did. -/
def AllAcked (bridge : H2sBridge) (idx : Fin sys.xbar.inboundLen) (flat : List UInt8)
    (s : HostLink sys.xbar) : Prop :=
  ∀ pre req ack post, s.handled = pre ++ (req, ack) :: post →
    Acked sys bridge idx flat s.net.log (pre.map Prod.fst) req ack

/-- The requests of the host that were not polled. -/
def pending (s : HostLink sys.xbar) : List (IpcReq Slice) :=
  match s.ipc with
  | none => []
  | some ipc => ipc.req

/-- What holds in every state of the bridge. -/
structure Hosted (inflight : sys.xbar.Station → Nat) (bridge : H2sBridge)
    (idx : Fin sys.xbar.inboundLen) (flat : List UInt8) (s : HostLink sys.xbar) : Prop where
  fine : s.failed = none
  concurrent : Concurrent sys inflight flat s.net
  untagged : Stations.Sound (sys.xbar.net inflight) (fun _ _ pkt => pkt.sid = none) (fun _ => True)
    s.net
  /-- A request under way is that of a host. -/
  bound : s.ipc = none → s.stage = .polling
  made : ∀ e ∈ s.stage.current, bridge.Made e.1 e.2
  order : ∃ done, OneAtATime sys idx done s.stage.waits s.net ∧
    done.flatMap sys.xbar.placeOf = (s.handled.map Prod.fst).flatMap (bridge.place sys)
  acked : AllAcked bridge idx flat s
  session : ∀ ipc, s.ipc = some ipc → Session s ipc
  fits : ∀ req ∈ s.pending, req.addr.toNat + req.size.toNat < 2 ^ 64

/-- What is under way is that of a host. -/
theorem Hosted.exists_ipc (h : Hosted inflight bridge idx flat s) (hunder : s.stage ≠ .polling) :
    ∃ ipc, s.ipc = some ipc :=
  Option.ne_none_iff_exists'.mp fun hnone => hunder (h.bound hnone)

/-- The packet under way is made from the request. -/
theorem Hosted.made_of_current (h : Hosted inflight bridge idx flat s) {req : IpcReq Slice}
    {pkt : Packet MemBus} (hcur : s.stage.current = [(req, pkt)]) : bridge.Made req pkt := by
  have hmade := h.made
  rw [hcur] at hmade
  exact hmade (req, pkt) (List.mem_singleton_self _)

theorem acked_eq (h : s.ipc = some ipc) (req : IpcReq Slice) (ack : IpcAck (List UInt8)) :
    s.acked req ack = { s with
      ipc := some (if ipc.connected then { ipc with ack := ipc.ack ++ [ack] } else ipc)
      stage := .polling
      handled := s.handled ++ [(req, ack)] } := by
  unfold HostLink.acked
  rw [h]

theorem pending_acked (h : s.ipc = some ipc) (req : IpcReq Slice) (ack : IpcAck (List UInt8)) :
    (s.acked req ack).pending = s.pending := by
  rw [acked_eq h]
  by_cases hconn : ipc.connected = true
  · simp [pending, h, hconn]
  · simp [pending, h, hconn]

/-- The last request is acked too. -/
theorem AllAcked.snoc (h : AllAcked bridge idx flat s) {req : IpcReq Slice}
    {ack : IpcAck (List UInt8)} (hhandled : s'.handled = s.handled ++ [(req, ack)])
    (hlog : XBar.serves s.net.log <+: XBar.serves s'.net.log)
    (hlast : Acked sys bridge idx flat s'.net.log (s.handled.map Prod.fst) req ack) :
    AllAcked bridge idx flat s' := by
  intro pre req' ack' post hsplit
  rw [hhandled] at hsplit
  rcases List.eq_nil_or_concat' post with rfl | ⟨post', z, rfl⟩
  · obtain ⟨rfl, hlast'⟩ := List.append_inj' hsplit rfl
    obtain ⟨rfl, rfl⟩ := Prod.mk.inj (List.cons.inj hlast').1
    exact hlast
  · rw [← List.cons_append, ← List.append_assoc] at hsplit
    exact (h pre req' ack' post' (List.append_inj' hsplit rfl).1).mono hlog

theorem AllAcked.of_eq (h : AllAcked bridge idx flat s) (hhandled : s'.handled = s.handled)
    (hlog : XBar.serves s.net.log <+: XBar.serves s'.net.log) : AllAcked bridge idx flat s' := by
  intro pre req ack post hsplit
  rw [hhandled] at hsplit
  exact (h pre req ack post hsplit).mono hlog

/-- The host gets the ack of its request. -/
theorem Session.acked {req : IpcReq Slice} {ack : IpcAck (List UInt8)} (hipc : s.ipc = some ipc)
    (h : ∃ old mine, s.handled = old ++ mine ∧ ipc.asked = mine.map Prod.fst ++ req :: ipc.req ∧
      (ipc.connected = true → ipc.ack = mine.map Prod.snd)) :
    ∀ ipc', (s.acked req ack).ipc = some ipc' → Session (s.acked req ack) ipc' := by
  obtain ⟨old, mine, hhandled, hasked, hack⟩ := h
  intro ipc' hipc'
  rw [acked_eq hipc] at hipc' ⊢
  cases hipc'
  refine ⟨old, mine ++ [(req, ack)], ?_, ?_, ?_⟩
  · rw [hhandled, List.append_assoc]
  · by_cases hconn : ipc.connected = true
    · simp [hconn, hasked]
    · simp [hconn, hasked]
  · intro hconn'
    by_cases hconn : ipc.connected = true
    · simp [hconn, hack hconn]
    · rw [if_neg hconn] at hconn'
      exact absurd hconn' hconn

theorem Session.of_eq (h : ∀ ipc, s.ipc = some ipc → Session s ipc) (hipc : s'.ipc = s.ipc)
    (hhandled : s'.handled = s.handled)
    (hcurrent : s'.stage.current.map Prod.fst = s.stage.current.map Prod.fst) :
    ∀ ipc, s'.ipc = some ipc → Session s' ipc := by
  intro ipc hipc'
  rw [hipc] at hipc'
  unfold Session
  rw [hhandled, hcurrent]
  exact h ipc hipc'

/-! ### Every step -/

/-- What each step does, and when it can. -/
inductive Moved (inflight : sys.xbar.Station → Nat) (idx : Fin sys.xbar.inboundLen)
    (bridge : H2sBridge) (s : HostLink sys.xbar) : HostAct sys.xbar → HostLink sys.xbar → Prop where
  | bind (ipc : s.ipc = none) : Moved inflight idx bridge s .bind { s with ipc := some {} }
  | request (req : IpcReq Slice) (ipc : HostIpc) (bound : s.ipc = some ipc)
      (connected : ipc.connected = true) :
      Moved inflight idx bridge s (.request req)
        { s with ipc := some { ipc with req := ipc.req ++ [req], asked := ipc.asked ++ [req] } }
  | disconnect (ipc : HostIpc) (bound : s.ipc = some ipc) :
      Moved inflight idx bridge s .disconnect
        { s with ipc := some { ipc with connected := false } }
  | idle (now : Tick) (uid : Nat) (ipc : HostIpc) (stage : s.stage = .polling)
      (bound : s.ipc = some ipc) (req : ipc.req = []) :
      Moved inflight idx bridge s (.poll now uid)
        (if ipc.connected then s else { s with ipc := none })
  | poll (now : Tick) (uid : Nat) (ipc : HostIpc) (req : IpcReq Slice) (rest : List (IpcReq Slice))
      (stage : s.stage = .polling) (bound : s.ipc = some ipc) (queue : ipc.req = req :: rest) :
      Moved inflight idx bridge s (.poll now uid)
        (polled bridge now uid { s with ipc := some { ipc with req := rest } } req)
  | refused (req : IpcReq Slice) (pkt : Packet MemBus) (err : MemBusError)
      (stage : s.stage = .sending req pkt) (tx : TxStatus.txCheck pkt.payload = .error err) :
      Moved inflight idx bridge s .send (s.acked req (bridge.answer req (.error (.status err))))
  | send (req : IpcReq Slice) (pkt : Packet MemBus) (net : sys.xbar.NetState)
      (stage : s.stage = .sending req pkt)
      (step : (sys.xbar.net inflight).step s.net (.arrive (.inbound idx) pkt) = some net) :
      Moved inflight idx bridge s .send { s with net, stage := .waiting req pkt }
  | recv (req : IpcReq Slice) (pkt : Packet MemBus) (net : sys.xbar.NetState)
      (resp : Except (PktFailure MemBusError) (Packet MemBus)) (rx : List (Packet MemBus))
      (stage : s.stage = .waiting req pkt)
      (wait : SlavePort.waitPktEp (some pkt.uid) ((s.net.queue (.master idx)).map Prod.snd) =
        some (resp, rx))
      (step : (sys.xbar.net inflight).step s.net (.take (.master idx) {}) = some net) :
      Moved inflight idx bridge s .recv ({ s with net }.acked req (bridge.answer req resp))
  | work (b : sys.xbar.NetAct) (net : sys.xbar.NetState) (other : elsewhere idx b = true)
      (step : (sys.xbar.net inflight).step s.net b = some net) :
      Moved inflight idx bridge s (.work b) { s with net }

theorem moved_of_step (h : s.step inflight idx bridge a = some s') :
    s.failed = none ∧ Moved inflight idx bridge s a s' := by
  unfold step at h
  split at h
  · cases h
  rename_i hfine
  refine ⟨hfine, ?_⟩
  cases a with
  | bind =>
      simp only [stepOk] at h
      split at h
      · rename_i hipc
        cases h
        exact .bind hipc
      · cases h
  | request req =>
      simp only [stepOk] at h
      split at h
      · cases h
      · rename_i ipc hipc
        simp only [Option.ite_none_right_eq_some, Option.some.injEq] at h
        obtain ⟨hconn, rfl⟩ := h
        exact .request req ipc hipc hconn
  | disconnect =>
      simp only [stepOk, Option.map_eq_some_iff] at h
      obtain ⟨ipc, hipc, rfl⟩ := h
      exact .disconnect ipc hipc
  | poll now uid =>
      simp only [stepOk] at h
      split at h
      · rename_i ipc hstage hipc
        split at h
        · rename_i hreq
          cases h
          exact .idle now uid ipc hstage hipc hreq
        · rename_i req rest hreq
          cases h
          exact .poll now uid ipc req rest hstage hipc hreq
      · cases h
  | send =>
      simp only [stepOk] at h
      split at h
      · rename_i req pkt hstage
        split at h
        · rename_i err htx
          cases h
          exact .refused req pkt err hstage htx
        · simp only [Option.map_eq_some_iff] at h
          obtain ⟨net, hnet, rfl⟩ := h
          exact .send req pkt net hstage hnet
      · cases h
  | recv =>
      simp only [stepOk] at h
      split at h
      · rename_i req pkt hstage
        split at h
        · cases h
        · rename_i resp rx hwait
          simp only [Option.map_eq_some_iff] at h
          obtain ⟨net, hnet, rfl⟩ := h
          exact .recv req pkt net resp rx hstage hwait hnet
      · cases h
  | work b =>
      simp only [stepOk, Option.ite_none_right_eq_some, Option.map_eq_some_iff] at h
      obtain ⟨hother, net, hnet, rfl⟩ := h
      exact .work b net hother hnet

/-- The requests of the hosts end within the addresses of the machine, and the other masters send
requests too, in packets without a session. -/
def Fits (sys : MemSystem) : HostAct sys.xbar → Prop
  | .request req => req.addr.toNat + req.size.toNat < 2 ^ 64
  | .work b => sys.Issues b ∧ b.Brings fun _ _ pkt => pkt.sid = none
  | _ => True

/-- The bridge at the start. -/
theorem Hosted.init {flat : MemoryChecker} (hsim : sys.Simulates flat) :
    Hosted inflight bridge idx flat.memory (HostLink.init sys.rams) where
  fine := rfl
  concurrent := Concurrent.init hsim
  untagged := Stations.Sound.init trivial
  bound := fun _ => rfl
  made := List.forall_mem_nil _
  order := ⟨[], OneAtATime.init sys idx sys.rams, rfl⟩
  acked := fun pre req ack post hsplit => absurd hsplit (by simp [HostLink.init])
  session := fun ipc hipc => by cases hipc
  fits := List.forall_mem_nil _

/-- What a host does to its channels. -/
theorem Hosted.of_ipc (h : Hosted inflight bridge idx flat s) (ipc : HostIpc)
    (hsession : Session s ipc)
    (hfits : ∀ req ∈ ipc.req, req.addr.toNat + req.size.toNat < 2 ^ 64) :
    Hosted inflight bridge idx flat { s with ipc := some ipc } where
  fine := h.fine
  concurrent := h.concurrent
  untagged := h.untagged
  bound := nofun
  made := h.made
  order := h.order
  acked := h.acked
  session := fun ipc' hipc' => by
    cases hipc'
    exact hsession
  fits := hfits

/-- What waits in the channel ends within the addresses of the machine. -/
theorem Hosted.fits_req (h : Hosted inflight bridge idx flat s) (hipc : s.ipc = some ipc) :
    ∀ req ∈ ipc.req, req.addr.toNat + req.size.toNat < 2 ^ 64 := by
  have hfits := h.fits
  unfold pending at hfits
  rw [hipc] at hfits
  exact hfits

/-- A request is handled, and nothing is under way. -/
theorem Hosted.ack (hfine : s.failed = none) (hnet : Concurrent sys inflight flat s.net)
    (huntagged : Stations.Sound (sys.xbar.net inflight) (fun _ _ pkt => pkt.sid = none)
      (fun _ => True) s.net)
    (hacked : AllAcked bridge idx flat s) {req : IpcReq Slice} {ack : IpcAck (List UInt8)}
    (hlast : Acked sys bridge idx flat s.net.log (s.handled.map Prod.fst) req ack)
    {done : List (Packet MemBus)} (hone : OneAtATime sys idx done [] s.net)
    (hdone : done.flatMap sys.xbar.placeOf =
      (s.handled.map Prod.fst ++ [req]).flatMap (bridge.place sys))
    (hipc : s.ipc = some ipc)
    (hsession : ∃ old mine, s.handled = old ++ mine ∧
      ipc.asked = mine.map Prod.fst ++ req :: ipc.req ∧
      (ipc.connected = true → ipc.ack = mine.map Prod.snd))
    (hfits : ∀ req ∈ s.pending, req.addr.toNat + req.size.toNat < 2 ^ 64) :
    Hosted inflight bridge idx flat (s.acked req ack) := by
  have hwaiting : (s.acked req ack).pending = s.pending := pending_acked hipc req ack
  have hsessions : ∀ ipc', (s.acked req ack).ipc = some ipc' → Session (s.acked req ack) ipc' :=
    Session.acked hipc hsession
  rw [acked_eq hipc] at hsessions hwaiting ⊢
  refine ⟨hfine, hnet, huntagged, fun _ => rfl, List.forall_mem_nil _, ⟨done, hone, ?_⟩, ?_,
    hsessions, hwaiting ▸ hfits⟩
  · simpa using hdone
  · exact hacked.snoc rfl (List.prefix_refl _) hlast

/-- A request that is handled before anything is sent for it. -/
theorem Hosted.outside (h : Hosted inflight bridge idx flat s) (hstage : s.stage = .polling)
    {req : IpcReq Slice} {rest : List (IpcReq Slice)} (hipc : s.ipc = some ipc)
    (hreq : ipc.req = req :: rest) {err : IpcError}
    (hrange : bridge.params.checkRange req = .error err) :
    Hosted inflight bridge idx flat
      ({ s with ipc := some { ipc with req := rest } }.acked req (.error err)) := by
  obtain ⟨done, hone, hdone⟩ := h.order
  obtain ⟨old, mine, hhandled, hasked, hack⟩ := h.session ipc hipc
  rw [hstage] at hone hasked
  have hnone : bridge.place sys req = [] := by
    unfold H2sBridge.place
    rw [hrange]
  refine Hosted.ack (s := { s with ipc := some { ipc with req := rest } }) h.fine h.concurrent
    h.untagged h.acked (.outside err hrange rfl) hone ?_ rfl ⟨old, mine, hhandled, ?_, hack⟩ ?_
  · simp [hdone, hnone]
  · rw [hasked, hreq]
    simp
  · exact fun r hr => h.fits_req hipc r (hreq ▸ List.mem_cons_of_mem req hr)

/-- A request of the window is on its way. -/
theorem Hosted.polled (h : Hosted inflight bridge idx flat s) (hstage : s.stage = .polling)
    {req : IpcReq Slice} {rest : List (IpcReq Slice)} (hipc : s.ipc = some ipc)
    (hreq : ipc.req = req :: rest) (now : Tick) (uid : Nat) :
    Hosted inflight bridge idx flat
      (HostLink.polled bridge now uid { s with ipc := some { ipc with req := rest } } req) := by
  unfold HostLink.polled
  split
  · rename_i hrange
    obtain ⟨done, hone, hdone⟩ := h.order
    rw [hstage] at hone
    have hfits := h.fits_req hipc
    rw [hreq, List.forall_mem_cons] at hfits
    refine ⟨h.fine, h.concurrent, h.untagged, nofun, ?_, ⟨done, hone, hdone⟩, h.acked, ?_, hfits.2⟩
    · simp only [H2sStage.current_sending, List.forall_mem_singleton]
      exact ⟨hrange, rfl, ⟨now, rfl⟩, hfits.1⟩
    · obtain ⟨old, mine, hhandled, hasked, hack⟩ := h.session ipc hipc
      intro ipc' hipc'
      cases hipc'
      refine ⟨old, mine, hhandled, ?_, hack⟩
      rw [hasked, hstage, hreq]
      simp
  · rename_i err hrange
    exact h.outside hstage hipc hreq hrange

theorem Hosted.send (h : Hosted inflight bridge idx flat s) (hpart : sys.Partitioned)
    (hcovered : ∀ e ∈ sys.ranges, e.1 + e.2.1 ≤ flat.length) {req : IpcReq Slice}
    {pkt : Packet MemBus} {net : sys.xbar.NetState} (hstage : s.stage = .sending req pkt)
    (hstep : (sys.xbar.net inflight).step s.net (.arrive (.inbound idx) pkt) = some net) :
    Hosted inflight bridge idx flat { s with net, stage := .waiting req pkt } := by
  have hmade : bridge.Made req pkt := h.made_of_current (by rw [hstage]; rfl)
  have hplain : (Stations.Act.arrive (.inbound idx) pkt : sys.xbar.NetAct).Brings
      (fun _ _ pkt => pkt.sid = none) := hmade.sid
  have hbrings : (Stations.Act.arrive (.inbound idx) pkt : sys.xbar.NetAct).Brings sys.Kind :=
    ⟨_, _, hmade.request⟩
  obtain ⟨done, hone, hdone⟩ := h.order
  rw [hstage] at hone
  refine ⟨h.fine, h.concurrent.step hpart hcovered hbrings hstep,
    h.untagged.step (XBar.keeps_untagged inflight) hplain hstep, ?_, ?_,
    ⟨done, hone.send hstep, hdone⟩, h.acked.of_eq rfl (serves_isPrefix hpart h.concurrent hstep),
    Session.of_eq h.session rfl rfl ?_, h.fits⟩
  · intro hipc
    have hpolling := h.bound hipc
    rw [hstage] at hpolling
    cases hpolling
  · simp only [H2sStage.current_waiting, List.forall_mem_singleton]
    exact hmade
  · simp [hstage]

/-- What comes back is the answer to the request under way. -/
theorem Hosted.recv (h : Hosted inflight bridge idx flat s) (hpart : sys.Partitioned)
    (hcovered : ∀ e ∈ sys.ranges, e.1 + e.2.1 ≤ flat.length) {req : IpcReq Slice}
    {pkt : Packet MemBus} {net : sys.xbar.NetState} {rx : List (Packet MemBus)}
    {resp : Except (PktFailure MemBusError) (Packet MemBus)} (hstage : s.stage = .waiting req pkt)
    (hwait : SlavePort.waitPktEp (some pkt.uid) ((s.net.queue (.master idx)).map Prod.snd) =
      some (resp, rx))
    (hstep : (sys.xbar.net inflight).step s.net (.take (.master idx) {}) = some net) :
    Hosted inflight bridge idx flat ({ s with net }.acked req (bridge.answer req resp)) := by
  have hinner : (Stations.Act.take (.master idx) {} : sys.xbar.NetAct).Inner :=
    Stations.Act.inner_take _ _
  have hnet := h.concurrent.step hpart hcovered hinner.brings hstep
  obtain ⟨src, ans, rest, hqueue⟩ := Stations.exists_of_take hstep
  obtain ⟨done, hone, hdone⟩ := h.order
  obtain ⟨pkt', hcur, hone', huid, hanswered⟩ := hone.recv hpart h.concurrent hnet hqueue hstep
  obtain rfl : pkt = pkt' := by simpa [hstage] using hcur
  have hmade : bridge.Made req pkt := h.made_of_current (by rw [hstage]; rfl)
  have hsid : ans.sid = none :=
    h.untagged.queue _ (src, ans) (by rw [hqueue]; exact List.mem_cons_self)
  obtain rfl : resp = SlavePort.waitPktEp.accept ans := by
    rw [SlavePort.waitPktEp_head hqueue huid] at hwait
    exact (Prod.mk.inj (Option.some.inj hwait)).1.symm
  obtain ⟨ipc, hipc⟩ := h.exists_ipc (by rw [hstage]; nofun)
  obtain ⟨old, mine, hhandled, hasked, hack⟩ := h.session ipc hipc
  have hacked : AllAcked bridge idx flat { s with net } :=
    h.acked.of_eq rfl (serves_isPrefix hpart h.concurrent hstep)
  refine Hosted.ack (s := { s with net }) h.fine hnet
    (h.untagged.step (XBar.keeps_untagged inflight) hinner.brings hstep) hacked
    (acked_of_answered hmade hsid hdone hanswered) hone' ?_ hipc ⟨old, mine, hhandled, ?_, hack⟩
    h.fits
  · simp [hdone, hmade.placeOf sys]
  · rw [hasked, hstage]
    simp

theorem elsewhere_iff {b : sys.xbar.NetAct} (h : elsewhere idx b = true) :
    (∀ req, b ≠ .arrive (.inbound idx) req) ∧ ∀ t, b ≠ .take (.master idx) t := by
  refine ⟨?_, ?_⟩
  · rintro req rfl
    simp [elsewhere] at h
  · rintro t rfl
    simp [elsewhere] at h

theorem Hosted.work (h : Hosted inflight bridge idx flat s) (hpart : sys.Partitioned)
    (hcovered : ∀ e ∈ sys.ranges, e.1 + e.2.1 ≤ flat.length) {b : sys.xbar.NetAct}
    {net : sys.xbar.NetState} (hother : elsewhere idx b = true) (hbrings : b.Brings sys.Kind)
    (hplain : b.Brings fun _ _ pkt => pkt.sid = none)
    (hstep : (sys.xbar.net inflight).step s.net b = some net) :
    Hosted inflight bridge idx flat { s with net } := by
  have hnet := h.concurrent.step hpart hcovered hbrings hstep
  obtain ⟨hsend, htake⟩ := elsewhere_iff hother
  obtain ⟨done, hone, hdone⟩ := h.order
  exact ⟨h.fine, hnet, h.untagged.step (XBar.keeps_untagged inflight) hplain hstep, h.bound, h.made,
    ⟨done, hone.other hpart h.concurrent hnet hstep hsend htake, hdone⟩,
    h.acked.of_eq rfl (serves_isPrefix hpart h.concurrent hstep), h.session, h.fits⟩

/-- **Every step keeps it.** -/
theorem Hosted.step (h : Hosted inflight bridge idx flat s) (hpart : sys.Partitioned)
    (hcovered : ∀ e ∈ sys.ranges, e.1 + e.2.1 ≤ flat.length) (ha : Fits sys a)
    (hstep : s.step inflight idx bridge a = some s') : Hosted inflight bridge idx flat s' := by
  obtain ⟨-, hmoved⟩ := moved_of_step hstep
  cases hmoved with
  | bind hipc =>
      refine h.of_ipc {} ⟨s.handled, [], by simp, ?_, fun _ => rfl⟩ (List.forall_mem_nil _)
      simp [h.bound hipc]
  | request req ipc hipc hconn =>
      obtain ⟨old, mine, hhandled, hasked, hack⟩ := h.session ipc hipc
      refine h.of_ipc _ ⟨old, mine, hhandled, ?_, hack⟩ ?_
      · rw [hasked, List.append_assoc]
      · exact List.forall_mem_append.mpr ⟨h.fits_req hipc, List.forall_mem_singleton.mpr ha⟩
  | disconnect ipc hipc =>
      obtain ⟨old, mine, hhandled, hasked, hack⟩ := h.session ipc hipc
      have hfits := h.fits_req hipc
      exact h.of_ipc _ ⟨old, mine, hhandled, hasked, nofun⟩ hfits
  | idle now uid ipc hstage hipc hreq =>
      split
      · exact h
      · exact ⟨h.fine, h.concurrent, h.untagged, fun _ => hstage, h.made, h.order, h.acked, nofun,
          List.forall_mem_nil _⟩
  | poll now uid ipc req rest hstage hipc hreq => exact h.polled hstage hipc hreq now uid
  | refused req pkt err hstage htx =>
      have hmode := (h.made_of_current (by rw [hstage]; rfl)).request.mode
      rw [MemBus.txCheck_eq_ok_iff.mpr hmode] at htx
      cases htx
  | send req pkt net hstage hnet => exact h.send hpart hcovered hstage hnet
  | recv req pkt net resp rx hstage hwait hnet => exact h.recv hpart hcovered hstage hwait hnet
  | work b net hother hnet => exact h.work hpart hcovered hother ha.1.brings ha.2 hnet

theorem Hosted.run (h : Hosted inflight bridge idx flat s) (hpart : sys.Partitioned)
    (hcovered : ∀ e ∈ sys.ranges, e.1 + e.2.1 ≤ flat.length) {acts : List (HostAct sys.xbar)}
    (hacts : ∀ a ∈ acts, Fits sys a)
    (hrun : Runs.run (HostLink.step inflight idx bridge) s acts = some s') :
    Hosted inflight bridge idx flat s' := by
  refine Runs.run_inv_along (I := Hosted inflight bridge idx flat) (P := fun _ a => Fits sys a)
    ?_ h (Runs.along_of_forall hacts) hrun
  intro s a s' h ha hstep
  exact h.step hpart hcovered ha hstep

/-! ### Until all is acked -/

/-- What the host does not change while it waits. -/
def host (s : HostLink sys.xbar) : Option (Bool × List (IpcReq Slice)) :=
  s.ipc.map fun ipc => (ipc.connected, ipc.asked)

/-- What is left to do: a request that waits is worth more than one that is about to be sent, and
that more than its packet on the way. -/
def left (s : HostLink sys.xbar) : Nat :=
  Stations.load MemSystem.weight s.net + 9 * s.pending.length +
    match s.stage with
    | .sending _ _ => 8
    | _ => 0

/-- The bridge or the others can go on, and come closer to the end. -/
def GoesOn (inflight : sys.xbar.Station → Nat) (idx : Fin sys.xbar.inboundLen) (bridge : H2sBridge)
    (s : HostLink sys.xbar) : Prop :=
  ∃ a s', Fits sys a ∧ s.step inflight idx bridge a = some s' ∧ s'.host = s.host ∧ left s' < left s

@[simp] theorem host_acked (hipc : s.ipc = some ipc) (req : IpcReq Slice)
    (ack : IpcAck (List UInt8)) : (s.acked req ack).host = s.host := by
  rw [acked_eq hipc]
  by_cases hconn : ipc.connected = true
  · simp [host, hipc, hconn]
  · simp [host, hipc, hconn]

theorem left_acked (hipc : s.ipc = some ipc) (req : IpcReq Slice) (ack : IpcAck (List UInt8)) :
    left (s.acked req ack) = Stations.load MemSystem.weight s.net + 9 * s.pending.length := by
  rw [left, pending_acked hipc, acked_eq hipc]
  rfl

/-- The answer at the port of the bridge can be received. -/
theorem Hosted.exists_recv (h : Hosted inflight bridge idx flat s) (hpart : sys.Partitioned)
    (hcovered : ∀ e ∈ sys.ranges, e.1 + e.2.1 ≤ flat.length) {t : Timing} {net : sys.xbar.NetState}
    (hb : (sys.xbar.net inflight).step s.net (.take (.master idx) t) = some net) :
    GoesOn inflight idx bridge s := by
  obtain ⟨src, ans, rest, hqueue, net', hb'⟩ := XBar.exists_take hb
  have hinner : (Stations.Act.take (.master idx) {} : sys.xbar.NetAct).Inner :=
    Stations.Act.inner_take _ _
  have hnet := h.concurrent.step hpart hcovered hinner.brings hb'
  obtain ⟨done, hone, -⟩ := h.order
  obtain ⟨pkt, hcur, -, huid, -⟩ := hone.recv hpart h.concurrent hnet hqueue hb'
  obtain ⟨req, hstage⟩ : ∃ req, s.stage = .waiting req pkt := by
    cases hstage : s.stage with
    | polling => simp [hstage] at hcur
    | sending req pkt' => simp [hstage] at hcur
    | waiting req pkt' =>
        obtain rfl : pkt' = pkt := by simpa [hstage] using hcur
        exact ⟨req, rfl⟩
  obtain ⟨ipc, hipc⟩ := h.exists_ipc (by rw [hstage]; nofun)
  have hlt := Stations.load_lt (descends hpart) h.concurrent.regular.sound hinner hb'
  have hwait : (SlavePort.waitPktEp (some pkt.uid) ((s.net.queue (.master idx)).map Prod.snd) :
      Option (Except (PktFailure MemBusError) _ × _)) =
        some (SlavePort.waitPktEp.accept ans, rest.map Prod.snd) :=
    SlavePort.waitPktEp_head hqueue huid
  have hstep : s.step inflight idx bridge .recv = some ({ s with net := net' }.acked req
      (bridge.answer req (SlavePort.waitPktEp.accept ans))) := by
    simp only [HostLink.step, h.fine, stepOk, hstage, hwait, hb', Option.map_some]
  refine ⟨.recv, _, trivial, hstep, host_acked (s := { s with net := net' }) hipc _ _, ?_⟩
  rw [left_acked (s := { s with net := net' }) hipc]
  simp only [left, pending, hstage]
  omega

/-- Something is on its way: it can move, and what is at the port of the bridge can be received. -/
theorem Hosted.exists_inner (h : Hosted inflight bridge idx flat s) (hpart : sys.Partitioned)
    (hcovered : ∀ e ∈ sys.ranges, e.1 + e.2.1 ≤ flat.length) (hroom : ∀ q, 0 < inflight q)
    (hbusy : ¬ s.net.Quiet) : GoesOn inflight idx bridge s := by
  obtain ⟨b, net, hinner, hb⟩ : ∃ b net, b.Inner ∧
      (sys.xbar.net inflight).step s.net b = some net :=
    Stations.exists_step (descends hpart) hroom h.concurrent.regular hbusy
  by_cases hother : elsewhere idx b = true
  · have hstep : s.step inflight idx bridge (.work b) = some { s with net } := by
      simp only [HostLink.step, h.fine, stepOk, if_pos hother, hb, Option.map_some]
    have hissues : sys.Issues b := by
      cases b with
      | arrive q m => exact absurd rfl (hinner q m)
      | take q t => trivial
      | pass p => trivial
    have hlt := Stations.load_lt (descends hpart) h.concurrent.regular.sound hinner hb
    refine ⟨.work b, _, ⟨hissues, hinner.brings⟩, hstep, rfl, ?_⟩
    simp only [left, pending]
    omega
  · obtain ⟨t, rfl⟩ : ∃ t, b = .take (.master idx) t := by
      cases b with
      | arrive q m => exact absurd rfl (hinner q m)
      | pass p => simp [elsewhere] at hother
      | take q t =>
          obtain rfl : q = .master idx := by simpa [elsewhere] using hother
          exact ⟨t, rfl⟩
    exact h.exists_recv hpart hcovered hb

/-- A request that waits can be polled. -/
theorem Hosted.exists_poll (h : Hosted inflight bridge idx flat s) (hstage : s.stage = .polling)
    (hpending : s.pending ≠ []) : GoesOn inflight idx bridge s := by
  cases hipc : s.ipc with
  | none => exact absurd (by rw [pending, hipc]) hpending
  | some ipc =>
      cases hreq : ipc.req with
      | nil => exact absurd (by simp [pending, hipc, hreq]) hpending
      | cons req rest =>
          have hstep : s.step inflight idx bridge (.poll 0 0) = some (HostLink.polled bridge 0 0
              { s with ipc := some { ipc with req := rest } } req) := by
            simp only [HostLink.step, h.fine, stepOk, hstage, hipc, hreq]
          refine ⟨.poll 0 0, _, trivial, hstep, ?_, ?_⟩
          · unfold HostLink.polled
            split
            · simp [host, hipc]
            · rw [host_acked rfl]
              simp [host, hipc]
          · unfold HostLink.polled
            split
            · simp only [left, pending, hstage, hipc, hreq, List.length_cons]
              omega
            · rw [left_acked rfl]
              simp only [left, pending, hstage, hipc, hreq, List.length_cons]
              omega

/-- The packet of a request can be sent when there is room for it. -/
theorem Hosted.exists_send (h : Hosted inflight bridge idx flat s) {req : IpcReq Slice}
    {pkt : Packet MemBus} (hstage : s.stage = .sending req pkt)
    (hroom : (s.net.queue (.inbound idx)).length < inflight (.inbound idx)) :
    GoesOn inflight idx bridge s := by
  have hmode := (h.made_of_current (by rw [hstage]; rfl)).request.mode
  obtain ⟨net, hnet⟩ : ∃ net,
      (sys.xbar.net inflight).step s.net (.arrive (.inbound idx) pkt) = some net :=
    ⟨_, Stations.step_iff.mpr (.arrive _ pkt hroom)⟩
  have hstep : s.step inflight idx bridge .send =
      some { s with net, stage := .waiting req pkt } := by
    simp only [HostLink.step, h.fine, stepOk, hstage, MemBus.txCheck_eq_ok_iff.mpr hmode, hnet,
      Option.map_some]
  have hload : Stations.load MemSystem.weight net = _ := Stations.load_arrive hnet
  refine ⟨.send, _, trivial, hstep, rfl, ?_⟩
  simp only [left, pending, hstage, hload, MemSystem.weight]
  omega

/-- As long as a request is not handled, some step brings it closer. -/
theorem Hosted.goesOn (h : Hosted inflight bridge idx flat s) (hpart : sys.Partitioned)
    (hcovered : ∀ e ∈ sys.ranges, e.1 + e.2.1 ≤ flat.length) (hroom : ∀ q, 0 < inflight q)
    (hbusy : ¬ (s.stage = .polling ∧ s.pending = [])) : GoesOn inflight idx bridge s := by
  cases hstage : s.stage with
  | polling => exact h.exists_poll hstage fun hpending => hbusy ⟨hstage, hpending⟩
  | sending req pkt =>
      by_cases hfull : (s.net.queue (.inbound idx)).length < inflight (.inbound idx)
      · exact h.exists_send hstage hfull
      · refine h.exists_inner hpart hcovered hroom fun hquiet => hfull ?_
        rw [(hquiet _).1]
        exact hroom _
  | waiting req pkt =>
      refine h.exists_inner hpart hcovered hroom fun hquiet => ?_
      obtain ⟨done, hone, -⟩ := h.order
      have hnil := hone.cur_eq_nil hpart (h.concurrent.linearized hpart) hquiet ?_
      · simp [hstage] at hnil
      · intro pkt' hpkt
        obtain rfl : pkt' = pkt := by simpa [hstage] using hpkt
        exact ⟨_, _, (h.made_of_current (by rw [hstage]; rfl)).request⟩

/-- The hosts are served: the bridge has not failed, each request was acked for what it did, the
requests have taken effect in the order they were sent, each once, and a host that is there has an
ack for each of its requests that was handled, in order. -/
structure Serves (bridge : H2sBridge) (idx : Fin sys.xbar.inboundLen) (flat : List UInt8)
    (s : HostLink sys.xbar) : Prop where
  fine : s.failed = none
  acked : AllAcked bridge idx flat s
  order : (XBar.servedOf idx s.net.log).map (XBar.Serve.place sys.xbar) =
      (s.handled.map Prod.fst).flatMap (bridge.place sys) ∨
    (XBar.servedOf idx s.net.log).map (XBar.Serve.place sys.xbar) =
      (s.handled.map Prod.fst ++ s.stage.current.map Prod.fst).flatMap (bridge.place sys)
  session : ∀ ipc, s.ipc = some ipc → Session s ipc

theorem Hosted.serves (h : Hosted inflight bridge idx flat s) : Serves bridge idx flat s := by
  refine ⟨h.fine, h.acked, ?_, h.session⟩
  obtain ⟨done, hone, hdone⟩ := h.order
  rcases hone.order with horder | horder
  · exact Or.inl (horder.trans hdone)
  · cases hstage : s.stage with
    | polling =>
        left
        rw [horder, hstage]
        simpa using hdone
    | sending req pkt =>
        left
        rw [horder, hstage]
        simpa using hdone
    | waiting req pkt =>
        right
        have hplace := (h.made_of_current (by rw [hstage]; rfl)).placeOf sys
        rw [horder, hstage]
        simp [hdone, hplace]

/-- **Hosts are served one after another.**  Whatever the hosts send ahead, whenever they come and
go, and whatever the other masters do meanwhile: each request is acked as if it had been made on one
flat memory, after the requests before it and none of them twice; and the bridge can always go on
until the host that is there has an ack for each of its requests. -/
theorem hosts_served (sys : MemSystem) (inflight : sys.xbar.Station → Nat)
    (idx : Fin sys.xbar.inboundLen) (bridge : H2sBridge) (flat : MemoryChecker)
    (hsim : sys.Simulates flat) (acts : List (HostAct sys.xbar)) (hacts : ∀ a ∈ acts, Fits sys a)
    (s : HostLink sys.xbar)
    (hrun : Runs.run (step inflight idx bridge) (HostLink.init sys.rams) acts = some s) :
    Serves bridge idx flat.memory s ∧ ((∀ q, 0 < inflight q) → ∃ acts' s',
      Runs.run (step inflight idx bridge) s acts' = some s' ∧ Serves bridge idx flat.memory s' ∧
        ∀ ipc, s.ipc = some ipc → ∃ ipc', s'.ipc = some ipc' ∧ ipc'.asked = ipc.asked ∧
          (ipc.connected = true → ipc'.ack.length = ipc.asked.length)) := by
  have hpart := hsim.partitioned
  have hcovered := hsim.covered
  have hinit : Hosted inflight bridge idx flat.memory (HostLink.init sys.rams) := Hosted.init hsim
  have hs := hinit.run hpart hcovered hacts hrun
  refine ⟨hs.serves, fun hroom => ?_⟩
  have hcloser : ∀ t, (Hosted inflight bridge idx flat.memory t ∧ t.host = s.host) →
      ¬ (t.stage = .polling ∧ t.pending = []) → ∃ a t', step inflight idx bridge t a = some t' ∧
        (Hosted inflight bridge idx flat.memory t' ∧ t'.host = s.host) ∧ left t' < left t := by
    rintro t ⟨ht, hhost⟩ hbusy
    obtain ⟨a, t', ha, hstep, hsame, hlt⟩ := ht.goesOn hpart hcovered hroom hbusy
    exact ⟨a, t', hstep, ⟨ht.step hpart hcovered ha hstep, hsame.trans hhost⟩, hlt⟩
  obtain ⟨acts', s', hrun', ⟨hs', hhost⟩, hstage, hpending⟩ :=
    Runs.exists_run_of_closer left hcloser ⟨hs, rfl⟩
  refine ⟨acts', s', hrun', hs'.serves, fun ipc hipc => ?_⟩
  rw [host, host, hipc, Option.map_some, Option.map_eq_some_iff] at hhost
  obtain ⟨ipc', hipc', heq⟩ := hhost
  obtain ⟨hconn, hasked⟩ := Prod.mk.inj heq
  refine ⟨ipc', hipc', hasked, fun hthere => ?_⟩
  obtain ⟨old, mine, -, hmine, hack⟩ := hs'.session ipc' hipc'
  rw [pending, hipc'] at hpending
  simp only at hpending
  rw [← hasked, hmine, hack (hconn.trans hthere), hstage, hpending]
  simp

/-- A bridge to all eight bytes of the two memories. -/
def wholeBridge : H2sBridge where
  params := { addrRange := (0, 8) }
  uid := 2
  errText _ := ""

/-- The inbound port of the bridge, and that of the other master. -/
def bridgePort : Fin twoMasters.xbar.inboundLen := ⟨0, Nat.zero_lt_two⟩

def otherPort : Fin twoMasters.xbar.inboundLen := ⟨1, Nat.one_lt_two⟩

/-- A host sends a write and a read ahead, beside another master. -/
def sentAhead : List (HostAct twoMasters.xbar) :=
  [.bind, .request (.write 3 ⟨[7], by decide⟩), .request (.read 0 4), .poll 0 5,
    .work (.arrive (.inbound otherPort) readBelow), .send, .work (.take (.inbound bridgePort) {}),
    .work (.pass (.inbound bridgePort))]

theorem sentAhead_fits : ∀ a ∈ sentAhead, Fits twoMasters a := by
  have hread : readBelow.payload.Request 0 4 :=
    ⟨rfl, rfl, rfl, Or.inl rfl, by decide⟩
  have hwriteEnd : (3 : UInt64).toNat + (⟨[7], by decide⟩ : Slice).len.toNat < 2 ^ 64 := by decide
  have hreadEnd : (0 : UInt64).toNat + (4 : UInt64).toNat < 2 ^ 64 := by decide
  simp only [sentAhead, List.forall_mem_cons]
  exact ⟨trivial, hwriteEnd, hreadEnd, trivial, ⟨⟨0, 4, hread⟩, rfl⟩, trivial, ⟨trivial, trivial⟩,
    ⟨trivial, trivial⟩, List.forall_mem_nil _⟩

theorem hosts_served_sentAhead : ∃ s,
    Runs.run (step (fun _ => 1) bridgePort wholeBridge) (HostLink.init twoMasters.rams) sentAhead =
      some s ∧ Serves wholeBridge bridgePort (MemoryChecker.start 0 8).memory s ∧
    ∃ acts' s', Runs.run (step (fun _ => 1) bridgePort wholeBridge) s acts' = some s' ∧
      Serves wholeBridge bridgePort (MemoryChecker.start 0 8).memory s' := by
  obtain ⟨s, hs⟩ : ∃ s, Runs.run (step (fun _ => 1) bridgePort wholeBridge)
      (HostLink.init twoMasters.rams) sentAhead = some s :=
    Option.isSome_iff_exists.mp (by decide)
  obtain ⟨hserves, hdrain⟩ := hosts_served twoMasters (fun _ => 1) bridgePort wholeBridge _
    twoMasters_simulates sentAhead sentAhead_fits s hs
  obtain ⟨acts', s', hrun, hserves', -⟩ := hdrain fun _ => Nat.one_pos
  exact ⟨s, hs, hserves, acts', s', hrun, hserves'⟩

end HostLink

end Ra2m
