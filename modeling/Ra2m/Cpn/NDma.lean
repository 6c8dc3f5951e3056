/-
The Dma of a network node (`net/dma.rs`).

Its transfers go from a node's memory to a node's memory.  A slot is held either by a
transfer of the node itself or by an access the node serves for another one, and the
token of the slot is on the route stack of the access, under the token of the node
that serves it while it is there.  Each function here is one turn of a loop, or what
a turn calls, from the packet it received to the packet it puts on a port.

A response is received with `wait_pkt_ep`, which checks its status first.
-/
import Ra2m.Sim.Burst
import Ra2m.Sim.Network

namespace Ra2m

/-- What a slot is used for: a transfer of the node, or an access for another node. -/
inductive NDmaSlot (T : Type) where
  | none
  | dma (pkt : Packet (DmaBus (T × Addr)))
  | net (fromNode toNode : T)

structure NDmaInner (T : Type) where
  availId : List Nat
  pktStore : List (NDmaSlot T)

namespace NDmaInner

variable {T : Type}

def new (inflightReq : Nat) : NDmaInner T :=
  ⟨List.range inflightReq, List.replicate inflightReq .none⟩

/-- Take the last free slot; `none` while there is none, which the loop waits out. -/
def waitSlot (self : NDmaInner T) : Option (Nat × NDmaInner T) :=
  match self.availId.getLast? with
  | none => none
  | some token => some (token, { self with availId := self.availId.dropLast })

/-- Put a value in a slot. -/
def setSlot (self : NDmaInner T) (token : Nat) (slot : NDmaSlot T) : Exec (NDmaInner T) :=
  if token < self.pktStore.length then
    .ok { self with pktStore := self.pktStore.set token slot }
  else .error ⟨"index out of bounds"⟩

/-- Empty a slot and free it. -/
def removeSlotAt (self : NDmaInner T) (pos : Nat) : Exec (NDmaSlot T × NDmaInner T) :=
  -- `push(None)` and `swap_remove(pos)`: the slot is left empty, the length is what it was.
  match (self.pktStore ++ [.none])[pos]? with
  | none => .error ⟨"swap_remove index out of bounds"⟩
  | some slot => .ok (slot, ⟨self.availId ++ [pos], self.pktStore.set pos .none⟩)

end NDmaInner

/-- A failure on the way of an access: of the memory or of the network. -/
inductive AccessError where
  | mem (err : MemBusError)
  | net (err : NetworkError)

def AccessError.toDma : AccessError → DmaBusError
  | mem err => .inner err
  | net err => .innerNet err

def AccessError.toNet : AccessError → NetworkError
  | mem err => .inner err
  | net err => .innerNet err

namespace NDma

/-- The port a turn puts its packet on. -/
inductive Out (T : Type) where
  | inbound (pkt : Packet (DmaBus (T × Addr)))
  | mem (pkt : Packet MemBus)
  | netInbound (pkt : Packet (Network T MemBus))
  | netOutbound (pkt : Packet (Network T MemBus))

variable {T : Type}

def frontendDelay (t : Timing) : Tick := t.frontend

def forwardDelay (t : Timing) (size : Data) : Tick := t.forward + t.transfer size

/-- Send a packet on the memory port, which checks its status. -/
def sendMem (pkt : Packet MemBus) : Exec (Out T) :=
  match TxStatus.txCheck pkt.payload with
  | .error _ => .error ⟨"Faulty Tx access"⟩
  | .ok () => .ok (.mem pkt)

/-- Send a message on the outbound network port, which checks its status. -/
def sendNet (pkt : Packet (Network T MemBus)) : Exec (Out T) :=
  match TxStatus.txCheck pkt.payload with
  | .error _ => .error ⟨"Faulty Tx access"⟩
  | .ok () => .ok (.netOutbound pkt)

/-- Store a transfer in the slot that was taken for it and send its read, to the node's own memory
or over the network. -/
def dmaToInnerReq [DecidableEq T] (t : Timing) (uid pktUid : Nat) (nodeId : T)
    (inner : NDmaInner T) (dmaPkt : Packet (DmaBus (T × Addr))) (token : Nat) :
    Exec (Out T × NDmaInner T) := do
  let (readFrom, pattern) := (dmaPkt.payload.readFrom, dmaPkt.payload.pattern)
  let inner ← inner.setSlot token (.dma dmaPkt)
  let memReq := (MemBus.new t.now uid .read readFrom.2 pattern none).pushPort token
  if readFrom.1 = nodeId then
    let memPkt : Packet MemBus := { uid := pktUid, payload := memReq, readyAt := t.now }
    let out ← sendMem (memPkt.appendDelay (frontendDelay t))
    .ok (out, inner)
  else
    let netPkt : Packet (Network T MemBus) :=
      { uid := pktUid, payload := .new nodeId readFrom.1 memReq, readyAt := t.now }
    let out ← sendNet (netPkt.appendDelay (frontendDelay t))
    .ok (out, inner)

/-- The write that follows a read, from the read's answer once its entry is popped. -/
def forgeWrite (writeTo : Addr) (token : Nat) (memPld : MemBus) : MemBus :=
  ({ memPld with mode := .request, cmd := .write, addr := writeTo }.updateSubrange).pushPort token

/-- Turn the answer of an access into the next access of its transfer, into the end of the transfer,
or into the answer for the node it was made for. -/
def forwardResp [DecidableEq T] (t : Timing) (pktUid : Nat) (nodeId : T) (inner : NDmaInner T)
    (memPkt : Packet MemBus) : Exec (Out T × NDmaInner T) :=
  match memPkt.payload.popPort with
  | (none, _) => .error ⟨"Received unmatch MemBus response"⟩
  | (some token, memPld) =>
      match inner.pktStore[token]? with
      | none => .error ⟨"index out of bounds"⟩
      | some .none => .error ⟨"Error with pkt_store management"⟩
      | some (.dma dmaPkt) =>
          match memPld.cmd with
          | .read => do
              let writeTo := dmaPkt.payload.writeTo
              let memPld := forgeWrite writeTo.2 token memPld
              let xferSize ← memPld.pattern.len
              let memPkt := (memPkt.setPayload memPld).appendDelay (forwardDelay t xferSize)
              if writeTo.1 = nodeId then
                let out ← sendMem memPkt
                .ok (out, inner)
              else
                let netPkt := Packet.innerWrap t.now pktUid nodeId writeTo.1 memPkt
                .ok (.netOutbound (netPkt.setPayload (netPkt.payload.setMode .response)), inner)
          | .write => do
              match ← inner.removeSlotAt token with
              | (.dma dmaPkt, inner) =>
                  .ok (.inbound (dmaPkt.setPayload (dmaPkt.payload.setMode .response)), inner)
              | _ => .error ⟨"called `NDmaSlot::unwrap_dma()` on a invalid value"⟩
          | .addrRange => .error ⟨"Received AddrRange on NDma mem interface"⟩
      | some (.net _ _) => do
          match ← inner.removeSlotAt token with
          | (.net fromNode toNode, inner) =>
              let netPkt :=
                Packet.innerWrap t.now pktUid fromNode toNode (memPkt.setPayload memPld)
              .ok (.netInbound (netPkt.setPayload (netPkt.payload.setMode .response)), inner)
          | _ => .error ⟨"called `NnetSlot::unwrap_net()` on a invalid value"⟩

/-- Report a failure to who the access was made for. -/
def forwardError (t : Timing) (pktUid : Nat) (inner : NDmaInner T) (memPkt : Packet MemBus)
    (error : AccessError) : Exec (Out T × NDmaInner T) :=
  match memPkt.payload.popPort with
  | (none, _) => .error ⟨"Received unmatch MemBus response"⟩
  | (some token, memPld) => do
      match ← inner.removeSlotAt token with
      | (.none, _) => .error ⟨"Error in pkt_store management"⟩
      | (.dma dmaPkt, inner) =>
          .ok (.inbound (dmaPkt.setPayload (dmaPkt.payload.setMode (.error error.toDma))), inner)
      | (.net fromNode toNode, inner) =>
          let netPkt := Packet.innerWrap t.now pktUid fromNode toNode (memPkt.setPayload memPld)
          .ok (.netInbound (netPkt.setPayload (netPkt.payload.setMode (.error error.toNet))), inner)

/-- Handle a response of the node's memory. -/
def memLayer [DecidableEq T] (t : Timing) (pktUid : Nat) (nodeId : T) (inner : NDmaInner T)
    (memPkt : Packet MemBus) : Exec (Out T × NDmaInner T) :=
  match SlavePort.waitPktEp.accept memPkt with
  | .error _ => .error ⟨"Error invalid packet"⟩
  | .ok memPkt =>
      match memPkt.payload.mode with
      | .response => forwardResp t pktUid nodeId inner memPkt
      | .error memBusError => forwardError t pktUid inner memPkt (.mem memBusError)
      | .request => .error ⟨"Received Request on NDma mem interface"⟩

/-- Store where a message is from in the slot that was taken for it and hand its access to the
node's memory. -/
def ingressLayer (t : Timing) (uid pktUid : Nat) (inner : NDmaInner T) (token : Nat)
    (netPkt : Packet (Network T MemBus)) : Exec (Out T × NDmaInner T) := do
  let inner ← inner.setSlot token (.net netPkt.payload.fromNode netPkt.payload.toNode)
  let memPkt := netPkt.innerUnwrap t.now pktUid
  let out ← sendMem
    (memPkt.setPayload ((memPkt.payload.pushTrace (.base t.now uid)).pushPort token))
  .ok (out, inner)

/-- Handle the answer of another node. -/
def egressLayer [DecidableEq T] (t : Timing) (pktUid : Nat) (nodeId : T) (inner : NDmaInner T)
    (netPkt : Packet (Network T MemBus)) : Exec (Out T × NDmaInner T) :=
  match SlavePort.waitPktEp.accept netPkt with
  | .error _ => .error ⟨"Error invalid packet"⟩
  | .ok netPkt =>
      match netPkt.payload.mode with
      | .response => forwardResp t pktUid nodeId inner (netPkt.innerUnwrap t.now pktUid)
      | .error networkError =>
          forwardError t pktUid inner (netPkt.innerUnwrap t.now pktUid) (.net networkError)
      | .request => .error ⟨"Received Request on NDma net_outbound interface"⟩

/-! ### What a turn does -/

/-- An access is on its way to the node it is for: its own memory, or the network. -/
def Out.Sends (nodeId dst : T) (pld : MemBus) : Out T → Prop
  | mem pkt => dst = nodeId ∧ pkt.payload = pld ∧ pkt.sid = none
  | netOutbound pkt => dst ≠ nodeId ∧ pkt.payload.fromNode = nodeId ∧ pkt.payload.toNode = dst ∧
      pkt.payload.payload = pld ∧ pkt.sid = none
  | _ => False

section

variable {t : Timing} {uid pktUid token : Nat} {inner : NDmaInner T} {slot : NDmaSlot T}

theorem waitSlot_eq_some {inner' : NDmaInner T}
    (h : inner.waitSlot = some (token, inner')) :
    inner.availId = inner'.availId ++ [token] ∧ inner' = ⟨inner'.availId, inner.pktStore⟩ := by
  unfold NDmaInner.waitSlot at h
  split at h
  · cases h
  · rename_i last hlast
    obtain ⟨rfl, rfl⟩ := Prod.mk.inj (Option.some.inj h)
    exact ⟨(List.dropLast_append_getLast? last hlast).symm, rfl⟩

theorem setSlot_eq (h : token < inner.pktStore.length) :
    inner.setSlot token slot = .ok { inner with pktStore := inner.pktStore.set token slot } := by
  unfold NDmaInner.setSlot
  rw [if_pos h]

theorem removeSlotAt_eq (h : inner.pktStore[token]? = some slot) :
    inner.removeSlotAt token =
      .ok (slot, ⟨inner.availId ++ [token], inner.pktStore.set token .none⟩) := by
  have hlt : token < inner.pktStore.length := (List.getElem?_eq_some_iff.mp h).1
  unfold NDmaInner.removeSlotAt
  rw [List.getElem?_append_left hlt, h]

theorem sendMem_eq {pkt : Packet MemBus} (h : pkt.payload.mode = .request) :
    (sendMem pkt : Exec (Out T)) = .ok (.mem pkt) := by
  unfold sendMem
  rw [MemBus.txCheck_eq_ok_iff.mpr h]

theorem popPort_eq {pld : MemBus} {rest : List Nat} (h : pld.xbarPort = rest ++ [token]) :
    pld.popPort = (some token, { pld with xbarPort := rest }) := by
  unfold MemBus.popPort
  rw [h, List.getLast?_append_cons, List.getLast?_singleton, List.dropLast_concat]

@[simp] theorem forgeWrite_pattern (a : Addr) (pld : MemBus) :
    (forgeWrite a token pld).pattern = pld.pattern := rfl

/-- An access for another node is given a slot and goes to the node's memory. -/
theorem ingressLayer_eq (t : Timing) (uid pktUid : Nat) {netPkt : Packet (Network T MemBus)}
    (h : token < inner.pktStore.length) (hmode : netPkt.payload.payload.mode = .request) :
    ∃ pkt, ingressLayer t uid pktUid inner token netPkt =
        .ok (.mem pkt, { inner with
          pktStore := inner.pktStore.set token
            (.net netPkt.payload.fromNode netPkt.payload.toNode) }) ∧
      pkt.payload = (netPkt.payload.payload.pushTrace (.base t.now uid)).pushPort token ∧
      pkt.sid = netPkt.sid := by
  unfold ingressLayer
  simp only [setSlot_eq h, bind, Except.bind]
  rw [sendMem_eq hmode]
  exact ⟨_, rfl, rfl, rfl⟩

variable [DecidableEq T] {nodeId : T} {dma : Packet (DmaBus (T × Addr))}

/-- A transfer is stored, and its read is sent. -/
theorem dmaToInnerReq_eq (t : Timing) (uid pktUid : Nat) (nodeId : T)
    (dma : Packet (DmaBus (T × Addr))) (h : token < inner.pktStore.length) :
    ∃ out, dmaToInnerReq t uid pktUid nodeId inner dma token =
        .ok (out, { inner with pktStore := inner.pktStore.set token (.dma dma) }) ∧
      out.Sends nodeId dma.payload.readFrom.1
        ((MemBus.new t.now uid .read dma.payload.readFrom.2 dma.payload.pattern none).pushPort
          token) := by
  unfold dmaToInnerReq
  simp only [setSlot_eq h, bind, Except.bind]
  by_cases hloc : dma.payload.readFrom.1 = nodeId
  · rw [if_pos hloc, sendMem_eq rfl]
    exact ⟨_, rfl, hloc, rfl, rfl⟩
  · rw [if_neg hloc]
    exact ⟨_, rfl, hloc, rfl, rfl, rfl, rfl⟩

section

variable {memPkt : Packet MemBus} {rest : List Nat}
  (htop : memPkt.payload.xbarPort = rest ++ [token])

include htop

/-- A read's answer becomes the write of its transfer. -/
theorem forwardResp_read (t : Timing) (pktUid : Nat) (nodeId : T) {d : Data}
    (hdma : inner.pktStore[token]? = some (.dma dma))
    (hcmd : memPkt.payload.cmd = .read) (hpat : memPkt.payload.pattern = .simple d)
    (hsid : memPkt.sid = none) :
    ∃ out, forwardResp t pktUid nodeId inner memPkt = .ok (out, inner) ∧
      out.Sends nodeId dma.payload.writeTo.1
        (forgeWrite dma.payload.writeTo.2 token { memPkt.payload with xbarPort := rest }) := by
  unfold forwardResp
  simp only [popPort_eq htop, hdma, hcmd, forgeWrite_pattern, hpat, Pattern.len, bind, Except.bind]
  by_cases hloc : dma.payload.writeTo.1 = nodeId
  · rw [if_pos hloc, sendMem_eq rfl]
    exact ⟨_, rfl, hloc, rfl, hsid⟩
  · rw [if_neg hloc]
    exact ⟨_, rfl, hloc, rfl, rfl, rfl, hsid⟩

/-- A write's answer ends its transfer. -/
theorem forwardResp_write (hdma : inner.pktStore[token]? = some (.dma dma))
    (hcmd : memPkt.payload.cmd = .write) :
    forwardResp t pktUid nodeId inner memPkt =
      .ok (.inbound (dma.setPayload (dma.payload.setMode .response)),
        ⟨inner.availId ++ [token], inner.pktStore.set token .none⟩) := by
  unfold forwardResp
  simp only [popPort_eq htop, hdma, hcmd, removeSlotAt_eq hdma, bind, Except.bind]

/-- The answer of an access made for another node goes back to that node. -/
theorem forwardResp_net (t : Timing) (pktUid : Nat) (nodeId : T) {fromNode toNode : T}
    (hnet : inner.pktStore[token]? = some (.net fromNode toNode)) (hsid : memPkt.sid = none) :
    ∃ msg, forwardResp t pktUid nodeId inner memPkt =
        .ok (.netInbound msg, ⟨inner.availId ++ [token], inner.pktStore.set token .none⟩) ∧
      msg.payload.mode = .response ∧ msg.payload.fromNode = fromNode ∧
      msg.payload.payload = { memPkt.payload with xbarPort := rest } ∧ msg.sid = none := by
  unfold forwardResp
  simp only [popPort_eq htop, hnet, removeSlotAt_eq hnet, bind, Except.bind]
  exact ⟨_, rfl, rfl, rfl, rfl, hsid⟩

end

theorem memLayer_response {memPkt : Packet MemBus} (hmode : memPkt.payload.mode = .response)
    (hsid : memPkt.sid = none) :
    memLayer t pktUid nodeId inner memPkt = forwardResp t pktUid nodeId inner memPkt := by
  unfold memLayer SlavePort.waitPktEp.accept
  rw [MemBus.rxCheck_eq_ok_iff.mpr hmode]
  simp only [hsid, hmode]

theorem egressLayer_response {netPkt : Packet (Network T MemBus)}
    (hmode : netPkt.payload.mode = .response) (hsid : netPkt.sid = none) :
    egressLayer t pktUid nodeId inner netPkt =
      forwardResp t pktUid nodeId inner (netPkt.innerUnwrap t.now pktUid) := by
  unfold egressLayer SlavePort.waitPktEp.accept
  rw [Network.rxCheck_eq_ok_iff.mpr hmode]
  simp only [hsid, hmode]

end

end NDma

end Ra2m
