/-
Hosts that access the memories (`ffi_bridge/ipc/h2s_bridge.rs`, `ra2m_ffi_ipc`).

The bridge is one of the masters of a crossbar.  Its loop waits for a host to connect,
polls the channel of requests, and handles a request before it polls again: what is
outside the window of the bridge is refused, the rest goes through the port of the
bridge, and the answer is what comes back.  A host may send requests ahead of the acks;
when it goes away, what it has sent is still handled before another host can connect.

The other masters, the layers of the XBar and the memories work at the same time.  What
has been handled so far, and what the host has asked for, are read by no step.
-/
import Ra2m.Cpn.HostRange
import Ra2m.Cpn.XBarNet
import Ra2m.Sim.Burst

namespace Ra2m

/-- What the bridge is built with, and the text of the error a request comes back with. -/
structure H2sBridge where
  params : H2sBridgeParams
  uid : Nat
  errText : PktFailure MemBusError → String

namespace H2sBridge

/-- The request as an access of the simulation. -/
def toMemBus (self : H2sBridge) (now : Tick) : IpcReq Slice → MemBus
  | .read addr sizeB => .new now self.uid .read (.phys addr.toNat) (.simple sizeB.toNat) none
  | .write addr data =>
      .new now self.uid .write (.phys addr.toNat) (.simple data.bytes.length) (some data.bytes)

/-- The ack of a request the port has answered. -/
def answer (self : H2sBridge) (req : IpcReq Slice)
    (resp : Except (PktFailure MemBusError) (Packet MemBus)) : IpcAck (List UInt8) :=
  match resp with
  | .ok pkt =>
      match req with
      | .read _ _ => .read pkt.payload.data
      | .write _ _ => .write
  | .error err => .error (.ra2m (self.errText err))

end H2sBridge

/-- The channels to a host. -/
structure HostIpc where
  /-- The requests not polled yet. -/
  req : List (IpcReq Slice) := []
  ack : List (IpcAck (List UInt8)) := []
  connected : Bool := true
  /-- All requests of the host. -/
  asked : List (IpcReq Slice) := []

/-- Where the loop of the bridge is. -/
inductive H2sStage where
  | polling
  /-- In `send_pkt`. -/
  | sending (req : IpcReq Slice) (pkt : Packet MemBus)
  /-- In `wait_pkt_ep`. -/
  | waiting (req : IpcReq Slice) (pkt : Packet MemBus)

structure HostLink (xbar : XBar) where
  net : xbar.NetState
  ipc : Option HostIpc := none
  stage : H2sStage := .polling
  /-- The requests of all hosts that were handled, with their acks. -/
  handled : List (IpcReq Slice × IpcAck (List UInt8)) := []
  failed : Option Panic := none

inductive HostAct (xbar : XBar) where
  /-- A host connects. -/
  | bind
  /-- The host sends a request. -/
  | request (req : IpcReq Slice)
  /-- The host closes its ends. -/
  | disconnect
  /-- The bridge polls; the packet of a request gets the uid. -/
  | poll (now : Tick) (uid : Nat)
  /-- Its request gets room in the channel. -/
  | send
  /-- It takes what came back. -/
  | recv
  /-- Another master, a layer or a memory does its next step. -/
  | work (a : xbar.NetAct)

namespace HostLink

variable {xbar : XBar}

/-- The step is none of the bridge on inbound port `idx`. -/
def elsewhere (idx : Fin xbar.inboundLen) : xbar.NetAct → Bool
  | .arrive q _ => decide (q ≠ .inbound idx)
  | .take q _ => decide (q ≠ .master idx)
  | .pass _ => true

/-- The bridge at the start. -/
def init (rams : Nat → NpRam) : HostLink xbar where
  net := Stations.State.init rams

/-- A request is handled: its ack is for the host that sent it, if that is still there. -/
def acked (s : HostLink xbar) (req : IpcReq Slice) (ack : IpcAck (List UInt8)) : HostLink xbar :=
  match s.ipc with
  | none => { s with failed := some ⟨"Ipc binding issue"⟩ }
  | some ipc =>
      { s with
        ipc := some (if ipc.connected then { ipc with ack := ipc.ack ++ [ack] } else ipc)
        stage := .polling
        handled := s.handled ++ [(req, ack)] }

/-- What the bridge does with a request it has polled. -/
def polled (bridge : H2sBridge) (now : Tick) (uid : Nat) (s : HostLink xbar) (req : IpcReq Slice) :
    HostLink xbar :=
  match bridge.params.checkRange req with
  | .ok () => { s with stage := .sending req { uid, payload := bridge.toMemBus now req } }
  | .error err => s.acked req (.error err)

/-- One step of a bridge that has not failed, on inbound port `idx`. -/
def stepOk (inflight : xbar.Station → Nat) (idx : Fin xbar.inboundLen) (bridge : H2sBridge)
    (s : HostLink xbar) : HostAct xbar → Option (HostLink xbar)
  | .bind =>
      match s.ipc with
      | none => some { s with ipc := some {} }
      | some _ => none
  | .request req =>
      match s.ipc with
      | none => none
      | some ipc =>
          if ipc.connected then
            some { s with
              ipc := some { ipc with req := ipc.req ++ [req], asked := ipc.asked ++ [req] } }
          else none
  | .disconnect => s.ipc.map fun ipc => { s with ipc := some { ipc with connected := false } }
  | .poll now uid =>
      match s.stage, s.ipc with
      | .polling, some ipc =>
          match ipc.req with
          | [] => some (if ipc.connected then s else { s with ipc := none })
          | req :: rest =>
              some (polled bridge now uid { s with ipc := some { ipc with req := rest } } req)
      | _, _ => none
  | .send =>
      match s.stage with
      | .sending req pkt =>
          match TxStatus.txCheck pkt.payload with
          | .error err => some (s.acked req (bridge.answer req (.error (.status err))))
          | .ok () => ((xbar.net inflight).step s.net (.arrive (.inbound idx) pkt)).map fun net =>
              { s with net, stage := .waiting req pkt }
      | _ => none
  | .recv =>
      match s.stage with
      | .waiting req pkt =>
          match SlavePort.waitPktEp (some pkt.uid) ((s.net.queue (.master idx)).map Prod.snd) with
          | none => none
          | some (resp, _) =>
              ((xbar.net inflight).step s.net (.take (.master idx) {})).map fun net =>
                { s with net }.acked req (bridge.answer req resp)
      | _ => none
  | .work a =>
      if elsewhere idx a then ((xbar.net inflight).step s.net a).map fun net => { s with net }
      else none

def step (inflight : xbar.Station → Nat) (idx : Fin xbar.inboundLen) (bridge : H2sBridge)
    (s : HostLink xbar) (a : HostAct xbar) : Option (HostLink xbar) :=
  match s.failed with
  | some _ => none
  | none => s.stepOk inflight idx bridge a

end HostLink

end Ra2m
