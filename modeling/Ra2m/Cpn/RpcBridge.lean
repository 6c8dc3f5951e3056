/-
Host calls answered by the simulation (`ffi_bridge/rpc/h2s_bridge.rs`).

Each gRPC call is served by a task of its own.  It checks its range, sends one request
through the port of the bridge and takes one packet off it: `b_req_resp` takes the
sending side, sends, gives it back, takes the receiving side, receives, and gives that
back.  Which of the waiting calls obtains a side is left open.

The simulated bus takes the requests off the channel and puts a response for each on the
other one, in any order and with any content.  The logs of who obtained the receiving
side, what the bus returned, what was received and what was dropped are read by no step.
-/
import Ra2m.Cpn.HostRange
import Ra2m.Sim.Burst
import Ra2m.Sim.Transit
import Ra2m.Lib.BoundedQueue

namespace Ra2m

/-- What the bridge is built with, and the `Debug` texts of what it reports. -/
structure RpcBridge where
  params : H2sBridgeParams
  uid : Nat
  debugRead : ReadRequest → String
  debugWrite : WriteRequest → String
  debugErr : PktFailure MemBusError → String

inductive RpcRequest where
  | read (req : ReadRequest)
  | write (req : WriteRequest)

inductive RpcAck where
  | read (data : List UInt8)
  | write
  deriving DecidableEq

namespace RpcBridge

def checkRange (self : RpcBridge) : RpcRequest → Except Status Unit
  | .read req => self.params.checkReadRange self.debugRead req
  | .write req => self.params.checkWriteRange self.debugWrite req

/-- The request as an access of the simulation. -/
def toMemBus (self : RpcBridge) (now : Tick) : RpcRequest → MemBus
  | .read req => .new now self.uid .read (.phys req.addr.toNat) (.simple req.size.toNat) none
  | .write req =>
      .new now self.uid .write (.phys req.addr.toNat) (.simple req.data.bytes.length)
        (some req.data.bytes)

/-- What the call is answered with. -/
def answer (self : RpcBridge) (req : RpcRequest)
    (resp : Except (PktFailure MemBusError) (Packet MemBus)) : Except Status RpcAck :=
  match resp with
  | .ok pkt =>
      match req with
      | .read _ => .ok (.read pkt.payload.data)
      | .write _ => .ok .write
  | .error err => .error ⟨.internal, self.debugErr err⟩

end RpcBridge

inductive RpcStage where
  | called
  /-- In `tx.lock`. -/
  | waitTx (pkt : Packet MemBus)
  | holdsTx (pkt : Packet MemBus)
  /-- The channel of the requests was full. -/
  | blockedTx (pkt : Packet MemBus)
  /-- The request is sent, in `rx.lock`. -/
  | waitRx
  /-- In `rx.recv`. -/
  | holdsRx
  /-- The packet has the right uid, its delay is handled. -/
  | received (pkt : Packet MemBus)
  | ended (res : Except Status RpcAck)

namespace RpcStage

/-- The request has been sent and no packet received. -/
def waits : RpcStage → Bool
  | waitRx => true
  | holdsRx => true
  | _ => false

end RpcStage

structure RpcCall where
  req : RpcRequest
  /-- The uid of the packet, once there is one. -/
  uid : Option Nat := none
  stage : RpcStage := .called

structure RpcServer where
  calls : List RpcCall := []
  /-- The uid the next packet gets. -/
  pktUid : Nat := 0
  /-- The call that has the sending side. -/
  txHeld : Option Nat := none
  /-- The call that has the receiving side. -/
  rxHeld : Option Nat := none
  req : BoundedQueue (Packet MemBus)
  resp : BoundedQueue (Packet MemBus)
  /-- The requests the bus has taken and not answered. -/
  bus : List (Packet MemBus) := []
  /-- The uids of the calls that obtained the receiving side, in that order. -/
  order : List Nat := []
  /-- The packets the bus has returned, in that order. -/
  returned : List (Packet MemBus) := []
  received : List (Packet MemBus) := []
  discarded : List (Packet MemBus) := []

inductive RpcAct where
  | call (req : RpcRequest)
  /-- A packet is made elsewhere. -/
  | otherPacket
  /-- The `i`-th call checks its range and makes its packet. -/
  | check (i : Nat) (now : Tick)
  | lockTx (i : Nat)
  | send (i : Nat)
  | lockRx (i : Nat)
  | recv (i : Nat)
  /-- The delay of the packet is over. -/
  | finish (i : Nat)
  | busTake
  /-- The bus returns the `j`-th request it has, with this payload. -/
  | busReturn (j : Nat) (payload : MemBus) (delay : Tick)

namespace RpcServer

def init (inflightReq : Nat) (pos : 0 < inflightReq) : RpcServer where
  req := .empty inflightReq pos
  resp := .empty inflightReq pos

/-- The `i`-th call moves on. -/
def move (s : RpcServer) (i : Nat) (call : RpcCall) (stage : RpcStage) : RpcServer :=
  { s with calls := s.calls.set i { call with stage } }

/-- Put the request on the channel and give the sending side back; blocks while there is no room. -/
def sendPkt (s : RpcServer) (i : Nat) (call : RpcCall) (pkt : Packet MemBus) : RpcServer :=
  match s.req.trySend pkt with
  | some req => { s.move i call .waitRx with req, txHeld := none }
  | none => s.move i call (.blockedTx pkt)

/-- Look at the uid of a packet that came off the channel; one of another call is dropped. -/
def takePkt (bridge : RpcBridge) (s : RpcServer) (i : Nat) (call : RpcCall) (uid : Nat)
    (pkt : Packet MemBus) (resp : BoundedQueue (Packet MemBus)) : RpcServer :=
  if pkt.uid = uid then
    { s.move i call (.received pkt) with resp, received := s.received ++ [pkt] }
  else
    let err := PktFailure.packet (.uidMismatch pkt.uid uid)
    { s.move i call (.ended (bridge.answer call.req (.error err))) with
      resp
      rxHeld := none
      received := s.received ++ [pkt]
      discarded := s.discarded ++ [pkt] }

/-- What a call does next; `none` when it cannot. -/
def stepCall (bridge : RpcBridge) (s : RpcServer) (i : Nat) (call : RpcCall) :
    RpcAct → Option RpcServer
  | .check _ now =>
      match call.stage with
      | .called =>
          match bridge.checkRange call.req with
          | .error status => some (s.move i call (.ended (.error status)))
          | .ok () =>
              let pkt := .wrapPayload now s.pktUid (bridge.toMemBus now call.req) {}
              some { s.move i { call with uid := some s.pktUid } (.waitTx pkt) with
                pktUid := s.pktUid + 1 }
      | _ => none
  | .lockTx _ =>
      match call.stage, s.txHeld with
      | .waitTx pkt, none => some { s.move i call (.holdsTx pkt) with txHeld := some i }
      | _, _ => none
  | .send _ =>
      match call.stage with
      | .holdsTx pkt =>
          match TxStatus.txCheck pkt.payload with
          | .error err =>
              some { s.move i call (.ended (bridge.answer call.req (.error (.status err)))) with
                txHeld := none }
          | .ok () => some (s.sendPkt i call pkt)
      | .blockedTx pkt => if s.req.hasRoom then some (s.sendPkt i call pkt) else none
      | _ => none
  | .lockRx _ =>
      match call.stage, call.uid, s.rxHeld with
      | .waitRx, some uid, none =>
          some { s.move i call .holdsRx with rxHeld := some i, order := s.order ++ [uid] }
      | _, _, _ => none
  | .recv _ =>
      match call.stage, call.uid with
      | .holdsRx, some uid =>
          s.resp.tryRecv.map fun (pkt, resp) => s.takePkt bridge i call uid pkt resp
      | _, _ => none
  | .finish _ =>
      match call.stage with
      | .received pkt =>
          let res := SlavePort.waitPktEp.accept pkt
          some { s.move i call (.ended (bridge.answer call.req res)) with rxHeld := none }
      | _ => none
  | _ => none

/-- The call whose step it is. -/
def RpcAct.actor : RpcAct → Option Nat
  | .check i _ => some i
  | .lockTx i => some i
  | .send i => some i
  | .lockRx i => some i
  | .recv i => some i
  | .finish i => some i
  | _ => none

def step (bridge : RpcBridge) (s : RpcServer) (a : RpcAct) : Option RpcServer :=
  match a with
  | .call req => some { s with calls := s.calls ++ [{ req }] }
  | .otherPacket => some { s with pktUid := s.pktUid + 1 }
  | .busTake => s.req.tryRecv.map fun (pkt, req) => { s with req, bus := s.bus ++ [pkt] }
  | .busReturn j payload delay =>
      match s.bus[j]? with
      | some pkt =>
          let pkt := (pkt.setPayload payload).appendDelay delay
          (s.resp.trySend pkt).map fun resp =>
            { s with resp, bus := s.bus.eraseIdx j, returned := s.returned ++ [pkt] }
      | none => none
  | a =>
      match RpcAct.actor a with
      | none => none
      | some i =>
          match s.calls[i]? with
          | none => none
          | some call => s.stepCall bridge i call a

end RpcServer

end Ra2m
