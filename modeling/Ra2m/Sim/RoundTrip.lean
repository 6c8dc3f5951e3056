/-
A request and its response on a port (`port/full_duplex.rs`).

`bReqResp` of a `ReqRespPort` takes the next packet of the channel and compares its uid
(`Sim/Burst.lean`); `bReqRespFlush` goes on until the uid is right.  `bReqResp` of a
`DispatchPort` takes the first packet of the session queue.

While the last one waits, `poll_port` goes on filling the queues: `DispatchCall` is a
call with the port it is made on, and what arrives and when the call looks is any order
of its actions.  A queue that is full only makes a packet arrive later.
-/
import Ra2m.Sim.Burst
import Ra2m.Sim.Dispatch
import Ra2m.Lib.Runs

namespace Ra2m

variable {T ε : Type}

namespace SlavePort

/-- Take packets until one has the uid; `none` when the channel runs out of them. -/
def waitPktEpFlush [RxStatus T ε] (uid : Nat) :
    List (Packet T) → Option (Except (PktFailure ε) (Packet T) × List (Packet T))
  | [] => none
  | pkt :: rx =>
      match waitPktEp (some uid) (pkt :: rx) with
      -- `continue`, on what is left of the channel
      | some (.error (.packet (.uidMismatch _ _)), _) => waitPktEpFlush uid rx
      | out => out

end SlavePort

namespace ReqRespPort

/-- Send a request and wait for the response with its uid. -/
def bReqRespFlush [TxStatus T ε] [RxStatus T ε] (tx rx : List (Packet T)) (pkt : Packet T) :
    Option (Except (PktFailure ε) (Packet T) × List (Packet T) × List (Packet T)) :=
  match MasterPort.sendPkt tx pkt with
  | .error err => some (.error (.status err), tx, rx)
  | .ok tx => (SlavePort.waitPktEpFlush pkt.uid rx).map fun (res, rx) => (res, tx, rx)

end ReqRespPort

namespace DispatchPort

/-- The status of the payload is looked at first, the session id of the packet last. -/
def accept [RxStatus T ε] (pkt : Packet T) : Except (PktFailure ε) (Packet T) :=
  match RxStatus.rxCheck pkt.payload with
  | .error err => .error (.status err)
  | .ok () =>
      match pkt.sid with
      | none => .error (.packet .taggedNoSid)
      | some _ => .ok pkt

/-- `poll_port` puts a packet into the queue of its session. -/
def arrive (self : DispatchPort T) (pkt : Packet T) : DispatchPort T :=
  { self with queue := self.queue.modify pkt.session (Queue.insertPkt pkt) }

end DispatchPort

/-! ### A call of `bReqResp` on a port with sessions -/

inductive DispatchStage (T ε : Type) where
  /-- About to send the request. -/
  | sending
  /-- In `wait_pkt_ep` of the session. -/
  | waiting (sid : Nat)
  /-- The request was not sent. -/
  | refused (err : PktFailure ε)
  /-- The call took a packet off the queue, and returned. -/
  | returned (taken : Packet T) (res : Except (PktFailure ε) (Packet T))
  | panicked (p : Panic)

structure DispatchCall (T ε : Type) where
  port : DispatchPort T
  stage : DispatchStage T ε := .sending

inductive DispatchCallAct (T : Type) where
  | send
  | arrive (pkt : Packet T)
  /-- The call looks at the queue, for the first time or woken by an event. -/
  | look

namespace DispatchCall

variable [TxStatus T ε] [RxStatus T ε]

/-- `b_req_resp` up to its wait. -/
def send (pkt : Packet T) (s : DispatchCall T ε) : DispatchCall T ε :=
  match pkt.sid with
  | none => { s with stage := .refused (.packet .taggedNoSid) }
  | some sid =>
      match MasterPort.sendPkt s.port.tx pkt with
      | .error err => { s with stage := .refused (.status err) }
      | .ok tx => { port := { s.port with tx }, stage := .waiting sid }

/-- `wait_pkt_ep` of the dispatcher, from a look at the queue on. -/
def look (s : DispatchCall T ε) (sid : Nat) : DispatchCall T ε :=
  match s.port.waitPkt sid with
  | .error p => { s with stage := .panicked p }
  | .ok none => s
  | .ok (some (pkt, port)) => { port, stage := .returned pkt (DispatchPort.accept pkt) }

def step (pkt : Packet T) (s : DispatchCall T ε) : DispatchCallAct T → Option (DispatchCall T ε)
  | .send =>
      match s.stage with
      | .sending => some (s.send pkt)
      | _ => none
  | .arrive p => some { s with port := s.port.arrive p }
  | .look =>
      match s.stage with
      | .waiting sid => some (s.look sid)
      | _ => none

end DispatchCall

end Ra2m
