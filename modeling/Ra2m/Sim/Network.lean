/-
The network protocol (`protocol/network.rs`).

A `Network` message carries a payload of another protocol from one node to another
and back, with a status of its own.  Wrapping and unwrapping make a new packet, so
the packet id changes and the delay not yet waited for is kept.
-/
import Ra2m.Sim.MemBus

namespace Ra2m

/-- A message between two nodes around a payload. -/
structure Network (T P : Type) where
  mode : Mode NetworkError := .request
  fromNode : T
  toNode : T
  payload : P
  trace : History := []

namespace Network

variable {T P : Type}

def new (fromNode toNode : T) (payload : P) : Network T P := { fromNode, toNode, payload }

def setMode (self : Network T P) (mode : Mode NetworkError) : Network T P := { self with mode }

def pushTrace (self : Network T P) (h : Handler) : Network T P :=
  { self with trace := self.trace ++ [h] }

instance : TxStatus (Network T P) NetworkError where
  txCheck self := match self.mode with
    | .response => .error .respAsReq
    | .request => .ok ()
    | .error err => .error err

instance : RxStatus (Network T P) NetworkError where
  rxCheck self := match self.mode with
    | .request => .error .reqAsResp
    | .response => .ok ()
    | .error err => .error err

theorem rxCheck_eq_ok_iff {msg : Network T P} :
    RxStatus.rxCheck msg = .ok () ↔ msg.mode = .response := by
  unfold RxStatus.rxCheck instRxStatusNetworkError
  cases h : msg.mode <;> simp [h]

theorem rxCheck_of_error {msg : Network T P} {e : NetworkError} (h : msg.mode = .error e) :
    RxStatus.rxCheck msg = .error e := by
  unfold RxStatus.rxCheck instRxStatusNetworkError
  simp [h]

end Network

namespace Packet

variable {T P : Type}

/-- What is left to wait for at tick `now`. -/
def delay (self : Packet P) (now : Tick) : Tick := self.readyAt - now

/-- Take the payload out of a message, in a packet of id `pktUid`. -/
def innerUnwrap (now : Tick) (pktUid : Nat) (self : Packet (Network T P)) : Packet P :=
  { timed := self.timed, uid := pktUid, sid := self.sid, payload := self.payload.payload
    readyAt := now + self.delay now }

/-- Wrap a packet's payload in a message, in a packet of id `pktUid`. -/
def innerWrap (now : Tick) (pktUid : Nat) (fromNode toNode : T) (inner : Packet P) :
    Packet (Network T P) :=
  { timed := inner.timed, uid := pktUid, sid := inner.sid
    payload := .new fromNode toNode inner.payload, readyAt := now + inner.delay now }

@[simp] theorem innerUnwrap_payload (now : Tick) (u : Nat) (p : Packet (Network T P)) :
    (p.innerUnwrap now u).payload = p.payload.payload := rfl
@[simp] theorem innerUnwrap_sid (now : Tick) (u : Nat) (p : Packet (Network T P)) :
    (p.innerUnwrap now u).sid = p.sid := rfl
@[simp] theorem innerWrap_payload (now : Tick) (u : Nat) (a b : T) (p : Packet P) :
    (innerWrap now u a b p).payload = .new a b p.payload := rfl
@[simp] theorem innerWrap_sid (now : Tick) (u : Nat) (a b : T) (p : Packet P) :
    (innerWrap now u a b p).sid = p.sid := rfl

end Packet

end Ra2m
