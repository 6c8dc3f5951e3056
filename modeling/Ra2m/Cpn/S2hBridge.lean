/-
Accesses of the simulation answered by a host (`ffi_bridge/ipc/s2h_bridge.rs`).

The bridge takes request after request off its port, asks the host for the ones it
can forward, and sends every request back with its status set.  The host answers what
it is asked in order, with an ack of any kind, and the link can fail instead of
delivering one.  An ack of the wrong kind fails a read; for a write it is a panic.

The bytes of a request travel in memory shared with the host and are lists of bytes
here, addresses are cut to the 64 bits of the message.  The link is taken to be there.
-/
import Ra2m.Ffi.Messages
import Ra2m.Sim.MemBus

namespace Ra2m

/-- What `ack.recv` returns: an ack, or the `Debug` text of the error of the link. -/
abbrev AckRecv := Except String (IpcAck (List UInt8))

structure S2hBridge where
  uid : Nat
  /-- The `Debug` text of an ack. -/
  debugAck : IpcAck (List UInt8) → String

/-- One request of a session: what the host was asked for it and answered, and what went back. -/
structure Exchange where
  pkt : Packet MemBus
  asked : Option (IpcReq (List UInt8)) := none
  ack : Option AckRecv := none
  reply : Packet MemBus

/-- A session up to where it waits for the host or for a request. -/
structure Session where
  done : List Exchange := []
  /-- The requests not sent back yet. -/
  rx : List (Tick × Packet MemBus) := []
  /-- The acks not received yet. -/
  acks : List AckRecv

namespace S2hBridge

/-- The request with the message of an ack of another kind. -/
def mismatch (self : S2hBridge) (ack : IpcAck (List UInt8)) : String :=
  s!"Received Ack mismatch with sent request {self.debugAck ack}"

/-- One turn of the loop: a request received at tick `now`; `none` while the host has not
answered. -/
def turn (self : S2hBridge) (now : Tick) (pkt : Packet MemBus) (acks : List AckRecv) :
    Exec (Option (Exchange × List AckRecv)) :=
  let req := pkt.payload.pushTrace (.base now self.uid)
  let reply (req : MemBus) : Exchange := { pkt, reply := pkt.setPayload req }
  match req.subrangeAddr with
  | .unset => .ok (some (reply (req.setMode (.error (.subRange req.subrangeAddr))), acks))
  | .phys addr =>
      match req.pattern with
      | .simple p =>
          match req.cmd with
          | .read =>
              let rdReq := IpcReq.read (.ofNat addr) (.ofNat p)
              match acks with
              | [] => .ok none
              | ack :: acks =>
                  let req := match ack with
                    | .ok (.read data) => { req with data := req.data ++ data }.setMode .response
                    | .ok ack => req.setMode (.error (.ffi (self.mismatch ack)))
                    | .error err => req.setMode (.error (.ffi err))
                  .ok (some ({ reply req with asked := some rdReq, ack := some ack }, acks))
          | .write =>
              if req.data.length = p then
                let wrReq := IpcReq.write (.ofNat addr) req.data
                match acks with
                | [] => .ok none
                | .ok .write :: rest =>
                    .ok (some ({ reply (req.setMode .response) with
                      asked := some wrReq, ack := some (.ok .write) }, rest))
                | .ok ack :: _ => .error ⟨self.mismatch ack⟩
                | .error err :: rest =>
                    .ok (some ({ reply (req.setMode (.error (.ffi err))) with
                      asked := some wrReq, ack := some (.error err) }, rest))
              else .error ⟨"assertion `left == right` failed"⟩
          | .addrRange => .ok (some (reply (req.setMode (.error (.cmd req.cmd))), acks))
      | pattern => .ok (some (reply (req.setMode (.error (.pattern pattern))), acks))

/-- Serve the requests in the order they come in, as far as the host answers. -/
def fwdOverIpc (self : S2hBridge) : List (Tick × Packet MemBus) → List AckRecv → Exec Session
  | [], acks => .ok { acks }
  | (now, pkt) :: rx, acks => do
      match ← self.turn now pkt acks with
      | none => .ok { rx := (now, pkt) :: rx, acks }
      | some (exchange, acks) =>
          let session ← self.fwdOverIpc rx acks
          .ok { session with done := exchange :: session.done }

end S2hBridge

/-- The host is asked for the request: a contiguous read or write at a physical address. -/
def forwarded (req : MemBus) : Bool :=
  match req.subrangeAddr, req.pattern, req.cmd with
  | .phys _, .simple _, .read => true
  | .phys _, .simple _, .write => true
  | _, _, _ => false

/-- The ack is of the kind of the command. -/
def ackMatches : Command → AckRecv → Bool
  | .read, .ok (.read _) => true
  | .write, .ok .write => true
  | _, _ => false

end Ra2m
