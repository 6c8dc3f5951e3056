/-
A crossbar with its memories at work (`mem/xbar.rs`, `mem/np_ram.rs`).

The XBar runs a forward layer for each inbound port and a backward layer for each
outbound port, each memory a response layer, all of them at once.  Each takes the
packets of its port one after another and sends what it makes of one before it takes
the next; the channels between them hold as many packets as they were set up for.
The masters send requests to the inbound ports and take the answers that come back.

`net` is this system as a network of stations: `take` is a `recv` of a layer and what
it does up to its `send`, `pass` is the `send`, which waits for room in the channel.
What the layers draw from the clock and the latencies comes with the step.
-/
import Ra2m.Cpn.NpRam
import Ra2m.Cpn.XBar
import Ra2m.Lib.Stations
import Mathlib.Tactic.DeriveFintype

namespace Ra2m

/-- A process with a channel of packets before it: a layer of the XBar, a memory or a master. -/
inductive XBarStation (n m : Nat) where
  | inbound (idx : Fin n)
  | outbound (idx : Fin m)
  | memory (idx : Fin m)
  | master (idx : Fin n)
  deriving DecidableEq, Fintype

namespace XBar

/-- The stations of a XBar: as many as it has ports. -/
abbrev Station (self : XBar) : Type := XBarStation self.inboundLen self.outboundLen

/-- One turn of a process on the packet it received: the packets it sends and the memories after
it; `none` when it panics. -/
def turn (self : XBar) : self.Station → Timing → (Nat → NpRam) → Packet MemBus →
    Option (List (self.Station × Packet MemBus) × (Nat → NpRam))
  | .inbound idx, t, rams, pkt =>
      match forwardLayer t self idx pkt with
      | .ok (.inbound i ans) =>
          if h : i < self.inboundLen then some ([(.master ⟨i, h⟩, ans)], rams) else none
      | .ok (.outbound dst pkt) =>
          if h : dst < self.outboundLen then some ([(.memory ⟨dst, h⟩, pkt)], rams) else none
      | .error _ => none
  | .outbound idx, t, rams, pkt =>
      match backwardLayer t self idx pkt with
      | .ok (fromPort, ans) =>
          if h : fromPort < self.inboundLen then some ([(.master ⟨fromPort, h⟩, ans)], rams)
          else none
      | .error _ => none
  | .memory idx, t, rams, pkt =>
      match forgeResp (NpRam.handleRequest t) (rams idx) pkt [] with
      | .ok (_, tx, ram) =>
          some (tx.map fun resp => (.outbound idx, resp), Function.update rams idx ram)
      | .error _ => none
  | .master _, _, rams, _ => some ([], rams)

/-- The XBar, its memories and the masters, with channels of the given sizes. -/
def net (self : XBar) (inflight : self.Station → Nat) :
    Stations.Net self.Station (Packet MemBus) Timing (Nat → NpRam) :=
  ⟨self.turn, inflight⟩

abbrev NetState (self : XBar) : Type := Stations.State self.Station (Packet MemBus) (Nat → NpRam)

abbrev NetAct (self : XBar) : Type := Stations.Act self.Station (Packet MemBus) Timing

abbrev NetLog (self : XBar) : Type := List (Stations.Event self.Station (Packet MemBus))

variable {self : XBar}

/-- The step is one of a layer or a memory. -/
def ofLayer : self.NetAct → Bool
  | .arrive _ _ => false
  | .take (.master _) _ => false
  | .take _ _ => true
  | .pass _ => true

/-! ### What the log says of the accesses -/

/-- A request a memory served, the master it is from, and its answer. -/
structure Serve where
  master : Nat
  dst : Nat
  req : Packet MemBus
  ans : Packet MemBus

/-- The requests the memories served, in the order they served them. -/
def serves (log : self.NetLog) : List Serve :=
  log.flatMap fun
    | .worked (.memory dst) (some (.inbound idx)) req outs =>
        outs.map fun out => ⟨idx, dst, req, out.2⟩
    | _ => []

/-- The requests master `idx` sent. -/
def requests (idx : Fin self.inboundLen) (log : self.NetLog) : List (Packet MemBus) :=
  (Stations.arrivals (.inbound idx) log).map Prod.snd

/-- The packets master `idx` received. -/
def received (idx : Fin self.inboundLen) (log : self.NetLog) : List (Packet MemBus) :=
  (Stations.taken (.master idx) log).map Prod.snd

/-- The answers of memory `dst` that master `idx` received. -/
def answers (idx : Fin self.inboundLen) (dst : Fin self.outboundLen) (log : self.NetLog) :
    List (Packet MemBus) :=
  Stations.bySrc (some (.outbound dst)) (Stations.taken (.master idx) log)

/-- The requests master `idx` got back unserved. -/
def refusals (idx : Fin self.inboundLen) (log : self.NetLog) : List (Packet MemBus) :=
  Stations.bySrc (some (.inbound idx)) (Stations.taken (.master idx) log)

end XBar

end Ra2m
