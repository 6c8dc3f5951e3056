/-
The switch of one-way channels (`net/split_switch.rs`).

A SplitSwitch has one kind of port, and takes requests and answers alike for messages
that go to the node they name.  It marks each as an answer, so that the port it leaves
on lets it pass; what cannot be routed goes back where it came from.  Its table is that
of the Switch.  `net` is its layers and the nodes at work, as a network of stations.
-/
import Ra2m.Cpn.Switch
import Ra2m.Lib.Stations
import Mathlib.Tactic.DeriveFintype

namespace Ra2m

structure SplitSwitch (T : Type) where
  uid : Nat
  ports : Nat
  portMap : List (T × Nat) := []

/-- A process with a channel of packets before it: a layer of the SplitSwitch, or a node. -/
inductive SplitStation (n : Nat) where
  | layer (idx : Fin n)
  | node (idx : Fin n)
  deriving DecidableEq, Fintype

namespace SplitSwitch

open Packet (said)

variable {T P : Type} [DecidableEq T]

/-- Look a node up. -/
def getPort (self : SplitSwitch T) (descr : T) : Except NetworkError Nat :=
  Switch.getPort ⟨self.uid, self.portMap⟩ descr

/-- Register a node on a port, unless it is registered already. -/
def registerPort (self : SplitSwitch T) (trgt : T) (port : Nat) :
    Except NetworkError (SplitSwitch T) :=
  (Switch.registerPort ⟨self.uid, self.portMap⟩ trgt port).map fun table =>
    { self with portMap := table.portMap }

/-- Forward a message received on port `idx`; the port it leaves on comes first. -/
def forwardLayer (t : Timing) (self : SplitSwitch T) (idx : Nat) (pkt : Packet (Network T P)) :
    Nat × Packet (Network T P) :=
  let net := pkt.payload.setMode .response
  match self.getPort net.toNode with
  | .ok dst =>
      let net := net.pushTrace (.switch t.now self.uid (.forward idx dst))
      (dst, (pkt.setPayload net).appendDelay (Switch.switchDelay t 0))
  | .error err => (idx, pkt.setPayload (net.setMode (.error err)))

abbrev Station (self : SplitSwitch T) : Type := SplitStation self.ports

/-- One turn of a process on the packet it received: the packets it sends; `none` when it panics. -/
def turn (P : Type) (self : SplitSwitch T) : self.Station → Timing → Unit → Packet (Network T P) →
    Option (List (self.Station × Packet (Network T P)) × Unit)
  | .layer idx, t, _, pkt =>
      let out := self.forwardLayer t idx pkt
      if h : out.1 < self.ports then some ([(.node ⟨out.1, h⟩, out.2)], ()) else none
  | .node _, _, _, _ => some ([], ())

/-- The SplitSwitch and the nodes, with channels of the given sizes. -/
def net (P : Type) (self : SplitSwitch T) (inflight : self.Station → Nat) :
    Stations.Net self.Station (Packet (Network T P)) Timing Unit :=
  ⟨self.turn P, inflight⟩

abbrev NetAct (P : Type) (self : SplitSwitch T) : Type :=
  Stations.Act self.Station (Packet (Network T P)) Timing

abbrev NetState (P : Type) (self : SplitSwitch T) : Type :=
  Stations.State self.Station (Packet (Network T P)) Unit

abbrev NetLog (P : Type) (self : SplitSwitch T) : Type :=
  List (Stations.Event self.Station (Packet (Network T P)))

variable {self : SplitSwitch T}

/-- The messages node `idx` sent. -/
def sent (idx : Fin self.ports) (log : self.NetLog P) : List (Packet (Network T P)) :=
  (Stations.arrivals (.layer idx) log).map Prod.snd

/-- The messages node `dst` received that came in on port `idx`. -/
def received (idx dst : Fin self.ports) (log : self.NetLog P) : List (Packet (Network T P)) :=
  Stations.bySrc (some (.layer idx)) (Stations.taken (.node dst) log)

/-- What a message sent on port `idx` says at node `dst`, if it goes there. -/
def saidAt (self : SplitSwitch T) (idx dst : Nat) (pkt : Packet (Network T P)) :
    List (Nat × Mode NetworkError × T × T × P) :=
  match self.getPort pkt.payload.toNode with
  | .ok port => if port = dst then [said (pkt.setPayload (pkt.payload.setMode .response))] else []
  | .error err =>
      if idx = dst then [said (pkt.setPayload (pkt.payload.setMode (.error err)))] else []

end SplitSwitch

end Ra2m
