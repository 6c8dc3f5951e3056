/-
A switch with its nodes at work (`net/switch.rs`).

The Switch runs a forward layer for each ingress port and a backward layer for each
egress port, all of them at once, and the node of an interface sends its requests to
the ingress port and answers those that leave on the egress port.  The Switch has a
routing table and nothing else in common to its layers; what the nodes keep is theirs.

`net` is this system as a network of stations, as `XBar.net` is.  The nodes are not
part of the Switch: what one makes of a request is `forge`, as `forge_resp` takes it.
-/
import Ra2m.Cpn.Switch
import Ra2m.Lib.Stations
import Ra2m.Sim.Port
import Mathlib.Tactic.DeriveFintype

namespace Ra2m

/-- A process with a channel of packets before it: a layer of the Switch, or the master or the slave
side of a node. -/
inductive SwitchStation (n : Nat) where
  | ingress (idx : Fin n)
  | egress (idx : Fin n)
  | slave (idx : Fin n)
  | master (idx : Fin n)
  deriving DecidableEq, Fintype

/-- A switch with a node on each of its interfaces. -/
structure SwitchNet (σ T P : Type) where
  switch : Switch T
  ports : Nat
  forge : Timing → Fin ports → σ → Network T P → Exec (Option Tick × Network T P × σ)

namespace SwitchNet

open Packet (said)

variable {σ T P : Type}

abbrev Station (self : SwitchNet σ T P) : Type := SwitchStation self.ports

/-- The port a message leaves on, with the message; `none` when there is no such port. -/
def leave (n : Nat) : Switch.Out T P → Option (SwitchStation n × Packet (Network T P))
  | .egress port pkt => if h : port < n then some (.slave ⟨port, h⟩, pkt) else none
  | .ingress port pkt => if h : port < n then some (.master ⟨port, h⟩, pkt) else none

variable [DecidableEq T]

/-- One turn of a process on the packet it received: the packets it sends and the nodes after it;
`none` when it panics. -/
def turn (self : SwitchNet σ T P) : self.Station → Timing → (Nat → σ) → Packet (Network T P) →
    Option (List (self.Station × Packet (Network T P)) × (Nat → σ))
  | .ingress idx, t, nodes, pkt =>
      (leave self.ports (self.switch.forwardLayer t idx pkt)).map fun out => ([out], nodes)
  | .egress idx, t, nodes, pkt =>
      (leave self.ports (self.switch.backwardLayer t idx pkt)).map fun out => ([out], nodes)
  | .slave idx, t, nodes, pkt =>
      match forgeResp (self.forge t idx) (nodes idx) pkt [] with
      | .ok (_, tx, node) =>
          some (tx.map fun resp => (.egress idx, resp), Function.update nodes idx node)
      | .error _ => none
  | .master _, _, nodes, _ => some ([], nodes)

/-- The Switch and the nodes, with channels of the given sizes. -/
def net (self : SwitchNet σ T P) (inflight : self.Station → Nat) :
    Stations.Net self.Station (Packet (Network T P)) Timing (Nat → σ) :=
  ⟨self.turn, inflight⟩

abbrev NetState (self : SwitchNet σ T P) : Type :=
  Stations.State self.Station (Packet (Network T P)) (Nat → σ)

abbrev NetAct (self : SwitchNet σ T P) : Type :=
  Stations.Act self.Station (Packet (Network T P)) Timing

abbrev NetLog (self : SwitchNet σ T P) : Type :=
  List (Stations.Event self.Station (Packet (Network T P)))

/-! ### What the log says of the calls -/

/-- A request a node answered, the interface it is from, and the answer. -/
structure Call (T P : Type) where
  src : Nat
  dst : Nat
  req : Packet (Network T P)
  ans : Packet (Network T P)

variable {self : SwitchNet σ T P}

/-- The requests the nodes answered, in the order they answered them. -/
def calls (log : self.NetLog) : List (Call T P) :=
  log.flatMap fun
    | .worked (.slave dst) (some (.ingress idx)) req outs =>
        outs.map fun out => ⟨idx, dst, req, out.2⟩
    | _ => []

/-- The requests from interface `idx` that node `dst` answered. -/
def callsOf (idx dst : Fin self.ports) (log : self.NetLog) : List (Call T P) :=
  (calls log).filter fun x => x.src = idx ∧ x.dst = dst

/-- The requests node `idx` sent. -/
def requests (idx : Fin self.ports) (log : self.NetLog) : List (Packet (Network T P)) :=
  (Stations.arrivals (.ingress idx) log).map Prod.snd

/-- The answers of node `dst` that node `idx` received. -/
def answers (idx dst : Fin self.ports) (log : self.NetLog) : List (Packet (Network T P)) :=
  Stations.bySrc (some (.egress dst)) (Stations.taken (.master idx) log)

/-- The requests node `idx` got back unserved. -/
def refusals (idx : Fin self.ports) (log : self.NetLog) : List (Packet (Network T P)) :=
  Stations.bySrc (some (.ingress idx)) (Stations.taken (.master idx) log)

/-- What a request asks of node `dst`. -/
def askFor (self : SwitchNet σ T P) (dst : Nat) (pkt : Packet (Network T P)) :
    List (Nat × Mode NetworkError × T × T × P) :=
  if self.switch.getPort pkt.payload.toNode = .ok dst then [said pkt] else []

/-- What comes back of a request whose destination is not registered. -/
def refusalOf (self : SwitchNet σ T P) (pkt : Packet (Network T P)) :
    List (Nat × Mode NetworkError) :=
  match self.switch.getPort pkt.payload.toNode with
  | .ok _ => []
  | .error err => [(pkt.uid, .error err)]

/-! ### What the nodes are for -/

/-- What a node is, apart from how long it takes: the answer to a request and the node after it. -/
abbrev Service (σ T P : Type) : Type := Nat → σ → Network T P → P × σ

/-- The nodes after the requests they answered. -/
def nodesAfter (serve : Service σ T P) (nodes : Nat → σ) (xs : List (Call T P)) : Nat → σ :=
  xs.foldl (fun nodes x =>
    Function.update nodes x.dst (serve x.dst (nodes x.dst) x.req.payload).2) nodes

end SwitchNet

end Ra2m
