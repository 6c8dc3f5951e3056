/-
A system of NDma nodes, their memories and the network between them.

A node's pool is drawn from by `request_layer` and by `ingress_layer`, each of which
takes a slot before it waits for work.  Taking a slot is one step, and so is the turn
a layer makes with a packet it received; a packet is put on its way by the turn that
sends it, and packets overtake each other freely everywhere.  The network hands a
request to the node it names and an answer to the node that asked, as it was sent.

An access is `NetFlight`: the transfer it is made for, the slot it has at a node it
visits, and where it is.  The transfers and the record of what happened (`taken`,
`accesses`, `answered`) are there to state the results; no step reads them.
-/
import Ra2m.Cpn.NDma
import Ra2m.Cpn.Switch
import Ra2m.Cpn.DmaSystem
import Mathlib.Logic.Function.Basic

namespace Ra2m

/-- Where an access is, and the packet it is there. -/
inductive Place (T : Type) where
  /-- On its way to the memory of a node. -/
  | mem (node : T) (pkt : Packet MemBus)
  /-- On its way back from it. -/
  | memResp (node : T) (pkt : Packet MemBus)
  /-- In the network, on its way to the node it is for. -/
  | netReq (pkt : Packet (Network T MemBus))
  /-- In the network, on its way back to the node that asked. -/
  | netResp (pkt : Packet (Network T MemBus))

/-- A transfer in flight: its serial, the node that was asked for it, and its slot there. -/
structure NetXfer (T : Type) where
  serial : Nat
  own : T
  token : Nat
  dma : Packet (DmaBus (T × Addr))

/-- An access in flight. -/
structure NetFlight (T : Type) extends NetXfer T where
  /-- The node that serves the access for another one, and the slot the access has there. -/
  visit : Option (T × Nat)
  place : Place T

/-- A node: its slots, and the ones its two layers have in hand. -/
structure NetNode (T : Type) where
  inner : NDmaInner T
  request : Option Nat := none
  ingress : Option Nat := none

structure NDmaNet (T : Type) where
  node : T → NetNode T
  ram : T → NpRam
  flights : List (NetFlight T) := []
  /-- The requests received so far and where; a transfer's serial is its position. -/
  taken : List (T × Packet (DmaBus (T × Addr))) := []
  /-- What every access did to the memory that served it. -/
  accesses : List (RamAccess T) := []
  /-- What was put on an inbound port, with the serial of the transfer and the node. -/
  answered : List (Nat × T × Packet (DmaBus (T × Addr))) := []
  panic : Option Panic := none

inductive NetAct (T : Type) where
  /-- `request_layer` takes a slot. -/
  | reserve (n : T)
  /-- `ingress_layer` takes a slot. -/
  | reserveIngress (n : T)
  | request (n : T) (t : Timing) (pktUid : Nat) (dma : Packet (DmaBus (T × Addr)))
  /-- The memory the `i`-th access is at serves it. -/
  | serve (i : Nat) (t : Timing)
  /-- The `i`-th access fails on its way. -/
  | refuse (i : Nat) (err : MemBusError)
  /-- A memory serves a request of another master. -/
  | other (n : T) (t : Timing) (req : MemBus)
  | memLayer (i : Nat) (t : Timing) (pktUid : Nat)
  /-- `ingress_layer` handles the `i`-th access, which arrives as `pkt`. -/
  | ingressLayer (i : Nat) (t : Timing) (pktUid : Nat) (pkt : Packet (Network T MemBus))
  | egressLayer (i : Nat) (t : Timing) (pktUid : Nat) (pkt : Packet (Network T MemBus))

namespace NetNode

variable {T : Type}

/-- The slots the layers have in hand. -/
def held (self : NetNode T) : List Nat := self.request.toList ++ self.ingress.toList

end NetNode

namespace Place

variable {T : Type}

/-- The access, without the message around it. -/
def payload : Place T → MemBus
  | mem _ pkt => pkt.payload
  | memResp _ pkt => pkt.payload
  | netReq pkt => pkt.payload.payload
  | netResp pkt => pkt.payload.payload

end Place

namespace NDmaNet

variable {T : Type} [DecidableEq T]

def init (inflightReq : T → Nat) (ram : T → NpRam) : NDmaNet T :=
  { node := fun n => { inner := .new (inflightReq n) }, ram }

/-- Put the packet of a turn on its way. -/
def emit (s : NDmaNet T) (n : T) (x : NetXfer T) (visit : Option (T × Nat))
    (rest : List (NetFlight T)) : NDma.Out T → NDmaNet T
  | .inbound pkt => { s with flights := rest, answered := s.answered ++ [(x.serial, n, pkt)] }
  | .mem pkt => { s with flights := ⟨x, visit, .mem n pkt⟩ :: rest }
  | .netInbound pkt => { s with flights := ⟨x, none, .netResp pkt⟩ :: rest }
  | .netOutbound pkt => { s with flights := ⟨x, visit, .netReq pkt⟩ :: rest }

/-- A turn of a layer of node `n`: what it leaves in the node, and its packet. -/
def turn (s : NDmaNet T) (n : T) (node : NetNode T) (x : NetXfer T) (visit : Option (T × Nat))
    (rest : List (NetFlight T)) : Exec (NDma.Out T × NDmaInner T) → NDmaNet T
  | .error p => { s with panic := some p }
  | .ok (out, inner) =>
      emit { s with node := Function.update s.node n { node with inner } } n x visit rest out

/-- The `i`-th access as the memory it is at answers it, and the memory after it. -/
def answer (s : NDmaNet T) (i : Nat) (t : Timing) : Option (T × NetFlight T × NpRam) :=
  match s.flights[i]? with
  | some ⟨x, visit, .mem n pkt⟩ =>
      match NpRam.handleRequest t (s.ram n) pkt.payload with
      | .error _ => none
      | .ok (delay, resp, ram) =>
          let pkt := (pkt.setPayload resp).appendDelay (delay.getD 0)
          some (n, ⟨x, visit, .memResp n pkt⟩, ram)
  | _ => none

/-- What an action does, for nodes with the given uids; `none` when the packet or the layer
concerned is not at that point. -/
def act (uid : T → Nat) (s : NDmaNet T) (a : NetAct T) : Option (NDmaNet T) :=
  match a with
  | .reserve n =>
      match (s.node n).request, (s.node n).inner.waitSlot with
      | none, some (token, inner) =>
          some { s with
            node := Function.update s.node n { s.node n with inner, request := some token } }
      | _, _ => none
  | .reserveIngress n =>
      match (s.node n).ingress, (s.node n).inner.waitSlot with
      | none, some (token, inner) =>
          some { s with
            node := Function.update s.node n { s.node n with inner, ingress := some token } }
      | _, _ => none
  | .request n t pktUid dma =>
      match (s.node n).request, dma.payload.pattern with
      | some token, .simple _ =>
          some (turn { s with taken := s.taken ++ [(n, dma)] } n { s.node n with request := none }
            ⟨s.taken.length, n, token, dma⟩ none s.flights
            (NDma.dmaToInnerReq t (uid n) pktUid n (s.node n).inner dma token))
      | _, _ => none
  | .serve i t =>
      match s.answer i t with
      | some (n, f, ram) =>
          some { s with
            flights := f :: s.flights.eraseIdx i
            ram := Function.update s.ram n ram
            accesses := s.accesses ++
              [⟨f.serial, n, f.place.payload.cmd, (s.ram n).memory, ram.memory⟩] }
      | none => none
  | .refuse i err =>
      match s.flights[i]? with
      | some ⟨x, visit, .mem n pkt⟩ =>
          let pkt := pkt.setPayload (pkt.payload.setMode (.error err))
          some { s with flights := ⟨x, visit, .memResp n pkt⟩ :: s.flights.eraseIdx i }
      | _ => none
  | .other n t req =>
      match NpRam.handleRequest t (s.ram n) req with
      | .error _ => none
      | .ok (_, _, ram) => some { s with ram := Function.update s.ram n ram }
  | .memLayer i t pktUid =>
      match s.flights[i]? with
      | some ⟨x, visit, .memResp n pkt⟩ =>
          some (s.turn n (s.node n) x visit (s.flights.eraseIdx i)
            (NDma.memLayer t pktUid n (s.node n).inner pkt))
      | _ => none
  | .ingressLayer i t pktUid pkt =>
      match s.flights[i]? with
      | some ⟨x, _, .netReq msg⟩ =>
          let n := msg.payload.toNode
          match (s.node n).ingress with
          | none => none
          | some token =>
              if Carried msg pkt then
                some (s.turn n { s.node n with ingress := none } x (some (n, token))
                  (s.flights.eraseIdx i)
                  (NDma.ingressLayer t (uid n) pktUid (s.node n).inner token pkt))
              else none
      | _ => none
  | .egressLayer i t pktUid pkt =>
      match s.flights[i]? with
      | some ⟨x, visit, .netResp msg⟩ =>
          let n := msg.payload.fromNode
          if Carried msg pkt then
            some (s.turn n (s.node n) x visit (s.flights.eraseIdx i)
              (NDma.egressLayer t pktUid n (s.node n).inner pkt))
          else none
      | _ => none

/-- A panic ends the run. -/
def step (uid : T → Nat) (s : NDmaNet T) (a : NetAct T) : Option (NDmaNet T) :=
  if s.panic.isSome then none else s.act uid a

theorem step_eq {uid : T → Nat} {s : NDmaNet T} {a : NetAct T} (h : s.panic = none) :
    step uid s a = s.act uid a := by
  unfold step
  rw [h]
  rfl

/-- The action does not make an access fail. -/
def AccessOk (s : NDmaNet T) : NetAct T → Prop
  | .serve i t => ∀ e ∈ s.answer i t, e.2.1.place.payload.mode = .response
  | .refuse _ _ => False
  | _ => True

instance (s : NDmaNet T) : (a : NetAct T) → Decidable (s.AccessOk a)
  | .serve i t =>
      inferInstanceAs (Decidable (∀ e ∈ s.answer i t, e.2.1.place.payload.mode = .response))
  | .refuse _ _ => inferInstanceAs (Decidable False)
  | .reserve _ | .reserveIngress _ | .request _ _ _ _ | .other _ _ _ | .memLayer _ _ _
  | .ingressLayer _ _ _ _ | .egressLayer _ _ _ _ => inferInstanceAs (Decidable True)

/-! ### Where slots and accesses are -/

end NDmaNet

/-- The slots an access for a transfer has at a node, and what they hold, with the slot it has at
the node it visits. -/
def NetXfer.slots {T : Type} [DecidableEq T] (x : NetXfer T) (visit : Option (T × Nat)) (n : T) :
    List (Nat × NDmaSlot T) :=
  (if x.own = n then [(x.token, .dma x.dma)] else []) ++
    match visit with
    | some (node, token) => if node = n then [(token, .net x.own node)] else []
    | none => []

namespace NetFlight

variable {T : Type} [DecidableEq T]

def slots (f : NetFlight T) (n : T) : List (Nat × NDmaSlot T) := f.toNetXfer.slots f.visit n

/-- The entries the access has on its route stack. -/
def stack (f : NetFlight T) : List Nat := f.token :: f.visit.toList.map Prod.snd

end NetFlight

namespace NDmaNet

variable {T : Type} [DecidableEq T]

/-- The slots in use at a node, and what they hold. -/
def busy (s : NDmaNet T) (n : T) : List (Nat × NDmaSlot T) := s.flights.flatMap fun f => f.slots n

/-- The tokens in use at a node. -/
def tokens (s : NDmaNet T) (n : T) : List Nat := (s.busy n).map Prod.fst

/-- The accesses made for a transfer. -/
def made (s : NDmaNet T) (serial : Nat) : List (RamAccess T) :=
  s.accesses.filter fun a => a.serial = serial

end NDmaNet

end Ra2m
