/-
Programs of masters on the bus (`protocol/membus.rs`, `port/full_duplex.rs`).

`ReqRespPort<MemBus>` gives a module reads and writes of bytes and of plain data, each one
request through its port and one wait for the answer.  What a module does with them is a
program; every master of a crossbar runs one, and the layers of the XBar and the memories
work at the same time.

A request is put on its channel when there is room, with the tick and the packet uid of
the step.
-/
import Ra2m.Cpn.XBarNet
import Ra2m.Lib.Programs
import Ra2m.Sim.Burst

namespace Ra2m

/-- What an access through a port fails with. -/
abbrev PortFailure := PktFailure MemBusError

abbrev PortProgram (β : Type) := Program UInt8 PortFailure β

/-- The request for an access of the module with the given uid. -/
def MemBus.ofAccess (now : Tick) (fromUid : Nat) : Access UInt8 → MemBus
  | .read addr len => .new now fromUid .read (.phys addr) (.simple len) none
  | .write addr data => .new now fromUid .write (.phys addr) (.simple data.length) (some data)

/-- What a call returns of the answer to its request: a write drops it. -/
def MemBus.found (self : MemBus) : Access UInt8 → List UInt8
  | .read _ _ => self.data
  | .write _ _ => []

/-- A type whose values are a fixed number of bytes, and any such bytes a value. -/
structure Pod (T : Type) where
  size : Nat
  toBytes : T → List UInt8
  ofBytes : List UInt8 → T
  length_toBytes : ∀ data, (toBytes data).length = size
  ofBytes_toBytes : ∀ data, ofBytes (toBytes data) = data

namespace ReqRespPort

variable {T : Type}

def writeBytes (addr : Nat) (data : List UInt8) : PortProgram (Except PortFailure Unit) :=
  .access (.write addr data) fun resp => .done (resp.map fun _ => ())

def readBytes (addr len : Nat) : PortProgram (Except PortFailure (List UInt8)) :=
  .access (.read addr len) fun resp => .done resp

def write (pod : Pod T) (addr : Nat) (data : T) : PortProgram (Except PortFailure Unit) :=
  writeBytes addr (pod.toBytes data)

/-- The bytes are copied over the value; that panics when they are not as many. -/
def read (pod : Pod T) (addr : Nat) : PortProgram (Exec (Except PortFailure T)) :=
  (readBytes addr pod.size).andThen fun
    | .error err => .done (.ok (.error err))
    | .ok data =>
        if data.length = pod.size then .done (.ok (.ok (pod.ofBytes data)))
        else .done (.error ⟨"source slice length does not match destination slice length"⟩)

end ReqRespPort

/-- Where the program of a master is. -/
inductive MasterStage (β : Type) where
  | running (p : PortProgram β)
  /-- In `wait_pkt_ep`. -/
  | waiting (x : Access UInt8) (pkt : Packet MemBus)
      (next : Except PortFailure (List UInt8) → PortProgram β)

structure ProgramNet (xbar : XBar) (β : Type) where
  net : xbar.NetState
  masters : Fin xbar.inboundLen → MasterStage β

inductive ProgramAct (xbar : XBar) where
  /-- A master sends the request its program has come to. -/
  | issue (idx : Fin xbar.inboundLen) (now : Tick) (uid : Nat)
  /-- It takes what came back. -/
  | recv (idx : Fin xbar.inboundLen)
  /-- A layer or a memory does its next step. -/
  | work (a : xbar.NetAct)

namespace ProgramNet

variable {xbar : XBar} {β : Type}

def init (rams : Nat → NpRam) (progs : Fin xbar.inboundLen → PortProgram β) :
    ProgramNet xbar β where
  net := Stations.State.init rams
  masters idx := .running (progs idx)

/-- The program of a master goes on with an answer. -/
def answered (s : ProgramNet xbar β) (idx : Fin xbar.inboundLen) (x : Access UInt8)
    (next : Except PortFailure (List UInt8) → PortProgram β)
    (resp : Except PortFailure (Packet MemBus)) : ProgramNet xbar β :=
  { s with masters :=
      Function.update s.masters idx (.running (next (resp.map fun ans => ans.payload.found x))) }

/-- One step; the masters are modules with the given uids. -/
def step (inflight : xbar.Station → Nat) (uids : Fin xbar.inboundLen → Nat)
    (s : ProgramNet xbar β) : ProgramAct xbar → Option (ProgramNet xbar β)
  | .issue idx now uid =>
      match s.masters idx with
      | .running (.access x next) =>
          let pkt : Packet MemBus := { uid, payload := .ofAccess now (uids idx) x }
          match TxStatus.txCheck pkt.payload with
          | .error err => some (s.answered idx x next (.error (.status err)))
          | .ok () => ((xbar.net inflight).step s.net (.arrive (.inbound idx) pkt)).map fun net =>
              { net, masters := Function.update s.masters idx (.waiting x pkt next) }
      | _ => none
  | .recv idx =>
      match s.masters idx with
      | .waiting x pkt next =>
          match SlavePort.waitPktEp (some pkt.uid) ((s.net.queue (.master idx)).map Prod.snd) with
          | none => none
          | some (resp, _) =>
              ((xbar.net inflight).step s.net (.take (.master idx) {})).map fun net =>
                { s with net }.answered idx x next resp
      | _ => none
  | .work a =>
      if XBar.ofLayer a then ((xbar.net inflight).step s.net a).map fun net => { s with net }
      else none

end ProgramNet

end Ra2m
