/-
Ports bound together (`port/half_duplex.rs`, `port/full_duplex.rs`, `port/mod.rs`).

A half-duplex port is one endpoint, a full-duplex port is two, and a `PortVec` makes a
new port each time it is bound.  Endpoints live in a `Bindings`, the sending ones apart
from the receiving ones, and ports and handles name them.  The payload type an endpoint
is made for is looked at only when a channel is connected to it.

A bind may fail after it has changed something, so it returns the state it leaves with
the error.  Locks are free while ports are bound.  The names in the errors are those of
the endpoints, with their path.
-/
import Ra2m.Sim.Addr
import Mathlib.Logic.Function.Basic

namespace Ra2m

/-- A bounded channel, and the type of what it carries. -/
structure ChannelEnd (Ty : Type) where
  id : Nat
  ty : Ty
  capacity : Nat
  deriving DecidableEq

/-- A `MasterEndpoint` or a `SlaveEndpoint`. -/
structure Endpoint (Ty : Type) where
  path : String
  name : String
  ty : Ty
  pktInflight : Option Nat := none
  channel : Option (ChannelEnd Ty) := none

inductive BindError where
  /-- `EndpointError::Handle`. -/
  | handle (ep : String) (tx rx : Bool)
  /-- `EndpointError::AlrdyBind`. -/
  | alrdyBind (ep : String) (bound : Bool)
  /-- `EndpointError::Downcast`. -/
  | downcast (ep : String)
  /-- `PortError::Inflight`. -/
  | inflight (tx : String) (txInflight : Option Nat) (rx : String) (rxInflight : Option Nat)
  /-- `PortError::InvalEp`. -/
  | invalEp (ep selfHandle withHandle : String)
  /-- `ContainerError::SizeExceeded`. -/
  | sizeExceeded (capacity : Nat)
  deriving DecidableEq

namespace Endpoint

variable {Ty : Type}

def fullName (self : Endpoint Ty) : String := s!"{self.path}.{self.name}"

def isBinded (self : Endpoint Ty) : Bool := self.channel.isSome

/-- Connect an endpoint that expects an end on the `own` side and none on the `other` one. -/
def connect [DecidableEq Ty] (self : Endpoint Ty) (own other : Option (ChannelEnd Ty))
    (handleErr : BindError) : Except BindError (Endpoint Ty) :=
  if self.isBinded then .error (.alrdyBind self.fullName self.isBinded)
  else
    match own, other with
    | some ch, none =>
        if ch.ty = self.ty then .ok { self with channel := some ch }
        else .error (.downcast self.fullName)
    | _, _ => .error handleErr

/-- `connect_channels` of a `MasterEndpoint`. -/
def connectTx [DecidableEq Ty] (self : Endpoint Ty) (tx rx : Option (ChannelEnd Ty)) :
    Except BindError (Endpoint Ty) :=
  self.connect tx rx (.handle self.fullName tx.isSome rx.isSome)

/-- `connect_channels` of a `SlaveEndpoint`. -/
def connectRx [DecidableEq Ty] (self : Endpoint Ty) (tx rx : Option (ChannelEnd Ty)) :
    Except BindError (Endpoint Ty) :=
  self.connect rx tx (.handle self.fullName tx.isSome rx.isSome)

end Endpoint

/-- A port by its endpoints. -/
inductive Port where
  | master (tx : Nat)
  | slave (rx : Nat)
  | reqResp (tx rx : Nat)
  | dispatch (tx rx : Nat)
  deriving DecidableEq

inductive PortKind where
  | master
  | slave
  | reqResp
  | dispatch
  deriving DecidableEq

inductive PortHandle where
  | txOnly (tx : Nat)
  | rxOnly (rx : Nat)
  | txRx (tx rx : Nat)
  deriving DecidableEq

namespace PortHandle

def debug : PortHandle → String
  | txOnly _ => "TxOnly"
  | rxOnly _ => "RxOnly"
  | txRx _ _ => "TxRx"

def tx? : PortHandle → Option Nat
  | txOnly tx => some tx
  | rxOnly _ => none
  | txRx tx _ => some tx

def rx? : PortHandle → Option Nat
  | txOnly _ => none
  | rxOnly rx => some rx
  | txRx _ rx => some rx

end PortHandle

/-- The handle of a port. -/
def Port.viewAsHandle : Port → PortHandle
  | master tx => .txOnly tx
  | slave rx => .rxOnly rx
  | reqResp tx rx => .txRx tx rx
  | dispatch tx rx => .txRx tx rx

/-- A vector of ports of one kind; `used` also counts the pushes that were refused. -/
structure PortVec (Ty : Type) where
  path : String
  name : String
  kind : PortKind
  ty : Ty
  pktInflight : Option Nat := none
  sidWidth : Option Nat := none
  capacity : Nat
  used : Nat := 0

structure Bindings (Ty : Type) where
  tx : Nat → Endpoint Ty
  rx : Nat → Endpoint Ty
  vec : Nat → PortVec Ty
  /-- The numbers the next endpoint of either side and the next channel get. -/
  nextTx : Nat
  nextRx : Nat
  nextChannel : Nat

/-- What is bound: a port, or a vector by its number. -/
inductive Bindable where
  | port (p : Port)
  | vec (v : Nat)
  deriving DecidableEq

namespace Bindings

variable {Ty : Type}

/-! ### New ports -/

def addTx (self : Bindings Ty) (ep : Endpoint Ty) : Nat × Bindings Ty :=
  (self.nextTx, { self with
    tx := Function.update self.tx self.nextTx ep, nextTx := self.nextTx + 1 })

def addRx (self : Bindings Ty) (ep : Endpoint Ty) : Nat × Bindings Ty :=
  (self.nextRx, { self with
    rx := Function.update self.rx self.nextRx ep, nextRx := self.nextRx + 1 })

/-- `PortNew::new` of the vector's kind of port. -/
def newPort (self : Bindings Ty) (v : PortVec Ty) (name : String) : Exec (Port × Bindings Ty) :=
  let ep (name : String) (pktInflight : Option Nat) : Endpoint Ty :=
    { path := v.path, name, ty := v.ty, pktInflight }
  let noSid (kind : String) : Exec Unit :=
    if v.sidWidth.isNone then .ok ()
    else .error ⟨s!"{v.path}.{name}: {kind} don't support sid dispatch"⟩
  match v.kind with
  | .master => do
      noSid "MasterPort"
      let (tx, self) := self.addTx (ep name v.pktInflight)
      .ok (.master tx, self)
  | .slave => do
      noSid "SlavePort"
      let (rx, self) := self.addRx (ep name v.pktInflight)
      .ok (.slave rx, self)
  | .reqResp => do
      noSid "ReqRespPort"
      let (tx, self) := self.addTx (ep s!"{name}.tx" v.pktInflight)
      let (rx, self) := self.addRx (ep s!"{name}.rx" v.pktInflight)
      .ok (.reqResp tx rx, self)
  | .dispatch =>
      match v.pktInflight, v.sidWidth with
      | none, _ => .error ⟨"Dispatch inflight packet must be set at creation. " ++
          "Couldn't be deferred to elaboration phase"⟩
      | some _, none => .error ⟨s!"{v.path}.{name}: DispatchPort required sid dispatch"⟩
      | some inflight, some _ =>
          let (tx, self) := self.addTx (ep s!"{name}.tx" (some inflight))
          let (rx, self) := self.addRx (ep s!"{name}.drx" (some inflight))
          .ok (.dispatch tx rx, self)

/-- Push a new port on a vector; the slot is counted before the capacity is looked at. -/
def nextPort (self : Bindings Ty) (v : Nat) : Exec (Except BindError Port × Bindings Ty) := do
  let vec := self.vec v
  let (port, self) ← self.newPort vec s!"{vec.name}_{vec.used}"
  let self := { self with
    vec := Function.update self.vec v { vec with used := vec.used + 1 } }
  if vec.used < vec.capacity then .ok (.ok port, self)
  else .ok (.error (.sizeExceeded vec.capacity), self)

/-! ### Handles -/

/-- The handle of what is bound; a vector gives that of a new port. -/
def viewAsHandle (self : Bindings Ty) : Bindable → Exec (PortHandle × Bindings Ty)
  | .port p => .ok (p.viewAsHandle, self)
  | .vec v => do
      match ← self.nextPort v with
      | (.ok port, self) => .ok (port.viewAsHandle, self)
      | (.error _, _) => .error ⟨s!"{(self.vec v).path}.{(self.vec v).name}"⟩

/-! ### Binding -/

/-- The capacity of the channel between two endpoints; only one of them may set it, and has to. -/
def inflight (self : Bindings Ty) (tx rx : Nat) : Option Nat :=
  match (self.tx tx).pktInflight, (self.rx rx).pktInflight with
  | some pktIft, none | none, some pktIft => some pktIft
  | _, _ => none

variable [DecidableEq Ty]

/-- Allocate a channel for payloads of type `ty` and connect both endpoints to it. -/
def connectChannel (self : Bindings Ty) (ty : Ty) (tx rx : Nat) :
    Exec (Except BindError Unit × Bindings Ty) :=
  let epTx := self.tx tx
  let epRx := self.rx rx
  match self.inflight tx rx with
  | none =>
      .ok (.error (.inflight epTx.fullName epTx.pktInflight epRx.fullName epRx.pktInflight), self)
  | some 0 => .error ⟨"mpsc bounded channel requires buffer > 0"⟩
  | some capacity =>
      let ch : ChannelEnd Ty := ⟨self.nextChannel, ty, capacity⟩
      let self := { self with nextChannel := self.nextChannel + 1 }
      match epTx.connectTx (some ch) none with
      | .error err => .ok (.error err, self)
      | .ok epTx =>
          let self := { self with tx := Function.update self.tx tx epTx }
          match epRx.connectRx none (some ch) with
          | .error err => .ok (.error err, self)
          | .ok epRx => .ok (.ok (), { self with rx := Function.update self.rx rx epRx })

/-- `MasterPort::bind`. -/
def bindMaster (self : Bindings Ty) (tx : Nat) (h : PortHandle) :
    Exec (Except BindError Unit × Bindings Ty) :=
  match h.rx? with
  | some rx => self.connectChannel (self.tx tx).ty tx rx
  | none =>
      let selfHandle := (Port.master tx).viewAsHandle.debug
      .ok (.error (.invalEp (self.tx tx).fullName selfHandle h.debug), self)

/-- `SlavePort::bind`. -/
def bindSlave (self : Bindings Ty) (rx : Nat) (h : PortHandle) :
    Exec (Except BindError Unit × Bindings Ty) :=
  match h.tx? with
  | some tx => self.connectChannel (self.rx rx).ty tx rx
  | none =>
      let selfHandle := (Port.slave rx).viewAsHandle.debug
      .ok (.error (.invalEp (self.rx rx).fullName selfHandle h.debug), self)

/-- `bind` of the two full-duplex ports: the sending side, then the receiving side. -/
def bindBoth (self : Bindings Ty) (tx rx : Nat) (h : PortHandle) :
    Exec (Except BindError Unit × Bindings Ty) := do
  match ← self.bindMaster tx h with
  | (.error err, self) => .ok (.error err, self)
  | (.ok (), self) => self.bindSlave rx h

/-- `bind` of a port. -/
def bindPort (self : Bindings Ty) : Port → PortHandle → Exec (Except BindError Unit × Bindings Ty)
  | .master tx, h => self.bindMaster tx h
  | .slave rx, h => self.bindSlave rx h
  | .reqResp tx rx, h => self.bindBoth tx rx h
  | .dispatch tx rx, h => self.bindBoth tx rx h

/-- `bind` with a handle; a vector binds a new port. -/
def bindWith (self : Bindings Ty) (a : Bindable) (h : PortHandle) :
    Exec (Except BindError Unit × Bindings Ty) :=
  match a with
  | .port p => self.bindPort p h
  | .vec v => do
      match ← self.nextPort v with
      | (.error err, self) => .ok (.error err, self)
      | (.ok port, self) => self.bindPort port h

/-- Bind one to the other, as `a.bind(b.view_as_handle())`. -/
def bind (self : Bindings Ty) (a b : Bindable) : Exec (Except BindError Unit × Bindings Ty) := do
  let (h, self) ← self.viewAsHandle b
  self.bindWith a h

end Bindings

end Ra2m
