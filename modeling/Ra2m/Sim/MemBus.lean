/-
Packets, handling histories and the MemBus and DmaBus payloads.

A `Packet` wraps a payload with what a port needs to carry it (`port/packet.rs`):
a unique id for reordering, a session id for dispatching, and the tick from which
the payload counts as delivered.  `MemBus` is the access protocol of the memory
side (`protocol/membus.rs`) and `DmaBus` the transfer protocol of a Dma
(`protocol/dma.rs`); both carry their status in a `Mode`, which `tx_check` and
`rx_check` read.

The preallocated stores of the source (`data`, `xbar_port`, the history) behave as
plain vectors and are lists here, with pushes and pops at the end.
-/
import Ra2m.Sim.Addr
import Mathlib.Algebra.Group.Nat.Defs
import Mathlib.Data.Rat.Defs

namespace Ra2m

/-! ### Packets -/

/-- A payload with its communication properties. -/
structure Packet (T : Type) where
  timed : Bool := true
  uid : Nat
  sid : Option Nat := none
  payload : T
  readyAt : Tick := 0
  deriving DecidableEq, Repr

namespace Packet

variable {T : Type}

/-- Count a delay for the packet without waiting for it: the sum is that of numbers, exact up to
the highest `usize`. -/
def appendDelay (self : Packet T) (delay : Tick) : Packet T :=
  { self with readyAt := self.readyAt + delay }

/-- `append_delay` with the overflow of its `+=`, for what counts delays of any size. -/
def appendDelayChecked (self : Packet T) (delay : Tick) : Exec (Packet T) :=
  if self.readyAt + delay < 2 ^ 64 then .ok (self.appendDelay delay)
  else .error ⟨"attempt to add with overflow"⟩

/-- Replace the payload. -/
def setPayload {U : Type} (self : Packet T) (payload : U) : Packet U :=
  { self with payload }

@[simp] theorem appendDelay_uid (p : Packet T) (d : Tick) : (p.appendDelay d).uid = p.uid := rfl
@[simp] theorem appendDelay_sid (p : Packet T) (d : Tick) : (p.appendDelay d).sid = p.sid := rfl
@[simp] theorem appendDelay_payload (p : Packet T) (d : Tick) :
    (p.appendDelay d).payload = p.payload := rfl
@[simp] theorem setPayload_uid (p : Packet T) (x : T) : (p.setPayload x).uid = p.uid := rfl
@[simp] theorem setPayload_sid (p : Packet T) (x : T) : (p.setPayload x).sid = p.sid := rfl
@[simp] theorem setPayload_payload (p : Packet T) (x : T) : (p.setPayload x).payload = x := rfl

end Packet

/-- Status of a payload before it is sent and after it is received; both pass by default. -/
class TxStatus (T : Type) (ε : outParam Type) where
  txCheck : T → Except ε Unit := fun _ => .ok ()

class RxStatus (T : Type) (ε : outParam Type) where
  rxCheck : T → Except ε Unit := fun _ => .ok ()

/-! ### Histories -/

/-- Progress of a multi-stage computation, in percent. -/
structure PipeStatus where
  percent : Rat
  deriving DecidableEq

/-- The path a switching component gave an access. -/
inductive SwitchPath where
  | forward (src dst : Nat)
  | backward (dst src : Nat)
  deriving DecidableEq

/-- One handling of a traced payload. -/
inductive Handler where
  | unset
  | base (tick : Tick) (uid : Nat)
  | pipe (tick : Tick) (uid pid : Nat) (status : PipeStatus)
  | switch (tick : Tick) (uid : Nat) (path : SwitchPath)
  | custom (tick : Tick) (uid : Nat) (data : Unit)
  deriving DecidableEq

abbrev History := List Handler

/-! ### Access status -/

/-- The bus access status: on the way to the target, answered, or failed. -/
inductive Mode (Err : Type) where
  | request
  | response
  | error (err : Err)
  deriving DecidableEq

inductive Command where
  | read
  | write
  | addrRange
  deriving DecidableEq, Repr

inductive MemBusError where
  | reqAsResp
  | respAsReq
  | cmd (cmd : Command)
  | pattern (pattern : Pattern)
  | subRange (addr : SubRangeAddr)
  | addrRange (err : AddrRangeError)
  | ffi (msg : String)
  deriving DecidableEq

/-! ### MemBus -/

structure MemBus where
  mode : Mode MemBusError := .request
  cmd : Command
  addr : Addr
  subrangeAddr : SubRangeAddr := .unset
  pattern : Pattern
  data : List UInt8 := []
  trace : History := []
  /-- Ports an access came in by, pushed by each XBar on the way and popped on the way back. -/
  xbarPort : List Nat := []
  deriving DecidableEq

namespace MemBus

/-- Set the sub-range address from the address. -/
def updateSubrange (self : MemBus) : MemBus :=
  { self with subrangeAddr := match self.addr with
      | .phys paddr => .phys paddr
      | .physVirt paddr _ => .phys paddr
      | _ => .unset }

/-- A request as a master issues it at tick `now`. -/
def new (now : Tick) (fromUid : Nat) (cmd : Command) (addr : Addr) (pattern : Pattern)
    (data : Option (List UInt8)) : MemBus :=
  let membus : MemBus := updateSubrange { cmd, addr, pattern }
  let membus := match data with
    | some data => { membus with data := membus.data ++ data }
    | none => membus
  { membus with trace := membus.trace ++ [.base now fromUid] }

/-- Push a port on the route stack. -/
def pushPort (self : MemBus) (port : Nat) : MemBus :=
  { self with xbarPort := self.xbarPort ++ [port] }

/-- Pop the last port off the route stack. -/
def popPort (self : MemBus) : Option Nat × MemBus :=
  (self.xbarPort.getLast?, { self with xbarPort := self.xbarPort.dropLast })

def setMode (self : MemBus) (mode : Mode MemBusError) : MemBus := { self with mode }

def pushTrace (self : MemBus) (h : Handler) : MemBus := { self with trace := self.trace ++ [h] }

@[simp] theorem setMode_mode (r : MemBus) (m) : (r.setMode m).mode = m := rfl
@[simp] theorem setMode_xbarPort (r : MemBus) (m) : (r.setMode m).xbarPort = r.xbarPort := rfl
@[simp] theorem pushPort_xbarPort (r : MemBus) (p : Nat) :
    (r.pushPort p).xbarPort = r.xbarPort ++ [p] := rfl
@[simp] theorem pushTrace_xbarPort (r : MemBus) (h) : (r.pushTrace h).xbarPort = r.xbarPort := rfl

instance : TxStatus MemBus MemBusError where
  txCheck self := match self.mode with
    | .response => .error .respAsReq
    | .request => .ok ()
    | .error err => .error err

instance : RxStatus MemBus MemBusError where
  rxCheck self := match self.mode with
    | .request => .error .reqAsResp
    | .response => .ok ()
    | .error err => .error err

theorem updateSubrange_phys {self : MemBus} {p : Nat} (h : self.addr.phys? = some p) :
    self.updateSubrange.subrangeAddr = .phys p := by
  unfold updateSubrange
  cases ha : self.addr with
  | phys q =>
      rw [ha] at h
      exact congrArg SubRangeAddr.phys (Option.some.inj h)
  | physVirt q v =>
      rw [ha] at h
      exact congrArg SubRangeAddr.phys (Option.some.inj h)
  | unset => rw [ha] at h; cases h
  | virt v => rw [ha] at h; cases h
  | range b n => rw [ha] at h; cases h

@[simp] theorem new_pattern (now : Tick) (uid : Nat) (cmd : Command) (addr : Addr) (p : Pattern)
    (data : Option (List UInt8)) : (new now uid cmd addr p data).pattern = p := by
  cases data <;> rfl

/-- A request whose sub-range is set was built with a physical address. -/
theorem phys?_of_new_subrange {now : Tick} {uid a : Nat} {cmd : Command} {addr : Addr} {p : Pattern}
    {data : Option (List UInt8)} (h : (new now uid cmd addr p data).subrangeAddr = .phys a) :
    addr.phys? = some a := by
  have hsub : (updateSubrange { cmd, addr, pattern := p }).subrangeAddr = .phys a := by
    cases data <;> exact h
  cases addr with
  | phys q => exact congrArg some (SubRangeAddr.phys.inj hsub)
  | physVirt q v => exact congrArg some (SubRangeAddr.phys.inj hsub)
  | unset => cases hsub
  | virt v => cases hsub
  | range b n => cases hsub

theorem txCheck_eq_ok_iff {req : MemBus} : TxStatus.txCheck req = .ok () ↔ req.mode = .request := by
  unfold TxStatus.txCheck instTxStatusMemBusError
  cases h : req.mode <;> simp [h]

theorem rxCheck_eq_ok_iff {req : MemBus} :
    RxStatus.rxCheck req = .ok () ↔ req.mode = .response := by
  unfold RxStatus.rxCheck instRxStatusMemBusError
  cases h : req.mode <;> simp [h]

/-- A payload that carries a failure does not pass `rx_check`. -/
theorem rxCheck_of_error {req : MemBus} {e : MemBusError} (h : req.mode = .error e) :
    RxStatus.rxCheck req = .error e := by
  unfold RxStatus.rxCheck instRxStatusMemBusError
  simp [h]

end MemBus

/-! ### DmaBus -/

inductive NetworkError where
  | reqAsResp
  | respAsReq
  | unreachable
  | alreadyUsed
  /-- The failure of the access behind the message. -/
  | inner (err : MemBusError)
  /-- The failure of another message behind it. -/
  | innerNet (err : NetworkError)
  deriving DecidableEq

inductive DmaBusError where
  | reqAsResp
  | respAsReq
  /-- The failure of the access behind the transfer. -/
  | inner (err : MemBusError)
  /-- The failure of the message behind the transfer. -/
  | innerNet (err : NetworkError)
  deriving DecidableEq

/-- A transfer from one address to another, over addresses of type `T`. -/
structure DmaBus (T : Type) where
  mode : Mode DmaBusError := .request
  readFrom : T
  writeTo : T
  pattern : Pattern
  trace : History := []
  deriving DecidableEq

namespace DmaBus

variable {T : Type}

def new (readFrom writeTo : T) (pattern : Pattern) : DmaBus T := { readFrom, writeTo, pattern }

def setMode (self : DmaBus T) (mode : Mode DmaBusError) : DmaBus T := { self with mode }

instance : TxStatus (DmaBus T) DmaBusError where
  txCheck self := match self.mode with
    | .response => .error .respAsReq
    | .request => .ok ()
    | .error err => .error err

instance : RxStatus (DmaBus T) DmaBusError where
  rxCheck self := match self.mode with
    | .request => .error .reqAsResp
    | .response => .ok ()
    | .error err => .error err

end DmaBus

end Ra2m
