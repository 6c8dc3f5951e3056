/-
The window a host is given (`ffi_bridge/ipc/h2s_bridge.rs`, `ffi_bridge/rpc/h2s_bridge.rs`,
`protocol/addr.rs`).

A bridge lets a host request through when it starts at or above the start of the
window and ends at or below its end.  Both ends are sums of 64-bit numbers, and in a
release build such a sum wraps; so does the end of an access in `find_port`, which is
looked at again here with the sums as the machine takes them.
-/
import Ra2m.Ffi.Messages
import Ra2m.Sim.Addr

namespace Ra2m

/-- The parameters of a host bridge the checks read: where its window starts and how long it is. -/
structure H2sBridgeParams where
  addrRange : UInt64 × UInt64

namespace H2sBridgeParams

def bridgeLb (self : H2sBridgeParams) : UInt64 := self.addrRange.1

def bridgeUb (self : H2sBridgeParams) : UInt64 := self.bridgeLb + self.addrRange.2

/-- The check the three functions below make of an access. -/
def inRange (self : H2sBridgeParams) (lb size : UInt64) : Bool :=
  decide (self.bridgeLb ≤ lb) && decide (lb + size ≤ self.bridgeUb)

/-- The check of the ipc bridge. -/
def checkRange (self : H2sBridgeParams) (req : IpcReq Slice) : Except IpcError Unit :=
  let (reqLb, sizeB) := match req with
    | .read addr sizeB => (addr, sizeB)
    | .write addr data => (addr, data.len)
  if self.inRange reqLb sizeB then .ok ()
  else .error (.addrRange reqLb sizeB self.bridgeLb self.bridgeUb)

/-- The message of a refused rpc request, after the request's `Debug` text. -/
def errMsg (self : H2sBridgeParams) (req : String) : String :=
  s!"Invalid addr range for {req} expect access within [{self.bridgeLb}:{self.bridgeUb}]"

/-- The check of an rpc read; `debug` is the `Debug` of the generated message type. -/
def checkReadRange (debug : ReadRequest → String) (self : H2sBridgeParams) (req : ReadRequest) :
    Except Status Unit :=
  if self.inRange req.addr req.size then .ok ()
  else .error ⟨.invalidArgument, self.errMsg (debug req)⟩

/-- The check of an rpc write. -/
def checkWriteRange (debug : WriteRequest → String) (self : H2sBridgeParams) (req : WriteRequest) :
    Except Status Unit :=
  if self.inRange req.addr req.data.len then .ok ()
  else .error ⟨.invalidArgument, self.errMsg (debug req)⟩

end H2sBridgeParams

/-- A request as it comes from a host, over one link or the other. -/
inductive HostRequest where
  | ipc (req : IpcReq Slice)
  | rpcRead (req : ReadRequest)
  | rpcWrite (req : WriteRequest)

namespace HostRequest

def addr : HostRequest → UInt64
  | ipc (.read addr _) => addr
  | ipc (.write addr _) => addr
  | rpcRead req => req.addr
  | rpcWrite req => req.addr

def size : HostRequest → UInt64
  | ipc (.read _ sizeB) => sizeB
  | ipc (.write _ data) => data.len
  | rpcRead req => req.size
  | rpcWrite req => req.data.len

/-- The bridge of the request's link lets it through. -/
def Accepted (debugRead : ReadRequest → String) (debugWrite : WriteRequest → String)
    (self : H2sBridgeParams) : HostRequest → Prop
  | ipc req => self.checkRange req = .ok ()
  | rpcRead req => self.checkReadRange debugRead req = .ok ()
  | rpcWrite req => self.checkWriteRange debugWrite req = .ok ()

end HostRequest

/-- The sum of two numbers of 64 bits, as `+` gives it without overflow checks. -/
def wrappingAdd (a b : Nat) : Nat := (a + b) % 2 ^ 64

/-- `find_port` of an access the host chose, without overflow checks. -/
def AddrRangeMap.findPortWrapping (self : AddrRangeMap) (addrOffset size : UInt64) :
    Except AddrRangeError (Nat × Nat) :=
  match self.arMap.lastLE addrOffset.toNat with
  | some (arOfst, (arSize, portId)) =>
      if wrappingAdd arOfst arSize < wrappingAdd addrOffset.toNat size.toNat then
        .error (.crossRange (addrOffset.toNat, size.toNat) self.arMap)
      else .ok (arOfst, portId)
  | none => .error (.unmapped addrOffset.toNat size.toNat)

end Ra2m
