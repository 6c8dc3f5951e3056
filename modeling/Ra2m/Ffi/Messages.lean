/-
What a host and the simulation say to each other (`ra2m_ffi_ipc`, `ra2m_ffi_rpc`).

Both links carry reads and writes of bytes and their acknowledgements, over
addresses and sizes of 64 bits.  The ipc link moves bytes in shared memory, whose
type `Mem` comes from the channel library; the rpc link moves them in the message.
-/
import Mathlib.Algebra.Group.Nat.Defs
import Mathlib.Tactic.Common

namespace Ra2m

/-- The bytes of a slice; no allocation is longer than `isize::MAX`. -/
structure Slice where
  bytes : List UInt8
  fits : bytes.length < 2 ^ 63

namespace Slice

def len (self : Slice) : UInt64 := UInt64.ofNat self.bytes.length

@[simp] theorem len_toNat (self : Slice) : self.len.toNat = self.bytes.length := by
  have hfits := self.fits
  unfold len
  rw [UInt64.toNat_ofNat']
  exact Nat.mod_eq_of_lt (by omega)

end Slice

/-! ### The ipc link -/

inductive IpcError where
  | addrRange (addr sizeB rangeLb rangeUb : UInt64)
  /-- The simulation failed. -/
  | ra2m (msg : String)
  /-- The link failed. -/
  | ipc (msg : String)
  deriving DecidableEq, Repr

inductive IpcReq (Mem : Type) where
  | read (addr sizeB : UInt64)
  | write (addr : UInt64) (data : Mem)
  deriving DecidableEq, Repr

inductive IpcAck (Mem : Type) where
  | read (data : Mem)
  | write
  | error (err : IpcError)
  deriving DecidableEq, Repr

/-! ### The rpc link -/

structure ReadRequest where
  addr : UInt64
  size : UInt64

structure WriteRequest where
  addr : UInt64
  data : Slice

inductive Code where
  | invalidArgument
  | internal
  deriving DecidableEq, Repr

structure Status where
  code : Code
  message : String
  deriving DecidableEq, Repr

end Ra2m
