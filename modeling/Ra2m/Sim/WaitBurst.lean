/-
A burst of responses, sorted as it comes (`port/half_duplex.rs`, `port/packet.rs`).

Both calls that wait for a burst keep what they have received in a linked list, and walk
a cursor from its front to the place of the next packet.  A middlepoint keeps the packets
as they are, an endpoint each with its status.  `waitPktBurstEp` says what the endpoint's
list comes to; here it is built arrival by arrival.

Packets are compared by uid only.  A uid comes from a global counter of the size of a
`usize`, which wraps around.  Waiting for a delay and the trace entries are left out.
-/
import Mathlib.Algebra.Group.Nat.Defs
import Ra2m.Lib.Cursor
import Ra2m.Sim.Burst

namespace Ra2m

namespace Packet

/-- The uid of the packet made when `k` others were made since the counter stood at `gen`. -/
def uidAt (gen : UInt64) (k : Nat) : Nat := (gen + UInt64.ofNat k).toNat

theorem uidAt_eq (gen : UInt64) (k : Nat) : uidAt gen k = (gen.toNat + k) % 2 ^ 64 := by
  unfold uidAt
  rw [UInt64.toNat_add, UInt64.toNat_ofNat', Nat.add_mod_mod]

end Packet

namespace SlavePort

variable {T ε E : Type}

/-- Wait for `respCnt` packets and keep what is made of each in the order of the keys. -/
def recvBurst (pair : Packet T → E) (key : E → Nat) (respCnt : Nat) (rx : List (Packet T)) :
    Option (List E × List (Packet T)) :=
  if respCnt ≤ rx.length then
    some (Cursor.insertAll key ((rx.take respCnt).map pair) [], rx.drop respCnt)
  else none

def waitPktBurst (respCnt : Nat) (rx : List (Packet T)) :
    Option (List (Packet T) × List (Packet T)) :=
  recvBurst id Packet.uid respCnt rx

variable [RxStatus T ε]

/-- `wait_pkt_burst_ep`, arrival by arrival. -/
def waitPktBurstEpByCursor (respCnt : Nat) (rx : List (Packet T)) :
    Option (List (Packet T × Except (PktFailure ε) Unit) × List (Packet T)) :=
  recvBurst (fun pkt => (pkt, checkStatus pkt)) (fun e => e.1.uid) respCnt rx

end SlavePort

/-! ### What the endpoint's list comes to -/

variable {T ε R : Type}

/-- The cursor inserts a packet before the first one with a larger uid. -/
theorem insertOrdered_eq_insertByUid (e : Packet T × R) (l : List (Packet T × R)) :
    Cursor.insertOrdered (fun x => x.1.uid) e (.front l) = insertByUid e l := by
  rw [Cursor.insertOrdered_front]
  induction l with
  | nil => rfl
  | cons x rest ih => rw [List.orderedInsert_cons, insertByUid, ih]

theorem foldl_insertByUid_eq (arrived l : List (Packet T × R)) :
    arrived.foldl (fun acc e => insertByUid e acc) l =
      Cursor.insertAll (fun x => x.1.uid) arrived l := by
  unfold Cursor.insertAll
  simp only [insertOrdered_eq_insertByUid]

theorem SlavePort.waitPktBurstEp_eq_byCursor [RxStatus T ε] (respCnt : Nat)
    (rx : List (Packet T)) :
    (waitPktBurstEp respCnt rx : Option (List (Packet T × Except (PktFailure ε) Unit) × _)) =
      waitPktBurstEpByCursor respCnt rx := by
  unfold waitPktBurstEp waitPktBurstEpByCursor recvBurst
  rw [← foldl_insertByUid_eq, List.foldl_map]

end Ra2m
