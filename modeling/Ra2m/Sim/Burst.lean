/-
Packets and bursts of packets sent and awaited on a port (`port/half_duplex.rs`,
`port/full_duplex.rs`).

A channel is the list of the packets in it, the next one to receive first.  Waiting
for a lock, for a delay or for room in the channel changes no packet, so a send is
what it puts at the end of the channel; a wait that finds too few packets blocks and
is `none`.  A single request always finds room.  Whether a burst does is a matter of both
sides of the port, which have states of their own where a burst is issued for responses.

Both burst sends take the packets off their vector with `pop`: `popEach` is that
loop, over what is done with each packet.  `waitPktBurstEp` sorts the packets by
uid as they come.
-/
import Ra2m.Sim.Port
import Mathlib.Data.List.Induction

namespace Ra2m

inductive PacketError where
  | untaggedSid (sid : Nat)
  | taggedNoSid
  | uidMismatch (received requested : Nat)
  deriving DecidableEq

/-- What a port call fails with: the status of the payload, or the packet around it. -/
inductive PktFailure (ε : Type) where
  | status (err : ε)
  | packet (err : PacketError)
  deriving DecidableEq

variable {T ε σ : Type}

/-! ### Sending -/

/-- Take the packets of a vector off its end and issue one after another, until one is refused. -/
def popEach (issue : List (Packet T) → Packet T → Except ε (List (Packet T)))
    (tx pkt : List (Packet T)) : Except ε Unit × List (Packet T) :=
  match _h : pkt.getLast? with
  | none => (.ok (), tx)
  | some p =>
      match issue tx p with
      | .error err => (.error err, tx)
      | .ok tx => popEach issue tx pkt.dropLast
termination_by pkt.length
decreasing_by
  rw [List.length_dropLast]
  have := List.length_pos_of_mem (List.mem_of_getLast? _h)
  omega

namespace MasterPort

/-- Check the packet and put it on the channel. -/
def sendPkt [TxStatus T ε] (tx : List (Packet T)) (pkt : Packet T) :
    Except ε (List (Packet T)) :=
  match TxStatus.txCheck pkt.payload with
  | .error err => .error err
  | .ok () => .ok (tx ++ [pkt])

/-- Put the packet on the channel without a check. -/
def fwdPkt (tx : List (Packet T)) (pkt : Packet T) : List (Packet T) := tx ++ [pkt]

def sendPktBurst [TxStatus T ε] (tx pkt : List (Packet T)) : Except ε Unit × List (Packet T) :=
  popEach sendPkt tx pkt

def fwdPktBurst (tx pktBurst : List (Packet T)) : List (Packet T) :=
  (popEach (fun tx pkt => (.ok (fwdPkt tx pkt) : Except Empty _)) tx pktBurst).2

end MasterPort

/-! ### Waiting -/

/-- Insert before the first packet with a larger uid. -/
def insertByUid {R : Type} (e : Packet T × R) : List (Packet T × R) → List (Packet T × R)
  | [] => [e]
  | x :: rest => if e.1.uid < x.1.uid then e :: x :: rest else x :: insertByUid e rest

namespace SlavePort

variable [RxStatus T ε]

/-- Wait for a packet, with the given uid if there is one, at the end of its way. -/
def waitPktEp (uid : Option Nat) (rx : List (Packet T)) :
    Option (Except (PktFailure ε) (Packet T) × List (Packet T)) :=
  match rx with
  | [] => none
  | pkt :: rx =>
      match uid with
      | some u => if pkt.uid = u then some (accept pkt, rx)
          else some (.error (.packet (.uidMismatch pkt.uid u)), rx)
      | none => some (accept pkt, rx)
where
  /-- The status of the payload is looked at first, the session id of the packet last. -/
  accept (pkt : Packet T) : Except (PktFailure ε) (Packet T) :=
    match RxStatus.rxCheck pkt.payload with
    | .error err => .error (.status err)
    | .ok () =>
        match pkt.sid with
        | some sid => .error (.packet (.untaggedSid sid))
        | none => .ok pkt

/-- The status a packet of a burst is returned with. -/
def checkStatus (pkt : Packet T) : Except (PktFailure ε) Unit :=
  match pkt.sid with
  | some sid => .error (.packet (.untaggedSid sid))
  | none =>
      match RxStatus.rxCheck pkt.payload with
      | .error err => .error (.status err)
      | .ok () => .ok ()

/-- Wait for `respCnt` packets and return them with their status, in the order of their uids. -/
def waitPktBurstEp (respCnt : Nat) (rx : List (Packet T)) :
    Option (List (Packet T × Except (PktFailure ε) Unit) × List (Packet T)) :=
  if respCnt ≤ rx.length then
    some ((rx.take respCnt).foldl (fun resp pkt => insertByUid (pkt, checkStatus pkt) resp) [],
      rx.drop respCnt)
  else none

end SlavePort

/-! ### Requests and their responses

`serve` stands for the far side of the port: what it answers to the requests that
reach it, in the order they reach it. -/

namespace ReqRespPort

variable [TxStatus T ε] [RxStatus T ε]

/-- Send a request and wait for its response. -/
def bReqResp (serve : σ → List (Packet T) → Exec (List (Packet T) × σ)) (s : σ) (pkt : Packet T) :
    Exec (Option (Except (PktFailure ε) (Packet T) × σ)) :=
  match MasterPort.sendPkt [] pkt with
  | .error err => .ok (some (.error (.status err), s))
  | .ok tx => do
      let (rx, s) ← serve s tx
      match SlavePort.waitPktEp (some pkt.uid) rx with
      | none => .ok none
      | some (res, _) => .ok (some (res, s))

/-- Issue the requests one after another, each once the one before it is answered. -/
def bReqRespEach (serve : σ → List (Packet T) → Exec (List (Packet T) × σ)) :
    σ → List (Packet T) → Exec (Option (List (Except (PktFailure ε) (Packet T)) × σ))
  | s, [] => .ok (some ([], s))
  | s, pkt :: rest => do
      match ← bReqResp serve s pkt with
      | none => .ok none
      | some (res, s) =>
          match ← bReqRespEach serve s rest with
          | none => .ok none
          | some (ress, s) => .ok (some (res :: ress, s))

end ReqRespPort

/-! ### What the burst sends do -/

section

variable (issue : List (Packet T) → Packet T → Except ε (List (Packet T)))

theorem popEach_nil (tx : List (Packet T)) : popEach issue tx [] = (.ok (), tx) := by
  rw [popEach]
  rfl

theorem popEach_concat (tx rest : List (Packet T)) (p : Packet T) :
    popEach issue tx (rest ++ [p]) =
      match issue tx p with
      | .error err => (.error err, tx)
      | .ok tx => popEach issue tx rest := by
  rw [popEach]
  split
  · rename_i h
    simp at h
  · rename_i q h
    obtain rfl : p = q := by simpa using h
    rw [List.dropLast_concat]

/-- The loop issues the packets of the vector from its last one to its first one. -/
theorem popEach_of_ok (tx vec : List (Packet T))
    (hok : ∀ tx, ∀ p ∈ vec, issue tx p = .ok (tx ++ [p])) :
    popEach issue tx vec = (.ok (), tx ++ vec.reverse) := by
  induction vec using List.reverseRecOn generalizing tx with
  | nil => rw [popEach_nil, List.reverse_nil, List.append_nil]
  | append_singleton rest p ih =>
      rw [popEach_concat, hok tx p (by simp)]
      simp only
      rw [ih _ fun tx q hq => hok tx q (by simp [hq]), List.reverse_append]
      simp

end

theorem MasterPort.sendPkt_of_ok [TxStatus T ε] {pkt : Packet T}
    (h : TxStatus.txCheck pkt.payload = .ok ()) (tx : List (Packet T)) :
    sendPkt tx pkt = .ok (tx ++ [pkt]) := by
  unfold sendPkt
  rw [h]

/-- A checked burst enters the channel from its last packet to its first. -/
theorem MasterPort.sendPktBurst_of_ok [TxStatus T ε] {vec : List (Packet T)}
    (h : ∀ p ∈ vec, TxStatus.txCheck p.payload = .ok ()) (tx : List (Packet T)) :
    sendPktBurst tx vec = (.ok (), tx ++ vec.reverse) :=
  popEach_of_ok _ tx vec fun tx p hp => sendPkt_of_ok (h p hp) tx

theorem MasterPort.fwdPktBurst_eq (tx vec : List (Packet T)) :
    fwdPktBurst tx vec = tx ++ vec.reverse := by
  have hloop := popEach_of_ok (fun tx pkt => (.ok (fwdPkt tx pkt) : Except Empty _)) tx vec
    fun _ _ _ => rfl
  exact congrArg Prod.snd hloop

end Ra2m
