/-
The Dma (`mem/dma.rs`).

A transfer becomes a read and then a write on the memory side.  The Dma keeps the
transfers in flight in `pktStore` and pushes the slot of a transfer on the route
stack of its accesses, the way an XBar pushes a port: the entry it pops off an
answer says which transfer the answer is for.  `requestLayer` and `forwardLayer`
are one turn of the two loops.
-/
import Ra2m.Sim.Port

namespace Ra2m

/-- The free slots and the transfers in flight. -/
structure DmaInner where
  availId : List Nat
  pktStore : List (Option (Packet (DmaBus Addr)))

namespace DmaInner

def new (inflightReq : Nat) : DmaInner := ⟨List.range inflightReq, List.replicate inflightReq none⟩

/-- Take the last free slot; `none` while there is none, which the loop waits out. -/
def takeToken (self : DmaInner) : Option (Nat × DmaInner) :=
  match self.availId.getLast? with
  | none => none
  | some token => some (token, { self with availId := self.availId.dropLast })

/-- Take the transfer out of its slot and free the slot. -/
def release (self : DmaInner) (token : Nat) : Exec (Packet (DmaBus Addr) × DmaInner) :=
  -- `push(None)` and `swap_remove(token)`: the slot is left empty, the length is what it was.
  match (self.pktStore ++ [none])[token]? with
  | none => .error ⟨"swap_remove index out of bounds"⟩
  | some none => .error ⟨"Error in pkt_store management"⟩
  | some (some pkt) =>
      .ok (pkt, ⟨self.availId ++ [token], self.pktStore.set token none⟩)

end DmaInner

namespace Dma

/-- The port a turn of the forward loop puts its packet on. -/
inductive Out where
  | inbound (pkt : Packet (DmaBus Addr))
  | outbound (pkt : Packet MemBus)

def frontendDelay (t : Timing) : Tick := t.frontend

def forwardDelay (t : Timing) (size : Data) : Tick := t.forward + t.transfer size

/-- The read a transfer starts with, in a packet of id `pktUid`, with its slot on the route
stack. -/
def forgeRead (t : Timing) (uid pktUid token : Nat) (dma : DmaBus Addr) : Packet MemBus :=
  let memPkt : Packet MemBus :=
    { uid := pktUid, payload := MemBus.new t.now uid .read dma.readFrom dma.pattern none,
      readyAt := t.now }
  let memPkt := memPkt.appendDelay (frontendDelay t)
  memPkt.setPayload (memPkt.payload.pushPort token)

/-- Store a transfer in the slot that was taken for it and send its read. -/
def requestLayer (t : Timing) (uid pktUid : Nat) (inner : DmaInner) (token : Nat)
    (dmaPkt : Packet (DmaBus Addr)) : Exec (Packet MemBus × DmaInner) :=
  if token < inner.pktStore.length then
    .ok (forgeRead t uid pktUid token dmaPkt.payload,
      { inner with pktStore := inner.pktStore.set token (some dmaPkt) })
  else .error ⟨"index out of bounds"⟩

/-- The write that follows a read, from the read's answer once its entry is popped. -/
def forgeWrite (dma : DmaBus Addr) (token : Nat) (memPld : MemBus) : MemBus :=
  ({ memPld with mode := .request, cmd := .write, addr := dma.writeTo }.updateSubrange).pushPort
    token

/-- Turn the answer of an access into the next access of its transfer, or into the end of the
transfer. -/
def forwardLayer (t : Timing) (inner : DmaInner) (memPkt : Packet MemBus) :
    Exec (Out × DmaInner) :=
  match memPkt.payload.popPort with
  | (none, _) => .error ⟨"Received unmatch MemBus response"⟩
  | (some token, memPld) =>
      match memPld.mode with
      | .response =>
          match memPld.cmd with
          | .read =>
              match inner.pktStore[token]? with
              | some (some dmaPkt) => do
                  let memPld := forgeWrite dmaPkt.payload token memPld
                  let xferSize ← memPld.pattern.len
                  .ok (.outbound ((memPkt.setPayload memPld).appendDelay (forwardDelay t xferSize)),
                    inner)
              | some none => .error ⟨"called `Option::unwrap()` on a `None` value"⟩
              | none => .error ⟨"index out of bounds"⟩
          | .write => do
              let (dmaPkt, inner) ← inner.release token
              .ok (.inbound (dmaPkt.setPayload (dmaPkt.payload.setMode .response)), inner)
          | .addrRange => .error ⟨"Received AddrRange on Dma outbound interface"⟩
      | .error memBusError => do
          let (dmaPkt, inner) ← inner.release token
          .ok (.inbound (dmaPkt.setPayload
            (dmaPkt.payload.setMode (.error (.inner memBusError)))), inner)
      | .request => .error ⟨"Received Request on Dma outbound interface"⟩

/-! ### The entry a Dma pushes -/

@[simp] theorem forgeRead_xbarPort (t : Timing) (uid pktUid token : Nat) (dma : DmaBus Addr) :
    (forgeRead t uid pktUid token dma).payload.xbarPort = [token] := rfl

/-! ### The two layers on a slot that holds a transfer -/

theorem requestLayer_eq {t : Timing} {uid pktUid token : Nat} {inner : DmaInner}
    {dma : Packet (DmaBus Addr)} (h : token < inner.pktStore.length) :
    requestLayer t uid pktUid inner token dma = .ok (forgeRead t uid pktUid token dma.payload,
      { inner with pktStore := inner.pktStore.set token (some dma) }) := by
  unfold requestLayer
  rw [if_pos h]

theorem release_eq {inner : DmaInner} {token : Nat} {dma : Packet (DmaBus Addr)}
    (h : inner.pktStore[token]? = some (some dma)) :
    inner.release token = .ok (dma, ⟨inner.availId ++ [token], inner.pktStore.set token none⟩) := by
  have hlt : token < inner.pktStore.length := (List.getElem?_eq_some_iff.mp h).1
  unfold DmaInner.release
  rw [List.getElem?_append_left hlt, h]

section

variable {t : Timing} {inner : DmaInner} {memPkt : Packet MemBus} {token : Nat}
  {dma : Packet (DmaBus Addr)}

/-- A read that succeeded turns into the write of its transfer. -/
theorem forwardLayer_read (hpop : memPkt.payload.xbarPort = [token])
    (hmode : memPkt.payload.mode = .response) (hcmd : memPkt.payload.cmd = .read)
    (hdma : inner.pktStore[token]? = some (some dma)) (hpat : memPkt.payload.pattern ≠ .unset) :
    ∃ pkt, forwardLayer t inner memPkt = .ok (.outbound pkt, inner) ∧
      pkt.payload = { memPkt.payload with
        mode := .request, cmd := .write, addr := dma.payload.writeTo
        subrangeAddr := ({ memPkt.payload with addr := dma.payload.writeTo } :
          MemBus).updateSubrange.subrangeAddr } := by
  obtain ⟨size, hsize⟩ : ∃ size, memPkt.payload.pattern.len = .ok size := by
    unfold Pattern.len
    split
    · exact ⟨_, rfl⟩
    · exact ⟨_, rfl⟩
    · rename_i hunset
      exact absurd hunset hpat
  refine ⟨(memPkt.setPayload (forgeWrite dma.payload token
    { memPkt.payload with xbarPort := [] })).appendDelay (forwardDelay t size), ?_, ?_⟩
  · unfold forwardLayer MemBus.popPort
    simp only [hpop, List.getLast?_singleton, List.dropLast_singleton, hmode, hcmd, hdma]
    simp only [forgeWrite, MemBus.pushPort, MemBus.updateSubrange, hsize, bind, Except.bind]
  · rw [Packet.appendDelay_payload, Packet.setPayload_payload]
    simp only [forgeWrite, MemBus.pushPort, MemBus.updateSubrange, hpop, List.nil_append]

/-- A write that succeeded ends its transfer and frees the slot. -/
theorem forwardLayer_write (hpop : memPkt.payload.xbarPort = [token])
    (hmode : memPkt.payload.mode = .response) (hcmd : memPkt.payload.cmd = .write)
    (hdma : inner.pktStore[token]? = some (some dma)) :
    forwardLayer t inner memPkt = .ok (.inbound (dma.setPayload (dma.payload.setMode .response)),
      ⟨inner.availId ++ [token], inner.pktStore.set token none⟩) := by
  unfold forwardLayer MemBus.popPort
  simp only [hpop, List.getLast?_singleton, hmode, hcmd, release_eq hdma, bind, Except.bind]

/-- An access that failed ends its transfer with the failure and frees the slot. -/
theorem forwardLayer_error {e : MemBusError} (hpop : memPkt.payload.xbarPort = [token])
    (hmode : memPkt.payload.mode = .error e)
    (hdma : inner.pktStore[token]? = some (some dma)) :
    forwardLayer t inner memPkt =
      .ok (.inbound (dma.setPayload (dma.payload.setMode (.error (.inner e)))),
        ⟨inner.availId ++ [token], inner.pktStore.set token none⟩) := by
  unfold forwardLayer MemBus.popPort
  simp only [hpop, List.getLast?_singleton, hmode, release_eq hdma, bind, Except.bind]

end

/-- The write of a transfer goes out with the stack its read's answer came back with. -/
theorem forwardLayer_outbound {t : Timing} {inner inner' : DmaInner} {memPkt pkt : Packet MemBus}
    (h : forwardLayer t inner memPkt = .ok (.outbound pkt, inner')) :
    pkt.payload.xbarPort = memPkt.payload.xbarPort ∧ pkt.payload.cmd = .write ∧
      inner' = inner := by
  unfold forwardLayer MemBus.popPort at h
  split at h
  · cases h
  · rename_i token memPld hpop
    simp only [Prod.mk.injEq] at hpop
    obtain ⟨htop, rfl⟩ := hpop
    split at h
    · split at h
      · split at h
        · simp only [bind, Except.bind] at h
          split at h
          · cases h
          · simp only [Except.ok.injEq, Prod.mk.injEq, Out.outbound.injEq] at h
            obtain ⟨rfl, rfl⟩ := h
            refine ⟨?_, rfl, rfl⟩
            show memPkt.payload.xbarPort.dropLast ++ [token] = _
            exact List.dropLast_append_getLast? token htop
        · cases h
        · cases h
      · simp only [bind, Except.bind] at h
        split at h
        · cases h
        · cases h
      · cases h
    · simp only [bind, Except.bind] at h
      split at h
      · cases h
      · cases h
    · cases h

end Dma

end Ra2m
