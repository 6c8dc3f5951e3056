/-
A Dma at work: its two layers, the memory side and the requests in between.

`requestLayer` and `forwardLayer` are cut where they await: a layer is somewhere in
its loop, with the slot or the packet it has in hand, and every step takes one of
them to its next await.  The memory side answers an access it has been sent with a
packet of its own choice, as long as it answers that access and hands the route
stack back as it got it.  Packets overtake each other freely on the outbound port.

The event `slot_freed` is what `request_layer` waits for when it runs out of slots.
Nothing in `mem/dma.rs` triggers it; a notification of it can only come from outside.

What an access is done for (`serial`, `token`, `dma`) and the record of what happened
(`taken`, `log`, `answered`) are there to state the results; no step reads them.
-/
import Ra2m.Cpn.Dma

namespace Ra2m

/-- An access on its way, with the transfer it is part of. -/
structure Flight where
  serial : Nat
  token : Nat
  dma : Packet (DmaBus Addr)
  pkt : Packet MemBus

/-- Where `request_layer` is in its loop. -/
inductive RequestStage where
  /-- About to look for a free slot. -/
  | seek
  /-- No slot was free; about to wait for `slot_freed`. -/
  | noSlot
  /-- A slot was free; about to take one. -/
  | hasSlot
  | waiting
  /-- Waiting for a request with a slot in hand. -/
  | holding (token : Nat)
  /-- A request was received, not yet stored. -/
  | received (token serial : Nat) (dma : Packet (DmaBus Addr))
  | sending (f : Flight)

/-- Where `forward_layer` is in its loop. -/
inductive ForwardStage where
  | waiting
  /-- A response was received, not yet handled. -/
  | received (f : Flight)
  | sendingMem (f : Flight)
  | sendingDma (serial : Nat) (pkt : Packet (DmaBus Addr))

namespace RequestStage

def held : RequestStage → List Nat
  | holding token => [token]
  | received token _ _ => [token]
  | _ => []

def fresh : RequestStage → List Nat
  | received _ serial _ => [serial]
  | _ => []

def outgoing : RequestStage → List Flight
  | sending f => [f]
  | _ => []

end RequestStage

namespace ForwardStage

def outgoing : ForwardStage → List Flight
  | sendingMem f => [f]
  | _ => []

def incoming : ForwardStage → List Flight
  | received f => [f]
  | _ => []

def ending : ForwardStage → List (Nat × Packet (DmaBus Addr))
  | sendingDma serial pkt => [(serial, pkt)]
  | _ => []

end ForwardStage

structure DmaRun where
  inner : DmaInner
  request : RequestStage := .seek
  forward : ForwardStage := .waiting
  /-- Accesses sent on the outbound port and not yet answered. -/
  outbound : List Flight := []
  /-- Answers not yet received. -/
  resps : List Flight := []
  /-- A notification of `slot_freed` is on its way to `request_layer`. -/
  notified : Bool := false
  /-- The requests received so far; a transfer's serial is its position. -/
  taken : List (Packet (DmaBus Addr)) := []
  /-- What the memory side answered, with the serial of the transfer. -/
  log : List (Nat × MemBus) := []
  /-- What was put on the inbound port, with the serial of the transfer. -/
  answered : List (Nat × Packet (DmaBus Addr)) := []
  panic : Option Panic := none

/-- The response answers the request and leaves its route stack as it was. -/
def MemBus.Answers (req resp : MemBus) : Prop :=
  resp.mode ≠ .request ∧ resp.cmd = req.cmd ∧ resp.pattern = req.pattern ∧
    resp.xbarPort = req.xbarPort

instance (req resp : MemBus) : Decidable (req.Answers resp) :=
  inferInstanceAs (Decidable (_ ∧ _ ∧ _ ∧ _))

inductive DmaAct where
  | look
  | startWait
  | notify
  | wake
  | takeSlot
  | recv (dma : Packet (DmaBus Addr))
  | store (t : Timing) (pktUid : Nat)
  | send
  /-- The memory side answers the `i`-th access it was sent. -/
  | answer (i : Nat) (resp : Packet MemBus)
  | take (i : Nat)
  | forward (t : Timing)
  | sendMem
  | sendDma

namespace DmaRun

def init (inflightReq : Nat) : DmaRun := { inner := .new inflightReq }

/-- What an action does, for a Dma with the given uid; `none` when the layer or the memory side
concerned is not at that point. -/
def act (uid : Nat) (s : DmaRun) (a : DmaAct) : Option DmaRun :=
  match a with
  | .look =>
      match s.request with
      | .seek =>
          if s.inner.availId.length = 0 then some { s with request := .noSlot }
          else some { s with request := .hasSlot }
      | _ => none
  | .startWait =>
      match s.request with
      | .noSlot => some { s with request := .waiting }
      | _ => none
  | .notify =>
      match s.request with
      | .waiting => some { s with notified := true }
      | _ => none
  | .wake =>
      match s.request with
      | .waiting =>
          if s.notified then some { s with request := .seek, notified := false } else none
      | _ => none
  | .takeSlot =>
      match s.request with
      | .hasSlot =>
          match s.inner.takeToken with
          | none => some { s with panic := some ⟨"Error with slot management"⟩ }
          | some (token, inner) => some { s with inner, request := .holding token }
      | _ => none
  | .recv dma =>
      match s.request with
      | .holding token =>
          -- Requests carry a pattern the Dma serves.
          if dma.payload.pattern = .unset then none
          else some { s with
            request := .received token s.taken.length dma, taken := s.taken ++ [dma] }
      | _ => none
  | .store t pktUid =>
      match s.request with
      | .received token serial dma =>
          match Dma.requestLayer t uid pktUid s.inner token dma with
          | .error p => some { s with panic := some p }
          | .ok (pkt, inner) => some { s with inner, request := .sending ⟨serial, token, dma, pkt⟩ }
      | _ => none
  | .send =>
      match s.request with
      | .sending f =>
          match TxStatus.txCheck f.pkt.payload with
          | .error _ => some { s with panic := some ⟨"Faulty Tx access"⟩ }
          | .ok () => some { s with request := .seek, outbound := s.outbound ++ [f] }
      | _ => none
  | .answer i resp =>
      match s.outbound[i]? with
      | none => none
      | some f =>
          if f.pkt.payload.Answers resp.payload then
            some { s with
              outbound := s.outbound.eraseIdx i, resps := s.resps ++ [{ f with pkt := resp }]
              log := s.log ++ [(f.serial, resp.payload)] }
          else none
  | .take i =>
      match s.forward, s.resps[i]? with
      | .waiting, some f =>
          some { s with forward := .received f, resps := s.resps.eraseIdx i }
      | _, _ => none
  | .forward t =>
      match s.forward with
      | .received f =>
          match Dma.forwardLayer t s.inner f.pkt with
          | .error p => some { s with panic := some p }
          | .ok (.outbound pkt, inner) =>
              some { s with inner, forward := .sendingMem { f with pkt } }
          | .ok (.inbound pkt, inner) => some { s with inner, forward := .sendingDma f.serial pkt }
      | _ => none
  | .sendMem =>
      match s.forward with
      | .sendingMem f =>
          match TxStatus.txCheck f.pkt.payload with
          | .error _ => some { s with panic := some ⟨"Faulty Tx access"⟩ }
          | .ok () => some { s with forward := .waiting, outbound := s.outbound ++ [f] }
      | _ => none
  | .sendDma =>
      match s.forward with
      | .sendingDma serial pkt =>
          some { s with forward := .waiting, answered := s.answered ++ [(serial, pkt)] }
      | _ => none

/-- A panic ends the run. -/
def step (uid : Nat) (s : DmaRun) (a : DmaAct) : Option DmaRun :=
  if s.panic.isSome then none else s.act uid a

theorem step_eq {uid : Nat} {s : DmaRun} {a : DmaAct} (h : s.panic = none) :
    step uid s a = s.act uid a := by
  unfold step
  rw [h]
  rfl

/-! ### Where slots, accesses and transfers are -/

/-- The slot `request_layer` has in hand. -/
def held (s : DmaRun) : List Nat := s.request.held

/-- The transfer that was received and has no access yet. -/
def fresh (s : DmaRun) : List Nat := s.request.fresh

/-- The accesses on their way out. -/
def requests (s : DmaRun) : List Flight := s.request.outgoing ++ s.outbound ++ s.forward.outgoing

/-- The accesses on their way back. -/
def responses (s : DmaRun) : List Flight := s.resps ++ s.forward.incoming

/-- The packets in flight. -/
def flights (s : DmaRun) : List Flight := s.requests ++ s.responses

/-- The transfers that have ended, the one whose answer is about to be put on the port first. -/
def done (s : DmaRun) : List (Nat × Packet (DmaBus Addr)) := s.forward.ending ++ s.answered

/-- What the memory side answered for a transfer: the commands and how they ended. -/
def history (s : DmaRun) (serial : Nat) : List (Command × Mode MemBusError) :=
  (s.log.filter fun e => e.1 = serial).map fun e => (e.2.cmd, e.2.mode)

theorem history_append {s s' : DmaRun} {serial : Nat} {resp : MemBus}
    (h : s'.log = s.log ++ [(serial, resp)]) (k : Nat) :
    s'.history k = s.history k ++ if serial = k then [(resp.cmd, resp.mode)] else [] := by
  unfold history
  rw [h, List.filter_append, List.map_append]
  by_cases hk : serial = k
  · simp [hk]
  · simp [hk]

end DmaRun

end Ra2m
