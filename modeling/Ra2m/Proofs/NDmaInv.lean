/-
What the steps of a system of NDma nodes do, and what they keep.

An access of a transfer has the slot of the transfer at the node that was asked for
it, and a second one at the node it visits.  `Sound` says where the access is and
what is on its route stack for that, and `Carrying` what its transfer has behind it.
The slots of each node are a `SlotPool`; its rules are applied at the one node a step
changes, the other pools have the same slots in use as before.
-/
import Ra2m.Cpn.NDmaNet
import Ra2m.Lib.Runs
import Ra2m.Lib.SlotPool
import Ra2m.Proofs.DmaTransfer
import Ra2m.Proofs.NDmaError

namespace Ra2m

open Runs

/-- The access has left `nodeId` for `dst`: for the node's own memory, or over the network. -/
def Place.Towards {T : Type} (nodeId dst : T) : Place T → Prop
  | mem n pkt => n = nodeId ∧ dst = nodeId ∧ pkt.sid = none
  | netReq pkt => dst ≠ nodeId ∧ pkt.payload.fromNode = nodeId ∧ pkt.payload.toNode = dst ∧
      pkt.sid = none
  | _ => False

namespace NetFlight

variable {T : Type}

/-- The node the access is made at. -/
def target (f : NetFlight T) : T :=
  if f.place.payload.cmd = .read then f.dma.payload.readFrom.1 else f.dma.payload.writeTo.1

/-- The node whose memory is asked, once the access is there. -/
def server (f : NetFlight T) : T :=
  match f.visit with
  | some (n, _) => n
  | none => f.own

/-- The packet an access is, where it is. -/
def Located (f : NetFlight T) : Prop :=
  match f.place with
  | .mem n pkt => f.server = n ∧ f.target = n ∧ pkt.sid = none ∧ pkt.payload.mode = .request
  | .memResp n pkt => f.server = n ∧ pkt.sid = none ∧ pkt.payload.mode ≠ .request
  | .netReq msg => f.visit = none ∧ msg.payload.fromNode = f.own ∧ msg.payload.toNode = f.target ∧
      msg.sid = none ∧ msg.payload.payload.mode = .request
  | .netResp msg => f.visit = none ∧ msg.payload.fromNode = f.own ∧
      msg.payload.mode = .response ∧ msg.sid = none ∧ msg.payload.payload.mode = .response

end NetFlight

namespace NDmaNet

section

variable {T : Type}

/-- The transfer's read was served, and `data` is what it found. -/
def HasRead (made : List (RamAccess T)) (dma : DmaBus (T × Addr)) (data : List UInt8) : Prop :=
  ∃ p d, dma.readFrom.2.phys? = some p ∧ dma.pattern = .simple d ∧
    RamAccess.Fetched made (dma.readFrom.1, p) d data

/-- The transfer's read and write were served, nothing else was done for it, and the write put at
the destination, in the memory of its node, the bytes the read found at the source. -/
def Transferred (made : List (RamAccess T)) (dma : DmaBus (T × Addr)) : Prop :=
  ∃ p q d, dma.readFrom.2.phys? = some p ∧ dma.writeTo.2.phys? = some q ∧ dma.pattern = .simple d ∧
    RamAccess.Copied made (dma.readFrom.1, p) (dma.writeTo.1, q) d

/-- What an access has behind it. -/
inductive Carrying (made : List (RamAccess T)) (dma : DmaBus (T × Addr)) (pld : MemBus) : Prop where
  | reading (hmode : pld.mode = .request) (hcmd : pld.cmd = .read) (hdata : pld.data = [])
      (hmade : made = []) (hsub : ∀ p, pld.subrangeAddr = .phys p → dma.readFrom.2.phys? = some p)
  | read (hmode : pld.mode = .response) (hcmd : pld.cmd = .read) (hread : HasRead made dma pld.data)
  | writing (hmode : pld.mode = .request) (hcmd : pld.cmd = .write)
      (hread : HasRead made dma pld.data)
      (hsub : ∀ q, pld.subrangeAddr = .phys q → dma.writeTo.2.phys? = some q)
  | written (hmode : pld.mode = .response) (hcmd : pld.cmd = .write) (hdone : Transferred made dma)
  | failed (e : MemBusError) (hmode : pld.mode = .error e)

/-- The handlers an access has met and its route stack say nothing about its transfer. -/
theorem Carrying.congr {made : List (RamAccess T)} {dma : DmaBus (T × Addr)} {pld : MemBus}
    (h : Carrying made dma pld) (trace : History) (stack : List Nat) :
    Carrying made dma { pld with trace, xbarPort := stack } := by
  cases h with
  | reading hmode hcmd hdata hmade hsub => exact .reading hmode hcmd hdata hmade hsub
  | read hmode hcmd hread => exact .read hmode hcmd hread
  | writing hmode hcmd hread hsub => exact .writing hmode hcmd hread hsub
  | written hmode hcmd hdone => exact .written hmode hcmd hdone
  | failed e hmode => exact .failed e hmode

/-- An access in flight belongs to its transfer. -/
structure Sound (s : NDmaNet T) (f : NetFlight T) : Prop where
  taken : s.taken[f.serial]? = some (f.own, f.dma)
  simple : ∃ d, f.dma.payload.pattern = .simple d
  pattern : f.place.payload.pattern = f.dma.payload.pattern
  stack : f.place.payload.xbarPort = f.stack
  located : f.Located
  carrying : Carrying (s.made f.serial) f.dma.payload f.place.payload

/-- The transfer with this serial ended at node `n` with this packet: where it was asked for, with
the packet that asked, once the bytes are where they were to go. -/
def Ended (s : NDmaNet T) (serial : Nat) (n : T) (pkt : Packet (DmaBus (T × Addr))) : Prop :=
  ∃ dma, s.taken[serial]? = some (n, dma) ∧
    pkt = dma.setPayload (dma.payload.setMode .response) ∧
    Transferred (s.made serial) dma.payload

theorem Sound.congr {s s' : NDmaNet T} {f : NetFlight T} (h : s.Sound f)
    (htaken : ∀ (k : Nat) e, s.taken[k]? = some e → s'.taken[k]? = some e)
    (hmade : s'.made f.serial = s.made f.serial) : s'.Sound f := by
  refine ⟨htaken _ _ h.taken, h.simple, h.pattern, h.stack, h.located, ?_⟩
  rw [hmade]
  exact h.carrying

theorem Ended.congr {s s' : NDmaNet T} {k : Nat} {n : T} {pkt : Packet (DmaBus (T × Addr))}
    (h : s.Ended k n pkt) (htaken : ∀ (k : Nat) e, s.taken[k]? = some e → s'.taken[k]? = some e)
    (hmade : s'.made k = s.made k) : s'.Ended k n pkt := by
  obtain ⟨dma, hdma, hpkt, htr⟩ := h
  refine ⟨dma, htaken k _ hdma, hpkt, ?_⟩
  rw [hmade]
  exact htr

/-- The packet of a turn that sends an access is on its way. -/
theorem emit_sends {n dst : T} {pld : MemBus} {out : NDma.Out T} (h : out.Sends n dst pld)
    (s : NDmaNet T) (x : NetXfer T) (visit : Option (T × Nat)) (rest : List (NetFlight T)) :
    ∃ place : Place T, s.emit n x visit rest out = { s with flights := ⟨x, visit, place⟩ :: rest } ∧
      place.payload = pld ∧ place.Towards n dst := by
  cases out with
  | mem pkt =>
      obtain ⟨hdst, hpay, hsid⟩ := h
      exact ⟨.mem n pkt, rfl, hpay, rfl, hdst, hsid⟩
  | netOutbound pkt =>
      obtain ⟨hdst, hfrom, hto, hpay, hsid⟩ := h
      exact ⟨.netReq pkt, rfl, hpay, hdst, hfrom, hto, hsid⟩
  | inbound pkt => exact absurd h id
  | netInbound pkt => exact absurd h id

end

variable {T : Type} [DecidableEq T] {cap : T → Nat} {s s' : NDmaNet T}

/-- The slots of a node. -/
def Pool (cap : T → Nat) (s : NDmaNet T) (n : T) : Prop :=
  SlotPool.Ok .none (cap n) (s.node n).inner.availId (s.node n).held (s.node n).inner.pktStore
    (s.busy n)

structure Inv (cap : T → Nat) (s : NDmaNet T) : Prop where
  pool : ∀ n, s.Pool cap n
  serials : (s.flights.map (fun f => f.serial) ++ s.answered.map Prod.fst).Perm
    (List.range s.taken.length)
  flight : ∀ f ∈ s.flights, s.Sound f
  ended : ∀ e ∈ s.answered, s.Ended e.1 e.2.1 e.2.2
  unborn : ∀ k, s.taken.length ≤ k → s.made k = []

theorem Inv.init (cap : T → Nat) (ram : T → NpRam) : Inv cap (NDmaNet.init cap ram) := by
  refine ⟨fun n => SlotPool.Ok.init NDmaSlot.none (cap n), List.Perm.refl _, ?_, ?_, fun _ _ => rfl⟩
  · exact fun f hf => by cases hf
  · exact fun e he => by cases he

/-- Two accesses in flight are for different transfers. -/
theorem Inv.serial_ne (h : Inv cap s) {f : NetFlight T} {rest : List (NetFlight T)}
    (hsplit : s.flights.Perm (f :: rest)) : ∀ g ∈ rest, g.serial ≠ f.serial := by
  have hnodup := (List.nodup_append.mp (h.serials.nodup_iff.mpr List.nodup_range)).1
  rw [(hsplit.map _).nodup_iff, List.map_cons, List.nodup_cons] at hnodup
  intro g hg heq
  exact hnodup.1 (heq ▸ List.mem_map_of_mem hg)

/-- A transfer in flight has not ended. -/
theorem Inv.answered_ne (h : Inv cap s) {f : NetFlight T} (hf : f ∈ s.flights) :
    ∀ e ∈ s.answered, e.1 ≠ f.serial := by
  have hnodup := h.serials.nodup_iff.mpr List.nodup_range
  intro e he heq
  exact (List.nodup_append.mp hnodup).2.2 f.serial (List.mem_map_of_mem hf) e.1
    (List.mem_map_of_mem he) heq.symm

theorem Inv.serial_lt (h : Inv cap s) {f : NetFlight T} (hf : f ∈ s.flights) :
    f.serial < s.taken.length :=
  (List.getElem?_eq_some_iff.mp (h.flight f hf).taken).1

/-! ### The slots of the nodes -/

theorem busy_perm {f : NetFlight T} {rest : List (NetFlight T)}
    (hsplit : s.flights.Perm (f :: rest)) (n : T) :
    (s.busy n).Perm (f.slots n ++ rest.flatMap fun g => g.slots n) := by
  unfold busy
  refine (hsplit.flatMap_right _).trans (List.Perm.of_eq ?_)
  rw [List.flatMap_cons]

theorem busy_cons {f : NetFlight T} {rest : List (NetFlight T)} (h : s.flights = f :: rest)
    (n : T) : s.busy n = f.slots n ++ rest.flatMap fun g => g.slots n := by
  unfold busy
  rw [h, List.flatMap_cons]

/-- A step changes the slots of one node. -/
theorem Pool.update {m : T} {node : NetNode T} (h : ∀ n, s.Pool cap n)
    (hnode : s'.node = Function.update s.node m node)
    (hm : SlotPool.Ok .none (cap m) node.inner.availId node.held node.inner.pktStore (s'.busy m))
    (hbusy : ∀ n, n ≠ m → (s.busy n).Perm (s'.busy n)) : ∀ n, s'.Pool cap n := by
  intro n
  unfold Pool
  rw [hnode]
  by_cases hn : n = m
  · rw [hn, Function.update_self]
    exact hm
  · rw [Function.update_of_ne hn]
    exact (h n).congr (List.Perm.refl _) (hbusy n hn)

/-- No slot changes. -/
theorem Pool.same (h : ∀ n, s.Pool cap n) (hnode : s'.node = s.node)
    (hbusy : ∀ n, (s.busy n).Perm (s'.busy n)) : ∀ n, s'.Pool cap n := by
  intro n
  unfold Pool
  rw [hnode]
  exact (h n).congr (List.Perm.refl _) (hbusy n)

/-- The slot of a transfer in flight holds the transfer. -/
theorem Inv.stored_own (h : Inv cap s) {f : NetFlight T} (hf : f ∈ s.flights) :
    (s.node f.own).inner.pktStore[f.token]? = some (.dma f.dma) := by
  refine (h.pool f.own).inUse (f.token, .dma f.dma) ?_
  refine List.mem_flatMap.mpr ⟨f, hf, ?_⟩
  unfold NetFlight.slots NetXfer.slots
  rw [if_pos rfl]
  exact List.mem_append_left _ List.mem_cons_self

/-- The slot of an access at the node it visits holds where the access is from. -/
theorem Inv.stored_visit (h : Inv cap s) {f : NetFlight T} {n : T} {token : Nat}
    (hf : f ∈ s.flights) (hvisit : f.visit = some (n, token)) :
    (s.node n).inner.pktStore[token]? = some (.net f.own n) := by
  refine (h.pool n).inUse (token, .net f.own n) ?_
  refine List.mem_flatMap.mpr ⟨f, hf, ?_⟩
  unfold NetFlight.slots NetXfer.slots
  simp only [hvisit, if_true]
  exact List.mem_append_right _ List.mem_cons_self

/-- The slot a layer has in hand is a slot of the store. -/
theorem Inv.held_lt (h : Inv cap s) {n : T} {token : Nat} (ht : token ∈ (s.node n).held) :
    token < (s.node n).inner.pktStore.length := by
  rw [(h.pool n).length]
  exact (h.pool n).lt_of_mem (List.mem_append_left _ (List.mem_append_right _ ht))

end NDmaNet

/-! ### What a step can do -/

/-- The access of the action has been answered, and a layer of the node handles the answer. -/
def NetAct.handles {T : Type} : NetAct T → Option Nat
  | memLayer i _ _ => some i
  | egressLayer i _ _ _ => some i
  | _ => none

/-- The answer of the access is on its way to a layer of the node. -/
def NetFlight.AnswerAt {T : Type} (f : NetFlight T) (n : T) : Prop :=
  match f.place with
  | .memResp m _ => m = n
  | .netResp msg => msg.payload.fromNode = n
  | _ => False

/-- The slot is empty and free again. -/
def NetNode.freed {T : Type} (self : NetNode T) (token : Nat) : NetNode T :=
  { self with inner := ⟨self.inner.availId ++ [token], self.inner.pktStore.set token .none⟩ }

namespace NDmaNet

variable {T : Type} [DecidableEq T] {cap : T → Nat} {uid : T → Nat} {s s' : NDmaNet T}

/-- What a step does to slots and accesses. -/
inductive Change (s : NDmaNet T) (a : NetAct T) (s' : NDmaNet T) : Prop where
  | reserved (n : T) (token : Nat) (avail : List Nat) (ha : a = .reserve n)
      (hreq : (s.node n).request = none) (havail : (s.node n).inner.availId = avail ++ [token])
      (hs : s' = { s with
        node := Function.update s.node n { s.node n with
          inner := ⟨avail, (s.node n).inner.pktStore⟩, request := some token } })
  | ingressReserved (n : T) (token : Nat) (avail : List Nat) (ha : a = .reserveIngress n)
      (hing : (s.node n).ingress = none) (havail : (s.node n).inner.availId = avail ++ [token])
      (hs : s' = { s with
        node := Function.update s.node n { s.node n with
          inner := ⟨avail, (s.node n).inner.pktStore⟩, ingress := some token } })
  | started (n : T) (t : Timing) (pktUid token fromUid : Nat) (dma : Packet (DmaBus (T × Addr)))
      (place : Place T) (ha : a = .request n t pktUid dma)
      (hreq : (s.node n).request = some token) (hpat : ∃ d, dma.payload.pattern = .simple d)
      (hpay : place.payload = (MemBus.new t.now fromUid .read dma.payload.readFrom.2
        dma.payload.pattern none).pushPort token)
      (hto : place.Towards n dma.payload.readFrom.1)
      (hs : s' = { s with
        node := Function.update s.node n { s.node n with
          inner := ⟨(s.node n).inner.availId, (s.node n).inner.pktStore.set token (.dma dma)⟩
          request := none }
        flights := ⟨⟨s.taken.length, n, token, dma⟩, none, place⟩ :: s.flights
        taken := s.taken ++ [(n, dma)] })
  | served (i : Nat) (t : Timing) (n : T) (f : NetFlight T) (ram : NpRam) (ha : a = .serve i t)
      (hans : s.answer i t = some (n, f, ram))
      (hs : s' = { s with
        flights := f :: s.flights.eraseIdx i
        ram := Function.update s.ram n ram
        accesses := s.accesses ++
          [⟨f.serial, n, f.place.payload.cmd, (s.ram n).memory, ram.memory⟩] })
  | refused (i : Nat) (err : MemBusError) (x : NetXfer T) (visit : Option (T × Nat)) (n : T)
      (pkt : Packet MemBus) (ha : a = .refuse i err)
      (hf : s.flights[i]? = some ⟨x, visit, .mem n pkt⟩)
      (hs : s' = { s with
        flights := ⟨x, visit, .memResp n (pkt.setPayload (pkt.payload.setMode (.error err)))⟩ ::
          s.flights.eraseIdx i })
  | other (n : T) (t : Timing) (req : MemBus) (ram : T → NpRam) (ha : a = .other n t req)
      (hs : s' = { s with ram })
  | written (i : Nat) (f : NetFlight T) (place : Place T) (ha : a.handles = some i)
      (hf : s.flights[i]? = some f) (hvisit : f.visit = none) (hback : f.AnswerAt f.own)
      (hmode : f.place.payload.mode = .response) (hcmd : f.place.payload.cmd = .read)
      (hpay : place.payload = NDma.forgeWrite f.dma.payload.writeTo.2 f.token
        { f.place.payload with xbarPort := [] })
      (hto : place.Towards f.own f.dma.payload.writeTo.1)
      (hs : s' = { s with flights := ⟨f.toNetXfer, none, place⟩ :: s.flights.eraseIdx i })
  | finished (i : Nat) (f : NetFlight T) (ha : a.handles = some i) (hf : s.flights[i]? = some f)
      (hvisit : f.visit = none) (hback : f.AnswerAt f.own)
      (hmode : f.place.payload.mode = .response) (hcmd : f.place.payload.cmd = .write)
      (hs : s' = { s with
        node := Function.update s.node f.own ((s.node f.own).freed f.token)
        flights := s.flights.eraseIdx i
        answered := s.answered ++
          [(f.serial, f.own, f.dma.setPayload (f.dma.payload.setMode .response))] })
  | returned (i : Nat) (f : NetFlight T) (n : T) (token : Nat)
      (msg : Packet (Network T MemBus)) (ha : a.handles = some i) (hf : s.flights[i]? = some f)
      (hvisit : f.visit = some (n, token)) (hback : f.AnswerAt n)
      (hmode : f.place.payload.mode = .response) (hresp : msg.payload.mode = .response)
      (hown : msg.payload.fromNode = f.own)
      (hpay : msg.payload.payload = { f.place.payload with xbarPort := [f.token] })
      (hsid : msg.sid = none)
      (hs : s' = { s with
        node := Function.update s.node n ((s.node n).freed token)
        flights := ⟨f.toNetXfer, none, .netResp msg⟩ :: s.flights.eraseIdx i })
  | admitted (i : Nat) (t : Timing) (pktUid : Nat) (f : NetFlight T)
      (msg pkt' : Packet (Network T MemBus)) (n : T) (token : Nat) (pkt : Packet MemBus)
      (ha : a = .ingressLayer i t pktUid pkt')
      (hf : s.flights[i]? = some f) (hplace : f.place = .netReq msg) (hn : msg.payload.toNode = n)
      (hing : (s.node n).ingress = some token)
      (hpay : ∃ h, pkt.payload = (msg.payload.payload.pushTrace h).pushPort token)
      (hsid : pkt.sid = none)
      (hs : s' = { s with
        node := Function.update s.node n { s.node n with
          inner := ⟨(s.node n).inner.availId, (s.node n).inner.pktStore.set token (.net f.own n)⟩
          ingress := none }
        flights := ⟨f.toNetXfer, some (n, token), .mem n pkt⟩ :: s.flights.eraseIdx i })
  | panicked (i : Nat) (f : NetFlight T) (e : MemBusError) (p : Panic) (ha : a.handles = some i)
      (hf : s.flights[i]? = some f) (hmode : f.place.payload.mode = .error e)
      (hs : s' = { s with panic := some p })

theorem change_reserve {n : T} (hs : s.act uid (.reserve n) = some s') :
    Change s (.reserve n) s' := by
  simp only [act] at hs
  split at hs
  · rename_i token inner hreq hslot
    obtain rfl := Option.some.inj hs
    obtain ⟨havail, hinner⟩ := NDma.waitSlot_eq_some hslot
    refine .reserved n token inner.availId rfl hreq havail ?_
    rw [← hinner]
  · cases hs

theorem change_reserveIngress {n : T} (hs : s.act uid (.reserveIngress n) = some s') :
    Change s (.reserveIngress n) s' := by
  simp only [act] at hs
  split at hs
  · rename_i token inner hing hslot
    obtain rfl := Option.some.inj hs
    obtain ⟨havail, hinner⟩ := NDma.waitSlot_eq_some hslot
    refine .ingressReserved n token inner.availId rfl hing havail ?_
    rw [← hinner]
  · cases hs

theorem Inv.change_request (h : Inv cap s) {n : T} {t : Timing} {pktUid : Nat}
    {dma : Packet (DmaBus (T × Addr))} (hs : s.act uid (.request n t pktUid dma) = some s') :
    Change s (.request n t pktUid dma) s' := by
  simp only [act] at hs
  split at hs
  · rename_i token d hreq hpat
    obtain rfl := Option.some.inj hs
    have hlt : token < (s.node n).inner.pktStore.length := by
      refine h.held_lt ?_
      unfold NetNode.held
      rw [hreq]
      exact List.mem_cons_self
    obtain ⟨out, hout, hsends⟩ := NDma.dmaToInnerReq_eq t (uid n) pktUid n dma hlt
    rw [hout]
    obtain ⟨place, hemit, hpay, hto⟩ := emit_sends hsends
      { s with
        node := Function.update s.node n { s.node n with
          inner := ⟨(s.node n).inner.availId, (s.node n).inner.pktStore.set token (.dma dma)⟩
          request := none }
        taken := s.taken ++ [(n, dma)] } ⟨s.taken.length, n, token, dma⟩ none s.flights
    exact .started n t pktUid token (uid n) dma place rfl hreq ⟨d, hpat⟩ hpay hto hemit
  · cases hs

/-- A layer handles the answer of an access of its node's own transfer. -/
theorem Inv.change_own (h : Inv cap s) {a : NetAct T} {i : Nat} {f : NetFlight T} {t : Timing}
    {pktUid : Nat} {pkt : Packet MemBus} (ha : a.handles = some i) (hf : s.flights[i]? = some f)
    (hvisit : f.visit = none) (hback : f.AnswerAt f.own) (hpay : pkt.payload = f.place.payload)
    (hsid : pkt.sid = none) (hmode : f.place.payload.mode = .response)
    (hs : s' = s.turn f.own (s.node f.own) f.toNetXfer none (s.flights.eraseIdx i)
      (NDma.forwardResp t pktUid f.own (s.node f.own).inner pkt)) : Change s a s' := by
  have hmem := List.mem_of_getElem? hf
  have hsound := h.flight f hmem
  have hslot := h.stored_own hmem
  have htop : pkt.payload.xbarPort = [] ++ [f.token] := by
    rw [hpay, hsound.stack]
    unfold NetFlight.stack
    rw [hvisit]
    rfl
  have hwrite : f.place.payload.cmd = .write → Change s a s' := by
    intro hcmd
    rw [NDma.forwardResp_write htop hslot (hpay ▸ hcmd)] at hs
    exact .finished i f ha hf hvisit hback hmode hcmd hs
  cases hsound.carrying with
  | read _ hcmd hread =>
      obtain ⟨p, d, -, hpat, -⟩ := hread
      have hpat' : pkt.payload.pattern = .simple d := by rw [hpay, hsound.pattern, hpat]
      obtain ⟨out, hout, hsends⟩ := NDma.forwardResp_read htop t pktUid f.own hslot
        (hpay ▸ hcmd) hpat' hsid
      rw [hout] at hs
      obtain ⟨place, hemit, hpld, hto⟩ := emit_sends hsends
        { s with node := Function.update s.node f.own { s.node f.own with
          inner := (s.node f.own).inner } } f.toNetXfer none (s.flights.eraseIdx i)
      rw [hpay] at hpld
      refine .written i f place ha hf hvisit hback hmode hcmd hpld hto ?_
      rw [hs]
      refine hemit.trans ?_
      rw [show ({ s.node f.own with inner := (s.node f.own).inner } : NetNode T) = s.node f.own
        from rfl, Function.update_eq_self]
  | written _ hcmd => exact hwrite hcmd
  | reading hm => rw [hmode] at hm; cases hm
  | writing hm => rw [hmode] at hm; cases hm
  | failed e hm => rw [hmode] at hm; cases hm

theorem Inv.change_memLayer (h : Inv cap s) {i : Nat} {t : Timing} {pktUid : Nat}
    (hs : s.act uid (.memLayer i t pktUid) = some s') : Change s (.memLayer i t pktUid) s' := by
  simp only [act] at hs
  split at hs
  · rename_i x visit n pkt hf
    obtain rfl := Option.some.inj hs
    have hmem := List.mem_of_getElem? hf
    have hsound := h.flight _ hmem
    obtain ⟨hserver, hsid, hne⟩ := hsound.located
    cases hmode : pkt.payload.mode with
    | request => exact absurd hmode hne
    | error e =>
        rw [NDma.memLayer_error hmode]
        exact .panicked i _ e _ rfl hf hmode rfl
    | response =>
        rw [NDma.memLayer_response hmode hsid]
        cases visit with
        | none =>
            obtain rfl : x.own = n := hserver
            exact h.change_own rfl hf rfl rfl rfl hsid hmode rfl
        | some v =>
            obtain ⟨m, token⟩ := v
            obtain rfl : m = n := hserver
            have htop : pkt.payload.xbarPort = [x.token] ++ [token] := hsound.stack
            obtain ⟨msg, hmsg, hresp, hown, hpay, hsid'⟩ := NDma.forwardResp_net htop t
              pktUid m (h.stored_visit hmem rfl) hsid
            rw [hmsg]
            exact .returned i _ m token msg rfl hf rfl rfl hmode hresp hown hpay hsid' rfl
  · cases hs

theorem Inv.change_egressLayer (h : Inv cap s) {i : Nat} {t : Timing} {pktUid : Nat}
    {pkt : Packet (Network T MemBus)} (hs : s.act uid (.egressLayer i t pktUid pkt) = some s') :
    Change s (.egressLayer i t pktUid pkt) s' := by
  simp only [act] at hs
  split at hs
  · rename_i x visit msg hf
    split at hs
    · rename_i hcarried
      obtain rfl := Option.some.inj hs
      obtain ⟨hmode, -, -, hpay, hsid⟩ := hcarried
      obtain ⟨hvisit, hown, hresp, hnone, hmode'⟩ := (h.flight _ (List.mem_of_getElem? hf)).located
      rw [NDma.egressLayer_response (hmode.trans hresp) (hsid.trans hnone)]
      obtain rfl : visit = none := hvisit
      have hfrom : msg.payload.fromNode = x.own := hown
      rw [hfrom]
      exact h.change_own rfl hf rfl hfrom hpay (hsid.trans hnone) hmode' rfl
    · cases hs
  · cases hs

theorem Inv.change_ingressLayer (h : Inv cap s) {i : Nat} {t : Timing} {pktUid : Nat}
    {pkt : Packet (Network T MemBus)} (hs : s.act uid (.ingressLayer i t pktUid pkt) = some s') :
    Change s (.ingressLayer i t pktUid pkt) s' := by
  simp only [act] at hs
  split at hs
  · rename_i x visit msg hf
    split at hs
    · cases hs
    rename_i token hing
    split at hs
    · rename_i hcarried
      obtain rfl := Option.some.inj hs
      obtain ⟨-, hfrom, hto, hpay, hsid⟩ := hcarried
      obtain ⟨hvisit, hown, -, hnone, hmode⟩ := (h.flight _ (List.mem_of_getElem? hf)).located
      have hlt : token < (s.node msg.payload.toNode).inner.pktStore.length := by
        refine h.held_lt ?_
        unfold NetNode.held
        rw [hing]
        exact List.mem_append_right _ List.mem_cons_self
      obtain ⟨out, hout, hpld, hsid'⟩ := NDma.ingressLayer_eq t
        (uid msg.payload.toNode) pktUid hlt (hpay.symm ▸ hmode)
      rw [hout, hfrom, hto]
      rw [hpay] at hpld
      have hown : msg.payload.fromNode = x.own := hown
      rw [hown]
      exact .admitted i t pktUid _ msg pkt msg.payload.toNode token out rfl hf rfl rfl hing
        ⟨_, hpld⟩ (hsid'.trans (hsid.trans hnone)) rfl
    · cases hs
  · cases hs

/-- A step from a state that keeps the invariant does one of these things. -/
theorem Inv.change (h : Inv cap s) {a : NetAct T} (hs : step uid s a = some s') :
    Change s a s' := by
  unfold step at hs
  split at hs
  · cases hs
  cases a with
  | reserve n => exact change_reserve hs
  | reserveIngress n => exact change_reserveIngress hs
  | request n t pktUid dma => exact h.change_request hs
  | serve i t =>
      simp only [act] at hs
      split at hs
      · rename_i n f ram hans
        exact .served i t n f ram rfl hans (Option.some.inj hs).symm
      · cases hs
  | refuse i err =>
      simp only [act] at hs
      split at hs
      · rename_i x visit n pkt hf
        exact .refused i err x visit n pkt rfl hf (Option.some.inj hs).symm
      · cases hs
  | other n t req =>
      simp only [act] at hs
      split at hs
      · cases hs
      · exact .other n t req _ rfl (Option.some.inj hs).symm
  | memLayer i t pktUid => exact h.change_memLayer hs
  | ingressLayer i t pktUid pkt => exact h.change_ingressLayer hs
  | egressLayer i t pktUid pkt => exact h.change_egressLayer hs

end NDmaNet

end Ra2m
