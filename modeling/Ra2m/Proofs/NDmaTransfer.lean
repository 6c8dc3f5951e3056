/-
Transfers between the nodes of a network.

Every change a step can make keeps the invariant: an access gives way to the next one
of its transfer, or to its answer, and the slots it needs are put in use and released
on the way.  As long as no access fails, no node panics, and an answered transfer has
done what it was to do, where it was asked for.
-/
import Ra2m.Proofs.NDmaInv

namespace Ra2m

open Runs

variable {T : Type} [DecidableEq T]

namespace NetXfer

variable (x : NetXfer T)

theorem slots_none (n : T) : x.slots none n = if x.own = n then [(x.token, .dma x.dma)] else [] :=
  List.append_nil _

/-- At the node it visits, an access has one more slot. -/
theorem slots_visit (n : T) (token : Nat) :
    x.slots (some (n, token)) n = x.slots none n ++ [(token, .net x.own n)] := by
  unfold slots
  simp

/-- Its slots elsewhere are those it has when it visits no node. -/
theorem slots_elsewhere {n m : T} (token : Nat) (hm : m ≠ n) :
    x.slots (some (n, token)) m = x.slots none m := by
  unfold slots
  simp [Ne.symm hm]

end NetXfer

theorem NetFlight.slots_eq {f : NetFlight T} {visit : Option (T × Nat)} (h : f.visit = visit)
    (n : T) : f.slots n = f.toNetXfer.slots visit n := by
  unfold slots
  rw [h]

namespace NDmaNet

omit [DecidableEq T] in
/-- Where an access is sent to. -/
theorem located_of_towards {x : NetXfer T} {place : Place T} {dst : T}
    (hto : place.Towards x.own dst) (hmode : place.payload.mode = .request)
    (hdst : (⟨x, none, place⟩ : NetFlight T).target = dst) :
    (⟨x, none, place⟩ : NetFlight T).Located := by
  cases place with
  | mem n pkt =>
      obtain ⟨rfl, rfl, hsid⟩ := hto
      exact ⟨rfl, hdst, hsid, hmode⟩
  | netReq msg =>
      obtain ⟨-, hfrom, hto, hsid⟩ := hto
      exact ⟨rfl, hfrom, hto.trans hdst.symm, hsid, hmode⟩
  | memResp n pkt => exact absurd hto id
  | netResp msg => exact absurd hto id

variable {cap : T → Nat} {uid : T → Nat} {s s' : NDmaNet T}

/-! ### What the changes keep -/

/-- A step that leaves accesses and transfers alone keeps what is true of them. -/
theorem Inv.of_pool (h : Inv cap s) (hpool : ∀ n, s'.Pool cap n) (hflights : s'.flights = s.flights)
    (htaken : s'.taken = s.taken) (hans : s'.answered = s.answered)
    (hacc : s'.accesses = s.accesses) : Inv cap s' := by
  have hmade : ∀ k, s'.made k = s.made k := by
    intro k
    unfold made
    rw [hacc]
  have htaken' : ∀ (k : Nat) e, s.taken[k]? = some e → s'.taken[k]? = some e := by
    rw [htaken]
    exact fun _ _ => id
  refine ⟨hpool, ?_, ?_, ?_, ?_⟩
  · rw [hflights, hans, htaken]
    exact h.serials
  · rw [hflights]
    exact fun f hf => (h.flight f hf).congr htaken' (hmade _)
  · rw [hans]
    exact fun e he => (h.ended e he).congr htaken' (hmade _)
  · intro k hk
    rw [hmade]
    exact h.unborn k (htaken ▸ hk)

/-- An access gives way to the next one of its transfer, or to its answer. -/
theorem Inv.replaced (h : Inv cap s) {f f' : NetFlight T} {rest : List (NetFlight T)}
    (hsplit : s.flights.Perm (f :: rest)) (hsplit' : s'.flights = f' :: rest)
    (hx : f'.toNetXfer = f.toNetXfer) (hpool : ∀ n, s'.Pool cap n) (htaken : s'.taken = s.taken)
    (hans : s'.answered = s.answered) (hmade : ∀ k, k ≠ f.serial → s'.made k = s.made k)
    (hnew : s'.Sound f') : Inv cap s' := by
  have hf : f ∈ s.flights := hsplit.mem_iff.mpr List.mem_cons_self
  have htaken' : ∀ (k : Nat) e, s.taken[k]? = some e → s'.taken[k]? = some e := by
    rw [htaken]
    exact fun _ _ => id
  refine ⟨hpool, ?_, ?_, ?_, ?_⟩
  · rw [hsplit', hans, htaken, List.map_cons, hx]
    exact ((hsplit.map fun g => g.serial).append_right _).symm.trans h.serials
  · intro g hg
    rw [hsplit'] at hg
    rcases List.mem_cons.mp hg with rfl | hg
    · exact hnew
    · exact (h.flight g (hsplit.mem_iff.mpr (List.mem_cons_of_mem _ hg))).congr htaken'
        (hmade _ (h.serial_ne hsplit g hg))
  · rw [hans]
    exact fun e he => (h.ended e he).congr htaken' (hmade _ (h.answered_ne hf e he))
  · intro k hk
    rw [htaken] at hk
    rw [hmade k (fun heq => absurd (h.serial_lt hf) (by omega))]
    exact h.unborn k hk

/-- The slots in use stay what they are when an access keeps its own. -/
theorem busy_replaced {f f' : NetFlight T} {rest : List (NetFlight T)}
    (hsplit : s.flights.Perm (f :: rest)) (hsplit' : s'.flights = f' :: rest) {n : T}
    (hslots : f'.slots n = f.slots n) : (s.busy n).Perm (s'.busy n) := by
  rw [busy_cons hsplit', hslots]
  exact busy_perm hsplit n

/-- A request is received, and its read is on its way. -/
theorem Inv.started (h : Inv cap s) {n : T} {t : Timing} {token fromUid : Nat}
    {dma : Packet (DmaBus (T × Addr))} {place : Place T} (hreq : (s.node n).request = some token)
    (hpat : ∃ d, dma.payload.pattern = .simple d)
    (hpay : place.payload = (MemBus.new t.now fromUid .read dma.payload.readFrom.2
      dma.payload.pattern none).pushPort token)
    (hto : place.Towards n dma.payload.readFrom.1)
    (hs : s' = { s with
      node := Function.update s.node n { s.node n with
        inner := ⟨(s.node n).inner.availId, (s.node n).inner.pktStore.set token (.dma dma)⟩
        request := none }
      flights := ⟨⟨s.taken.length, n, token, dma⟩, none, place⟩ :: s.flights
      taken := s.taken ++ [(n, dma)] }) : Inv cap s' := by
  have hmade : ∀ k, s'.made k = s.made k := by
    rw [hs]
    exact fun _ => rfl
  have htaken : ∀ (k : Nat) e, s.taken[k]? = some e → s'.taken[k]? = some e := by
    intro k e hk
    rw [hs]
    exact (List.getElem?_append_left (List.getElem?_eq_some_iff.mp hk).1).trans hk
  have hbusy : ∀ m, s'.busy m =
      (if n = m then [(token, .dma dma)] else []) ++ s.busy m := by
    intro m
    rw [hs]
    unfold busy
    rw [List.flatMap_cons, NetFlight.slots_eq rfl, NetXfer.slots_none]
  have hpld : place.payload.mode = .request ∧ place.payload.cmd = .read ∧ place.payload.data = [] ∧
      place.payload.pattern = dma.payload.pattern ∧ place.payload.xbarPort = [token] := by
    rw [hpay]
    exact ⟨rfl, rfl, rfl, rfl, rfl⟩
  obtain ⟨hmode, hcmd, hdata, hpattern, hstack⟩ := hpld
  refine ⟨?_, ?_, ?_, ?_, ?_⟩
  · refine Pool.update h.pool (by rw [hs]) ?_ ?_
    · rw [hbusy, if_pos rfl]
      have hpool := h.pool n
      unfold Pool NetNode.held at hpool
      rw [hreq] at hpool
      exact hpool.put (.dma dma)
    · intro m hm
      rw [hbusy, if_neg (Ne.symm hm), List.nil_append]
  · rw [hs]
    simp only [List.map_cons, List.length_append, List.length_singleton, List.range_succ,
      List.cons_append]
    exact (h.serials.cons s.taken.length).trans (List.perm_append_singleton _ _).symm
  · intro f hf
    rw [hs] at hf
    rcases List.mem_cons.mp hf with rfl | hf
    · refine ⟨?_, hpat, hpattern, hstack, ?_, ?_⟩
      · rw [hs]
        simp
      · refine located_of_towards hto hmode ?_
        unfold NetFlight.target
        rw [if_pos hcmd]
      · refine .reading hmode hcmd hdata ?_ ?_
        · rw [hmade]
          exact h.unborn _ (le_refl _)
        · intro p hp
          rw [hpay] at hp
          exact (MemBus.updateSubrange_eq_phys_iff
            { cmd := .read, addr := dma.payload.readFrom.2, pattern := dma.payload.pattern }).mp hp
    · exact (h.flight f hf).congr htaken (hmade _)
  · intro e he
    rw [hs] at he
    exact (h.ended e he).congr htaken (hmade _)
  · intro k hk
    rw [hmade]
    refine h.unborn k ?_
    rw [hs] at hk
    simp only [List.length_append] at hk
    omega

/-- A read's answer gives way to the write. -/
theorem Inv.written (h : Inv cap s) {i : Nat} {f : NetFlight T} {place : Place T}
    (hf : s.flights[i]? = some f) (hvisit : f.visit = none)
    (hmode : f.place.payload.mode = .response) (hcmd : f.place.payload.cmd = .read)
    (hpay : place.payload = NDma.forgeWrite f.dma.payload.writeTo.2 f.token
      { f.place.payload with xbarPort := [] })
    (hto : place.Towards f.own f.dma.payload.writeTo.1)
    (hs : s' = { s with flights := ⟨f.toNetXfer, none, place⟩ :: s.flights.eraseIdx i }) :
    Inv cap s' := by
  have hsplit := DmaRun.perm_eraseIdx hf
  have hsplit' : s'.flights = ⟨f.toNetXfer, none, place⟩ :: s.flights.eraseIdx i := by rw [hs]
  have hsound := h.flight f (List.mem_of_getElem? hf)
  have hread : HasRead (s.made f.serial) f.dma.payload f.place.payload.data := by
    cases hsound.carrying with
    | read _ _ hread => exact hread
    | reading hm => rw [hmode] at hm; cases hm
    | writing hm => rw [hmode] at hm; cases hm
    | written _ hc => rw [hcmd] at hc; cases hc
    | failed e hm => rw [hmode] at hm; cases hm
  have hpld : place.payload.mode = .request ∧ place.payload.cmd = .write ∧
      place.payload.data = f.place.payload.data ∧
      place.payload.pattern = f.place.payload.pattern ∧ place.payload.xbarPort = [f.token] := by
    rw [hpay]
    exact ⟨rfl, rfl, rfl, rfl, rfl⟩
  obtain ⟨hmode', hcmd', hdata, hpattern, hstack⟩ := hpld
  refine h.replaced hsplit hsplit' rfl ?_ (by rw [hs]) (by rw [hs]) ?_ ?_
  · exact Pool.same h.pool (by rw [hs]) fun n =>
      busy_replaced hsplit hsplit' (NetFlight.slots_eq hvisit n).symm
  · rw [hs]
    exact fun _ _ => rfl
  · refine ⟨?_, hsound.simple, hpattern.trans hsound.pattern, hstack, ?_, ?_⟩
    · rw [hs]
      exact hsound.taken
    · refine located_of_towards hto hmode' ?_
      unfold NetFlight.target
      rw [if_neg]
      rw [hcmd']
      exact Command.noConfusion
    · rw [hs]
      refine .writing hmode' hcmd' (hdata ▸ hread) ?_
      intro q hq
      rw [hpay] at hq
      exact (MemBus.updateSubrange_eq_phys_iff _).mp hq

/-- The last access of a transfer gives way to the transfer's end, and its slot is free again. -/
theorem Inv.finished (h : Inv cap s) {i : Nat} {f : NetFlight T} (hf : s.flights[i]? = some f)
    (hvisit : f.visit = none) (hmode : f.place.payload.mode = .response)
    (hcmd : f.place.payload.cmd = .write)
    (hs : s' = { s with
      node := Function.update s.node f.own ((s.node f.own).freed f.token)
      flights := s.flights.eraseIdx i
      answered := s.answered ++
        [(f.serial, f.own, f.dma.setPayload (f.dma.payload.setMode .response))] }) :
    Inv cap s' := by
  have hsplit := DmaRun.perm_eraseIdx hf
  have hsound := h.flight f (List.mem_of_getElem? hf)
  have hbusy : ∀ n, (s.busy n).Perm
      ((if f.own = n then [(f.token, .dma f.dma)] else []) ++ s'.busy n) := by
    intro n
    refine (busy_perm hsplit n).trans (List.Perm.of_eq ?_)
    rw [NetFlight.slots_eq hvisit, NetXfer.slots_none, hs]
    rfl
  have hmade : ∀ k, s'.made k = s.made k := by
    rw [hs]
    exact fun _ => rfl
  have htaken : ∀ (k : Nat) e, s.taken[k]? = some e → s'.taken[k]? = some e := by
    rw [hs]
    exact fun _ _ => id
  refine ⟨?_, ?_, ?_, ?_, ?_⟩
  · refine Pool.update h.pool (by rw [hs]) ?_ ?_
    · have hpool := (h.pool f.own).congr (List.Perm.refl _) (hbusy f.own)
      rw [if_pos rfl] at hpool
      exact hpool.release
    · intro n hn
      have hperm := hbusy n
      rw [if_neg (Ne.symm hn)] at hperm
      exact hperm
  · rw [hs]
    simp only [List.map_append, List.map_cons, List.map_nil]
    refine List.Perm.trans ?_ h.serials
    rw [← List.append_assoc]
    refine (List.perm_append_singleton _ _).trans ?_
    exact ((hsplit.map fun g => g.serial).append_right (s.answered.map Prod.fst)).symm
  · intro g hg
    rw [hs] at hg
    exact (h.flight g (hsplit.mem_iff.mpr (List.mem_cons_of_mem _ hg))).congr htaken (hmade _)
  · intro e he
    rw [hs] at he
    rcases List.mem_append.mp he with he | he
    · exact (h.ended e he).congr htaken (hmade _)
    · obtain rfl := List.mem_singleton.mp he
      refine ⟨f.dma, htaken _ _ hsound.taken, rfl, ?_⟩
      rw [hmade]
      cases hsound.carrying with
      | written _ _ hdone => exact hdone
      | reading hm => rw [hmode] at hm; cases hm
      | read _ hc => rw [hcmd] at hc; cases hc
      | writing hm => rw [hmode] at hm; cases hm
      | failed e hm => rw [hmode] at hm; cases hm
  · intro k hk
    rw [hmade]
    rw [hs] at hk
    exact h.unborn k hk

/-- The answer of an access for another node leaves for that node, and its slot is free again. -/
theorem Inv.returned (h : Inv cap s) {i : Nat} {f : NetFlight T} {n : T} {token : Nat}
    {msg : Packet (Network T MemBus)} (hf : s.flights[i]? = some f)
    (hvisit : f.visit = some (n, token)) (hmode : f.place.payload.mode = .response)
    (hresp : msg.payload.mode = .response) (hown : msg.payload.fromNode = f.own)
    (hpay : msg.payload.payload = { f.place.payload with xbarPort := [f.token] })
    (hsid : msg.sid = none)
    (hs : s' = { s with
      node := Function.update s.node n ((s.node n).freed token)
      flights := ⟨f.toNetXfer, none, .netResp msg⟩ :: s.flights.eraseIdx i }) : Inv cap s' := by
  have hsplit := DmaRun.perm_eraseIdx hf
  have hsplit' : s'.flights = ⟨f.toNetXfer, none, .netResp msg⟩ :: s.flights.eraseIdx i := by
    rw [hs]
  have hsound := h.flight f (List.mem_of_getElem? hf)
  refine h.replaced hsplit hsplit' rfl ?_ (by rw [hs]) (by rw [hs]) ?_ ?_
  · refine Pool.update h.pool (by rw [hs]) ?_ ?_
    · have hperm : (s.busy n).Perm ((token, .net f.own n) :: s'.busy n) := by
        refine (busy_perm hsplit n).trans ?_
        rw [busy_cons hsplit', NetFlight.slots_eq hvisit, NetXfer.slots_visit, List.append_assoc]
        exact List.perm_middle
      exact ((h.pool n).congr (List.Perm.refl _) hperm).release
    · intro m hm
      refine busy_replaced hsplit hsplit' ?_
      rw [NetFlight.slots_eq hvisit, NetXfer.slots_elsewhere _ _ hm]
      rfl
  · rw [hs]
    exact fun _ _ => rfl
  · refine ⟨?_, hsound.simple, ?_, ?_, ⟨rfl, hown, hresp, hsid, ?_⟩, ?_⟩
    · rw [hs]
      exact hsound.taken
    · exact (congrArg MemBus.pattern hpay).trans hsound.pattern
    · exact congrArg MemBus.xbarPort hpay
    · exact (congrArg MemBus.mode hpay).trans hmode
    · rw [hs]
      show Carrying _ _ msg.payload.payload
      rw [hpay]
      exact hsound.carrying.congr f.place.payload.trace [f.token]

/-- An access for another node is given a slot and goes to the memory of the node it names. -/
theorem Inv.admitted (h : Inv cap s) {i : Nat} {f : NetFlight T} {msg : Packet (Network T MemBus)}
    {n : T} {token : Nat} {pkt : Packet MemBus} (hf : s.flights[i]? = some f)
    (hplace : f.place = .netReq msg) (hn : msg.payload.toNode = n)
    (hing : (s.node n).ingress = some token)
    (hpay : ∃ h, pkt.payload = (msg.payload.payload.pushTrace h).pushPort token)
    (hsid : pkt.sid = none)
    (hs : s' = { s with
      node := Function.update s.node n { s.node n with
        inner := ⟨(s.node n).inner.availId, (s.node n).inner.pktStore.set token (.net f.own n)⟩
        ingress := none }
      flights := ⟨f.toNetXfer, some (n, token), .mem n pkt⟩ :: s.flights.eraseIdx i }) :
    Inv cap s' := by
  have hsplit := DmaRun.perm_eraseIdx hf
  have hsplit' : s'.flights = ⟨f.toNetXfer, some (n, token), .mem n pkt⟩ ::
      s.flights.eraseIdx i := by rw [hs]
  have hsound := h.flight f (List.mem_of_getElem? hf)
  have hlocated := hsound.located
  unfold NetFlight.Located at hlocated
  rw [hplace] at hlocated
  obtain ⟨hvisit, -, hto, -, hmode⟩ := hlocated
  have hplace' : f.place.payload = msg.payload.payload := congrArg Place.payload hplace
  obtain ⟨handler, hpay⟩ := hpay
  refine h.replaced hsplit hsplit' rfl ?_ (by rw [hs]) (by rw [hs]) ?_ ?_
  · refine Pool.update h.pool (by rw [hs]) ?_ ?_
    · have hpool := h.pool n
      unfold Pool NetNode.held at hpool
      rw [hing] at hpool
      have hput := (hpool.congr (List.Perm.append_left _ (List.perm_append_singleton _ _))
        (List.Perm.refl _)).put (.net f.own n)
      refine hput.congr ?_ ?_
      · simp [NetNode.held]
      · have hbusy := busy_perm hsplit n
        rw [NetFlight.slots_eq hvisit] at hbusy
        rw [busy_cons hsplit', NetFlight.slots_eq rfl, NetXfer.slots_visit, List.append_assoc]
        exact (hbusy.cons _).trans List.perm_middle.symm
    · intro m hm
      refine busy_replaced hsplit hsplit' ?_
      rw [NetFlight.slots_eq hvisit]
      exact NetXfer.slots_elsewhere f.toNetXfer token hm
  · rw [hs]
    exact fun _ _ => rfl
  · refine ⟨?_, hsound.simple, ?_, ?_, ⟨rfl, ?_, hsid, ?_⟩, ?_⟩
    · rw [hs]
      exact hsound.taken
    · refine Eq.trans ?_ hsound.pattern
      rw [hplace']
      show pkt.payload.pattern = _
      rw [hpay]
      rfl
    · have hstack := hsound.stack
      unfold NetFlight.stack at hstack
      rw [hplace', hvisit] at hstack
      refine (congrArg MemBus.xbarPort hpay).trans ?_
      show msg.payload.payload.xbarPort ++ [token] = _
      rw [hstack]
      rfl
    · refine Eq.trans ?_ (hto.symm.trans hn)
      unfold NetFlight.target
      rw [show (Place.mem n pkt).payload.cmd = f.place.payload.cmd by
        rw [hplace']
        show pkt.payload.cmd = _
        rw [hpay]
        rfl]
    · exact (congrArg MemBus.mode hpay).trans hmode
    · rw [hs]
      have hcarry := hsound.carrying.congr (msg.payload.payload.trace ++ [handler])
        (msg.payload.payload.xbarPort ++ [token])
      rw [hplace'] at hcarry
      show Carrying _ _ pkt.payload
      rw [hpay]
      exact hcarry

omit [DecidableEq T] in
/-- What an access carries once its memory has answered it. -/
theorem Carrying.served {made : List (RamAccess T)} {t : Timing} {ram ram' : NpRam}
    {delay : Option Tick} {x : NetXfer T} {visit : Option (T × Nat)} {n : T} {pkt : Packet MemBus}
    {resp : MemBus} (h : Carrying made x.dma.payload pkt.payload)
    (hreq : NpRam.handleRequest t ram pkt.payload = .ok (delay, resp, ram'))
    (hmode : pkt.payload.mode = .request)
    (hpat : pkt.payload.pattern = x.dma.payload.pattern)
    (htarget : (⟨x, visit, .mem n pkt⟩ : NetFlight T).target = n) :
    Carrying (made ++ [⟨x.serial, n, resp.cmd, ram.memory, ram'.memory⟩]) x.dma.payload resp := by
  have hcmd := (NpRam.handleRequest_keeps hreq).2.1
  cases hm : resp.mode with
  | request => exact absurd hm (NpRam.handleRequest_ne_request hreq)
  | error e => exact .failed e hm
  | response =>
      obtain ⟨p, d, hsub, hd, -⟩ := NpRam.handleRequest_response hreq hm
      have hd' : x.dma.payload.pattern = .simple d := hpat ▸ hd
      unfold NetFlight.target at htarget
      cases h with
      | reading _ hc hdata hnone hfrom =>
          obtain rfl : x.dma.payload.readFrom.1 = n := (if_pos hc).symm.trans htarget
          refine .read hm (hcmd.trans hc) ⟨p, d, hfrom p hsub, hd', ?_⟩
          rw [hnone, List.nil_append]
          exact RamAccess.fetched_of_read hreq hm x.serial _ hsub hd hc hdata
      | writing _ hc hread hto =>
          have hne : ¬ (Place.mem n pkt).payload.cmd = .read := by
            show ¬ pkt.payload.cmd = .read
            rw [hc]
            exact Command.noConfusion
          obtain rfl : x.dma.payload.writeTo.1 = n := (if_neg hne).symm.trans htarget
          obtain ⟨q, d', hfrom, hsimple, hfetched⟩ := hread
          obtain rfl : d = d' := Pattern.simple.inj (hd'.symm.trans hsimple)
          refine .written hm (hcmd.trans hc) ⟨q, p, d, hfrom, hto p hsub, hd', ?_⟩
          exact RamAccess.copied_of_write hreq hm x.serial _ hsub hc hfetched
      | read hm' => rw [hmode] at hm'; cases hm'
      | written hm' => rw [hmode] at hm'; cases hm'
      | failed e hm' => rw [hmode] at hm'; cases hm'

/-- An access reaches a memory that answers it. -/
theorem Inv.served (h : Inv cap s) {i : Nat} {t : Timing} {n : T} {f' : NetFlight T} {ram : NpRam}
    (hans : s.answer i t = some (n, f', ram))
    (hs : s' = { s with
      flights := f' :: s.flights.eraseIdx i
      ram := Function.update s.ram n ram
      accesses := s.accesses ++
        [⟨f'.serial, n, f'.place.payload.cmd, (s.ram n).memory, ram.memory⟩] }) : Inv cap s' := by
  unfold answer at hans
  split at hans
  · rename_i x visit m pkt hf
    split at hans
    · cases hans
    rename_i delay resp ram' hreq
    obtain ⟨rfl, hflight, rfl⟩ : m = n ∧ _ ∧ ram' = ram := by
      simpa only [Option.some.injEq, Prod.mk.injEq] using hans
    have hsplit := DmaRun.perm_eraseIdx hf
    have hsplit' : s'.flights = f' :: s.flights.eraseIdx i := by rw [hs]
    have hsound := h.flight _ (List.mem_of_getElem? hf)
    obtain ⟨hserver, htarget, hsid, hmode⟩ := hsound.located
    have hkeeps := NpRam.handleRequest_keeps hreq
    have hmade : ∀ k, s'.made k = s.made k ++ if f'.serial = k then
        [⟨f'.serial, m, f'.place.payload.cmd, (s.ram m).memory, ram'.memory⟩] else [] := by
      intro k
      rw [hs]
      exact RamAccess.filter_concat s.accesses _ k
    subst hflight
    refine h.replaced hsplit hsplit' rfl ?_ (by rw [hs]) (by rw [hs]) ?_ ?_
    · exact Pool.same h.pool (by rw [hs]) fun n =>
        busy_replaced hsplit hsplit' rfl
    · intro k hk
      rw [hmade, if_neg (Ne.symm hk), List.append_nil]
    · refine ⟨?_, hsound.simple, hkeeps.2.2.trans hsound.pattern, hkeeps.1.trans hsound.stack,
        ⟨hserver, hsid, NpRam.handleRequest_ne_request hreq⟩, ?_⟩
      · rw [hs]
        exact hsound.taken
      · have hself := hmade x.serial
        rw [if_pos rfl] at hself
        rw [hself]
        exact hsound.carrying.served hreq hmode (hsound.pattern) htarget
  · cases hans

/-- An access fails on its way. -/
theorem Inv.refused (h : Inv cap s) {i : Nat} {err : MemBusError} {x : NetXfer T}
    {visit : Option (T × Nat)} {n : T} {pkt : Packet MemBus}
    (hf : s.flights[i]? = some ⟨x, visit, .mem n pkt⟩)
    (hs : s' = { s with
      flights := ⟨x, visit, .memResp n (pkt.setPayload (pkt.payload.setMode (.error err)))⟩ ::
        s.flights.eraseIdx i }) : Inv cap s' := by
  have hsplit := DmaRun.perm_eraseIdx hf
  have hsound := h.flight _ (List.mem_of_getElem? hf)
  obtain ⟨hserver, -, hsid, -⟩ := hsound.located
  have hsplit' : s'.flights =
      ⟨x, visit, .memResp n (pkt.setPayload (pkt.payload.setMode (.error err)))⟩ ::
        s.flights.eraseIdx i := by rw [hs]
  subst hs
  refine h.replaced hsplit hsplit' rfl ?_ rfl rfl (fun _ _ => rfl) ?_
  · exact Pool.same h.pool rfl fun n => busy_replaced hsplit hsplit' rfl
  · refine ⟨hsound.taken, hsound.simple, hsound.pattern, hsound.stack, ⟨hserver, hsid, ?_⟩, ?_⟩
    · exact fun hm => by cases hm
    · exact .failed err rfl

/-- A layer takes a slot. -/
theorem Inv.taken_slot (h : Inv cap s) {n : T} {token : Nat} {avail : List Nat} {node : NetNode T}
    (havail : (s.node n).inner.availId = avail ++ [token])
    (hinner : node.inner = ⟨avail, (s.node n).inner.pktStore⟩)
    (hheld : (token :: (s.node n).held).Perm node.held)
    (hs : s' = { s with node := Function.update s.node n node }) : Inv cap s' := by
  subst hs
  refine h.of_pool (Pool.update h.pool rfl ?_ fun _ _ => List.Perm.refl _) rfl rfl rfl rfl
  have hpool := h.pool n
  unfold Pool at hpool
  rw [havail] at hpool
  rw [hinner]
  exact hpool.take.congr (hheld.append_left avail) (List.Perm.refl _)

theorem Change.inv {a : NetAct T} (hc : Change s a s') (h : Inv cap s) : Inv cap s' := by
  cases hc with
  | reserved n token avail ha hreq havail hs =>
      refine h.taken_slot havail rfl ?_ hs
      unfold NetNode.held
      rw [hreq]
      exact List.Perm.refl _
  | ingressReserved n token avail ha hing havail hs =>
      refine h.taken_slot havail rfl ?_ hs
      unfold NetNode.held
      rw [hing, Option.toList_none, List.append_nil]
      exact (List.perm_append_singleton _ _).symm
  | started n t pktUid token fromUid dma place ha hreq hpat hpay hto hs =>
      exact h.started hreq hpat hpay hto hs
  | served i t n f ram ha hans hs => exact h.served hans hs
  | refused i err x visit n pkt ha hf hs => exact h.refused hf hs
  | other n t req ram ha hs =>
      subst hs
      exact h.of_pool (Pool.same h.pool rfl fun _ => List.Perm.refl _) rfl rfl rfl rfl
  | written i f place ha hf hvisit hback hmode hcmd hpay hto hs =>
      exact h.written hf hvisit hmode hcmd hpay hto hs
  | finished i f ha hf hvisit hback hmode hcmd hs => exact h.finished hf hvisit hmode hcmd hs
  | returned i f n token msg ha hf hvisit hback hmode hresp hown hpay hsid hs =>
      exact h.returned hf hvisit hmode hresp hown hpay hsid hs
  | admitted i t pktUid f msg pkt' n token pkt ha hf hplace hn hing hpay hsid hs =>
      exact h.admitted hf hplace hn hing hpay hsid hs
  | panicked i f e p ha hf hmode hs =>
      subst hs
      exact h.of_pool (Pool.same h.pool rfl fun _ => List.Perm.refl _) rfl rfl rfl rfl

theorem inv_step (h : Inv cap s) {a : NetAct T} (hs : step uid s a = some s') : Inv cap s' :=
  (h.change hs).inv h

/-! ### Runs in which no access fails -/

/-- Nothing has panicked, and no access in flight has failed. -/
structure Faultless (s : NDmaNet T) : Prop where
  panic : s.panic = none
  flight : ∀ f ∈ s.flights, ∀ e, f.place.payload.mode ≠ .error e

omit [DecidableEq T] in
/-- An access that has not failed takes the place of another one. -/
theorem Faultless.cons (h : s.Faultless) {f : NetFlight T} {i : Nat}
    (hmode : f.place.payload.mode = .request ∨ f.place.payload.mode = .response)
    (hflights : s'.flights = f :: s.flights.eraseIdx i) (hpanic : s'.panic = s.panic) :
    s'.Faultless := by
  refine ⟨hpanic.trans h.panic, ?_⟩
  intro g hg e heq
  rw [hflights] at hg
  rcases List.mem_cons.mp hg with rfl | hg
  · rcases hmode with hmode | hmode
    · rw [hmode] at heq
      cases heq
    · rw [hmode] at heq
      cases heq
  · exact h.flight g (List.mem_of_mem_eraseIdx hg) e heq

theorem Change.faultless {a : NetAct T} (hc : Change s a s') (hok : s.AccessOk a)
    (hinv : Inv cap s) (h : s.Faultless) : s'.Faultless := by
  cases hc with
  | reserved n token avail ha hreq havail hs => exact hs ▸ ⟨h.panic, h.flight⟩
  | ingressReserved n token avail ha hing havail hs => exact hs ▸ ⟨h.panic, h.flight⟩
  | started n t pktUid token fromUid dma place ha hreq hpat hpay hto hs =>
      subst hs
      refine ⟨h.panic, ?_⟩
      intro f hf e heq
      rcases List.mem_cons.mp hf with rfl | hf
      · rw [hpay] at heq
        cases heq
      · exact h.flight f hf e heq
  | served i t n f ram ha hans hs =>
      subst ha
      exact h.cons (Or.inr (hok _ hans)) (by rw [hs]) (by rw [hs])
  | refused i err x visit n pkt ha hf hs =>
      subst ha
      exact absurd hok id
  | other n t req ram ha hs => exact hs ▸ ⟨h.panic, h.flight⟩
  | written i f place ha hf hvisit hback hmode hcmd hpay hto hs =>
      refine h.cons (f := ⟨f.toNetXfer, none, place⟩) (Or.inl ?_) (by rw [hs]) (by rw [hs])
      rw [hpay]
      rfl
  | finished i f ha hf hvisit hback hmode hcmd hs =>
      subst hs
      exact ⟨h.panic, fun g hg => h.flight g (List.mem_of_mem_eraseIdx hg)⟩
  | returned i f n token msg ha hf hvisit hback hmode hresp hown hpay hsid hs =>
      refine h.cons (f := ⟨f.toNetXfer, none, .netResp msg⟩) (Or.inr ?_) (by rw [hs]) (by rw [hs])
      exact (congrArg MemBus.mode hpay).trans hmode
  | admitted i t pktUid f msg pkt' n token pkt ha hf hplace hn hing hpay hsid hs =>
      have hlocated := (hinv.flight f (List.mem_of_getElem? hf)).located
      unfold NetFlight.Located at hlocated
      rw [hplace] at hlocated
      obtain ⟨handler, hpay⟩ := hpay
      refine h.cons (f := ⟨f.toNetXfer, some (n, token), .mem n pkt⟩) (Or.inl ?_) (by rw [hs])
        (by rw [hs])
      exact (congrArg MemBus.mode hpay).trans hlocated.2.2.2.2
  | panicked i f e p ha hf hmode hs =>
      exact absurd hmode (h.flight f (List.mem_of_getElem? hf) e)

/-- Whatever the order of steps and messages, as long as no access fails: every request is in flight
or answered, once; an answer leaves the node that was asked, with the packet that asked, when the
bytes of the source are at the destination; the slots of each node are partitioned, and what is on a
route stack are the slots of its access; and nothing panics. -/
theorem answered_at_home {ram : T → NpRam} {acts : List (NetAct T)}
    (hok : Along (step uid) AccessOk (init cap ram) acts)
    (hrun : run (step uid) (init cap ram) acts = some s) :
    (s.answered.map Prod.fst).Nodup ∧
      (s.flights.map (fun f => f.serial) ++ s.answered.map Prod.fst).Perm
        (List.range s.taken.length) ∧
      (∀ e ∈ s.answered, ∃ dma, s.taken[e.1]? = some (e.2.1, dma) ∧
        e.2.2 = dma.setPayload (dma.payload.setMode .response) ∧
        Transferred (s.made e.1) dma.payload) ∧
      (∀ n, ((s.node n).inner.availId ++ (s.node n).held ++ s.tokens n).Perm
        (List.range (cap n))) ∧
      (∀ f ∈ s.flights, f.place.payload.xbarPort = f.stack) ∧
      s.panic = none := by
  have hstep : ∀ s a s', (Inv cap s ∧ s.Faultless) → s.AccessOk a → step uid s a = some s' →
      Inv cap s' ∧ s'.Faultless := by
    rintro s a s' ⟨hinv, hfault⟩ hok hs
    have hc := hinv.change hs
    exact ⟨hc.inv hinv, hc.faultless hok hinv hfault⟩
  have hinit : Inv cap (init cap ram) ∧ (init cap ram).Faultless :=
    ⟨Inv.init cap ram, rfl, fun f hf => by cases hf⟩
  obtain ⟨h, hfault⟩ := run_inv_along hstep hinit hok hrun
  refine ⟨?_, h.serials, h.ended, fun n => (h.pool n).slots, ?_, hfault.panic⟩
  · exact (List.nodup_append.mp (h.serials.nodup_iff.mpr List.nodup_range)).2.1
  · exact fun f hf => (h.flight f hf).stack

/-- A message between two nodes about a transfer of the first. -/
def between (mode : Mode NetworkError) (payload : MemBus) : Packet (Network Bool MemBus) :=
  { uid := 0, payload := { mode, fromNode := false, toNode := true, payload } }

/-- Two nodes with one slot each; the first has a byte moved inside the memory of the second. -/
def byteMovedAfar : List (NetAct Bool) :=
  let dma : Packet (DmaBus (Bool × Addr)) :=
    { uid := 0, payload := .new (true, .phys 0) (true, .phys 1) (.simple 1) }
  let read : MemBus :=
    { cmd := .read, addr := .phys 0, subrangeAddr := .phys 0, pattern := .simple 1
      trace := [.base 0 0], xbarPort := [0] }
  let found : MemBus :=
    { read with mode := .response, data := [7], trace := List.replicate 3 (.base 0 0) }
  let write : MemBus :=
    { found with mode := .request, cmd := .write, addr := .phys 1, subrangeAddr := .phys 1 }
  let done : MemBus :=
    { write with mode := .response, trace := List.replicate 5 (.base 0 0) }
  [.reserve false, .request false {} 1 dma,
    .reserveIngress true, .ingressLayer 0 {} 2 (between .request read), .serve 0 {},
    .memLayer 0 {} 3, .egressLayer 0 {} 4 (between .response found),
    .reserveIngress true, .ingressLayer 0 {} 5 (between .response write), .serve 0 {},
    .memLayer 0 {} 6, .egressLayer 0 {} 7 (between .response done)]

/-- A memory of two bytes at each node. -/
def twoBytes : Bool → NpRam := fun _ => ⟨0, [7, 0]⟩

theorem byteMovedAfar_runs :
    ∃ s, run (step fun _ => 0) (init (fun _ => 1) twoBytes) byteMovedAfar = some s ∧
      s.answered.map Prod.fst = [0] ∧ (s.ram true).memory = [7, 7] := ⟨_, rfl, rfl, rfl⟩

theorem byteMovedAfar_ok :
    Along (step fun _ => 0) AccessOk (init (fun _ => 1) twoBytes) byteMovedAfar := by decide

theorem answered_at_home_byteMovedAfar :
    ∃ s, run (step fun _ => 0) (init (fun _ => 1) twoBytes) byteMovedAfar = some s ∧
      s.answered.map Prod.fst = [0] ∧
      (s.answered.map Prod.fst).Nodup ∧
      (s.flights.map (fun f => f.serial) ++ s.answered.map Prod.fst).Perm
        (List.range s.taken.length) ∧
      (∀ e ∈ s.answered, ∃ dma, s.taken[e.1]? = some (e.2.1, dma) ∧
        e.2.2 = dma.setPayload (dma.payload.setMode .response) ∧
        Transferred (s.made e.1) dma.payload) ∧
      (∀ n, ((s.node n).inner.availId ++ (s.node n).held ++ s.tokens n).Perm (List.range 1)) ∧
      (∀ f ∈ s.flights, f.place.payload.xbarPort = f.stack) ∧
      s.panic = none := by
  obtain ⟨s, hrun, hans, -⟩ := byteMovedAfar_runs
  exact ⟨s, hrun, hans, answered_at_home byteMovedAfar_ok hrun⟩

end NDmaNet

end Ra2m
