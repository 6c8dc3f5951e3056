/-
The slots of a Dma.

Whatever order the layers and the memory side take their steps in, the free slots,
the one in `request_layer`'s hand and the tokens of the packets in flight are the
slots `0 .. inflight_req-1`, each once, and `pktStore` has a transfer exactly at the
tokens in flight.  The pool itself is `SlotPool`; here its rules are applied step by
step.  A token on an answer's stack therefore leads to the transfer the access was
made for, so no lookup fails, and every transfer that was received is either in
flight or has ended once, as its accesses did.
-/
import Ra2m.Cpn.DmaRun
import Ra2m.Lib.Runs
import Ra2m.Lib.SlotPool
import Mathlib.Data.List.Perm.Basic

namespace Ra2m

open Runs

namespace DmaRun

/-- The answered accesses behind an access: the read before a write, and the access itself once it
is answered. -/
def progress (pld : MemBus) : List (Command × Mode MemBusError) :=
  (if pld.cmd = .write then [(.read, .response)] else []) ++
    if pld.mode = .request then [] else [(pld.cmd, pld.mode)]

/-- An access in flight belongs to its transfer. -/
structure Underway (s : DmaRun) (f : Flight) : Prop where
  stack : f.pkt.payload.xbarPort = [f.token]
  cmd : f.pkt.payload.cmd ≠ .addrRange
  taken : s.taken[f.serial]? = some f.dma
  pattern : f.pkt.payload.pattern = f.dma.payload.pattern
  served : f.dma.payload.pattern ≠ .unset
  history : s.history f.serial = progress f.pkt.payload

/-- The transfer with this serial has ended with this packet: its own, in `Mode::Response` after a
read and a write that succeeded, or with the failure of the one that did not. -/
def Ended (s : DmaRun) (serial : Nat) (pkt : Packet (DmaBus Addr)) : Prop :=
  ∃ dma, s.taken[serial]? = some dma ∧
    ((pkt = dma.setPayload (dma.payload.setMode .response) ∧
        s.history serial = [(.read, .response), (.write, .response)]) ∨
      ∃ e, pkt = dma.setPayload (dma.payload.setMode (.error (.inner e))) ∧
        (s.history serial = [(.read, .error e)] ∨
          s.history serial = [(.read, .response), (.write, .error e)]))

structure Inv (n : Nat) (s : DmaRun) : Prop where
  pool : SlotPool.Ok none n s.inner.availId s.held s.inner.pktStore
    (s.flights.map fun f => (f.token, some f.dma))
  serials : (s.fresh ++ s.flights.map Flight.serial ++ s.done.map Prod.fst).Perm
    (List.range s.taken.length)
  request : ∀ f ∈ s.requests, f.pkt.payload.mode = .request
  response : ∀ f ∈ s.responses, f.pkt.payload.mode ≠ .request
  flight : ∀ f ∈ s.flights, s.Underway f
  ended : ∀ e ∈ s.done, s.Ended e.1 e.2
  received : ∀ token serial dma, s.request = .received token serial dma →
    s.taken[serial]? = some dma ∧ dma.payload.pattern ≠ .unset ∧ s.history serial = []
  unborn : ∀ k, s.taken.length ≤ k → s.history k = []
  slot : s.request = .hasSlot → s.inner.availId ≠ []
  panic : s.panic = none

variable {n : Nat} {s s' : DmaRun}

/-! ### What the invariant depends on -/

theorem Underway.congr {f : Flight} (h : s.Underway f)
    (htaken : ∀ (k : Nat) dma, s.taken[k]? = some dma → s'.taken[k]? = some dma)
    (hhist : s'.history f.serial = s.history f.serial) : s'.Underway f :=
  ⟨h.stack, h.cmd, htaken _ _ h.taken, h.pattern, h.served, hhist.trans h.history⟩

theorem Ended.congr {k : Nat} {pkt : Packet (DmaBus Addr)} (h : s.Ended k pkt)
    (htaken : ∀ (k : Nat) dma, s.taken[k]? = some dma → s'.taken[k]? = some dma)
    (hhist : s'.history k = s.history k) : s'.Ended k pkt := by
  obtain ⟨dma, hdma, hend⟩ := h
  refine ⟨dma, htaken k dma hdma, ?_⟩
  rw [hhist]
  exact hend

/-- Packets move from place to place, or a slot is taken. -/
structure Moved (n : Nat) (s s' : DmaRun) : Prop where
  pool : ∀ busy, SlotPool.Ok none n s.inner.availId s.held s.inner.pktStore busy →
    SlotPool.Ok none n s'.inner.availId s'.held s'.inner.pktStore busy
  fresh : s'.fresh = s.fresh
  requests : s'.requests.Perm s.requests
  responses : s'.responses.Perm s.responses
  done : s'.done.Perm s.done
  taken : s'.taken = s.taken
  log : s'.log = s.log
  received : ∀ token serial dma, s'.request = .received token serial dma →
    s.request = .received token serial dma
  slot : s'.request = .hasSlot → s'.inner.availId ≠ []
  panic : s'.panic = s.panic

theorem Moved.flights (h : Moved n s s') : s'.flights.Perm s.flights :=
  h.requests.append h.responses

theorem history_congr (hlog : s'.log = s.log) (k : Nat) : s'.history k = s.history k := by
  unfold history
  rw [hlog]

theorem Inv.moved (h : Inv n s) (hm : Moved n s s') : Inv n s' := by
  have hhist := history_congr hm.log
  have htaken : ∀ (k : Nat) dma, s.taken[k]? = some dma → s'.taken[k]? = some dma := by
    rw [hm.taken]
    exact fun _ _ => id
  refine ⟨?_, ?_, ?_, ?_, ?_, ?_, ?_, ?_, hm.slot, hm.panic.trans h.panic⟩
  · exact (hm.pool _ h.pool).congr (List.Perm.refl _) (hm.flights.symm.map _)
  · rw [hm.fresh, hm.taken]
    exact (((hm.flights.map _).append_left _).append (hm.done.map _)).trans h.serials
  · exact fun f hf => h.request f (hm.requests.mem_iff.mp hf)
  · exact fun f hf => h.response f (hm.responses.mem_iff.mp hf)
  · exact fun f hf => (h.flight f (hm.flights.mem_iff.mp hf)).congr htaken (hhist _)
  · exact fun e he => (h.ended e (hm.done.mem_iff.mp he)).congr htaken (hhist _)
  · intro token serial dma heq
    rw [hm.taken, hhist]
    exact h.received token serial dma (hm.received token serial dma heq)
  · intro k hk
    rw [hhist]
    exact h.unborn k (hm.taken ▸ hk)

theorem Inv.init (n : Nat) : Inv n (DmaRun.init n) := by
  refine ⟨SlotPool.Ok.init none n, List.Perm.refl _, ?_, ?_, ?_, ?_, ?_, ?_, ?_, rfl⟩
  · exact fun f hf => by cases hf
  · exact fun f hf => by cases hf
  · exact fun f hf => by cases hf
  · exact fun e he => by cases he
  · exact fun _ _ _ heq => by cases heq
  · exact fun _ _ => rfl
  · exact fun heq => by cases heq

/-! ### Serials -/

/-- Two accesses in flight are for different transfers. -/
theorem Inv.serial_ne (h : Inv n s) {f : Flight} {rest : List Flight}
    (hsplit : s.flights.Perm (f :: rest)) : ∀ g ∈ rest, g.serial ≠ f.serial := by
  have hnodup := h.serials.nodup_iff.mpr List.nodup_range
  have hmid := (List.nodup_append.mp (List.nodup_append.mp hnodup).1).2.1
  rw [(hsplit.map Flight.serial).nodup_iff, List.map_cons, List.nodup_cons] at hmid
  intro g hg heq
  exact hmid.1 (heq ▸ List.mem_map_of_mem hg)

/-- A transfer in flight has not ended. -/
theorem Inv.done_ne (h : Inv n s) {f : Flight} (hf : f ∈ s.flights) :
    ∀ e ∈ s.done, e.1 ≠ f.serial := by
  have hnodup := h.serials.nodup_iff.mpr List.nodup_range
  intro e he heq
  refine (List.nodup_append.mp hnodup).2.2 f.serial ?_ e.1 (List.mem_map_of_mem he) heq.symm
  exact List.mem_append_right _ (List.mem_map_of_mem hf)

/-- A transfer in flight is not the one just received. -/
theorem Inv.fresh_ne (h : Inv n s) {f : Flight} (hf : f ∈ s.flights) :
    ∀ k ∈ s.fresh, k ≠ f.serial := by
  have hnodup := h.serials.nodup_iff.mpr List.nodup_range
  intro k hk heq
  exact (List.nodup_append.mp (List.nodup_append.mp hnodup).1).2.2 k hk f.serial
    (List.mem_map_of_mem hf) heq

theorem Inv.serial_lt (h : Inv n s) {f : Flight} (hf : f ∈ s.flights) :
    f.serial < s.taken.length :=
  (List.getElem?_eq_some_iff.mp (h.flight f hf).taken).1

/-! ### What the steps do to the packets in flight -/

theorem perm_eraseIdx {α : Type} {l : List α} {i : Nat} {x : α} (h : l[i]? = some x) :
    l.Perm (x :: l.eraseIdx i) := by
  obtain ⟨hi, rfl⟩ := List.getElem?_eq_some_iff.mp h
  exact (List.getElem_cons_eraseIdx_perm hi).symm

/-- An access in flight gives way to the next one of its transfer, or to its answer. -/
theorem Inv.replaced (h : Inv n s) (f f' : Flight) {rest : List Flight}
    (hsplit : s.flights.Perm (f :: rest)) (hsplit' : s'.flights.Perm (f' :: rest))
    (hserial : f'.serial = f.serial) (htoken : f'.token = f.token) (hdma : f'.dma = f.dma)
    (hinner : s'.inner = s.inner) (hreq : s'.request = s.request) (htaken : s'.taken = s.taken)
    (hdone : s'.done = s.done) (hhist : ∀ k, k ≠ f.serial → s'.history k = s.history k)
    (hnew : s'.Underway f') (hrequest : ∀ g ∈ s'.requests, g.pkt.payload.mode = .request)
    (hresponse : ∀ g ∈ s'.responses, g.pkt.payload.mode ≠ .request)
    (hpanic : s'.panic = s.panic) : Inv n s' := by
  have hf : f ∈ s.flights := hsplit.mem_iff.mpr List.mem_cons_self
  have hheld : s'.held = s.held := congrArg RequestStage.held hreq
  have hfresh : s'.fresh = s.fresh := congrArg RequestStage.fresh hreq
  have htaken' : ∀ (k : Nat) dma, s.taken[k]? = some dma → s'.taken[k]? = some dma := by
    rw [htaken]
    exact fun _ _ => id
  refine ⟨?_, ?_, hrequest, hresponse, ?_, ?_, ?_, ?_, ?_, hpanic.trans h.panic⟩
  · rw [hinner, hheld]
    refine h.pool.congr (List.Perm.refl _) ?_
    have hpair : (f'.token, some f'.dma) = (f.token, some f.dma) := by rw [htoken, hdma]
    refine (hsplit.map _).trans (List.Perm.trans ?_ (hsplit'.map _).symm)
    rw [List.map_cons, List.map_cons, hpair]
  · rw [hfresh, hdone, htaken]
    refine List.Perm.trans (List.Perm.append_right _ (List.Perm.append_left _ ?_)) h.serials
    refine (hsplit'.map _).trans (List.Perm.trans ?_ (hsplit.map _).symm)
    rw [List.map_cons, List.map_cons, hserial]
  · intro g hg
    rcases List.mem_cons.mp (hsplit'.mem_iff.mp hg) with rfl | hg
    · exact hnew
    · exact (h.flight g (hsplit.mem_iff.mpr (List.mem_cons_of_mem _ hg))).congr htaken'
        (hhist _ (h.serial_ne hsplit g hg))
  · intro e he
    rw [hdone] at he
    exact (h.ended e he).congr htaken' (hhist _ (h.done_ne hf e he))
  · intro token serial dma heq
    rw [hreq] at heq
    have hne : serial ≠ f.serial :=
      h.fresh_ne hf serial (by unfold fresh; rw [heq]; exact List.mem_cons_self)
    rw [htaken, hhist serial hne]
    exact h.received token serial dma heq
  · intro k hk
    rw [htaken] at hk
    rw [hhist k (fun heq => absurd (h.serial_lt hf) (by omega))]
    exact h.unborn k hk
  · rw [hreq, hinner]
    exact h.slot

/-- The last access of a transfer gives way to the transfer's end, and its slot is free again. -/
theorem Inv.finished (h : Inv n s) (f : Flight) (pkt : Packet (DmaBus Addr))
    (hsplit : s.flights.Perm (f :: s'.flights))
    (hinner : s'.inner = ⟨s.inner.availId ++ [f.token], s.inner.pktStore.set f.token none⟩)
    (hreq : s'.request = s.request) (htaken : s'.taken = s.taken) (hlog : s'.log = s.log)
    (hdone : s'.done = (f.serial, pkt) :: s.done) (hend : s.Ended f.serial pkt)
    (hrequest : s'.requests = s.requests)
    (hresponse : ∀ g ∈ s'.responses, g ∈ s.responses) (hpanic : s'.panic = s.panic) :
    Inv n s' := by
  have hheld : s'.held = s.held := congrArg RequestStage.held hreq
  have hfresh : s'.fresh = s.fresh := congrArg RequestStage.fresh hreq
  have htaken' : ∀ (k : Nat) dma, s.taken[k]? = some dma → s'.taken[k]? = some dma := by
    rw [htaken]
    exact fun _ _ => id
  have hhist := history_congr hlog
  refine ⟨?_, ?_, ?_, ?_, ?_, ?_, ?_, ?_, ?_, hpanic.trans h.panic⟩
  · rw [hinner, hheld]
    have hpool := h.pool.congr (List.Perm.refl _) (hsplit.map _)
    exact hpool.release
  · rw [hfresh, hdone, htaken]
    refine List.Perm.trans ?_ h.serials
    rw [List.map_cons]
    refine List.perm_middle.trans ?_
    rw [← List.cons_append]
    refine List.Perm.append_right _ ?_
    refine List.Perm.trans ?_ (List.Perm.append_left _ (hsplit.map _).symm)
    rw [List.map_cons]
    exact List.perm_middle.symm
  · rw [hrequest]
    exact h.request
  · exact fun g hg => h.response g (hresponse g hg)
  · intro g hg
    exact (h.flight g (hsplit.mem_iff.mpr (List.mem_cons_of_mem _ hg))).congr htaken' (hhist _)
  · intro e he
    rw [hdone] at he
    rcases List.mem_cons.mp he with rfl | he
    · exact hend.congr htaken' (hhist _)
    · exact (h.ended e he).congr htaken' (hhist _)
  · intro token serial dma heq
    rw [htaken, hhist]
    exact h.received token serial dma (hreq ▸ heq)
  · intro k hk
    rw [hhist]
    exact h.unborn k (htaken ▸ hk)
  · intro _ hnil
    rw [hinner] at hnil
    simp at hnil

/-! ### What a step can do -/

/-- The transfer of an access ends with this answer: the write's, or a failure. -/
def EndsTransfer (resp : MemBus) : Prop := resp.mode ≠ .response ∨ resp.cmd ≠ .read

instance (resp : MemBus) : Decidable (EndsTransfer resp) :=
  inferInstanceAs (Decidable (_ ∨ _))

/-- The write an access turns into once its read is answered. -/
def writeOf (f : Flight) : MemBus :=
  { f.pkt.payload with
    mode := .request, cmd := .write, addr := f.dma.payload.writeTo
    subrangeAddr := ({ f.pkt.payload with addr := f.dma.payload.writeTo } :
      MemBus).updateSubrange.subrangeAddr }

/-- What a step does to the transfers: nothing, or one of them is received, stored, answered by the
memory side, turned into a write, or ended. -/
inductive Change (n uid : Nat) (s : DmaRun) (a : DmaAct) (s' : DmaRun) : Prop where
  | moved (hm : Moved n s s')
  | recv (token : Nat) (dma : Packet (DmaBus Addr)) (hreq : s.request = .holding token)
      (hpat : dma.payload.pattern ≠ .unset)
      (hs : s' = { s with
        request := .received token s.taken.length dma, taken := s.taken ++ [dma] })
  | store (token serial : Nat) (dma : Packet (DmaBus Addr)) (t : Timing) (pktUid : Nat)
      (hreq : s.request = .received token serial dma)
      (hs : s' = { s with
        inner := { s.inner with pktStore := s.inner.pktStore.set token (some dma) }
        request := .sending ⟨serial, token, dma, Dma.forgeRead t uid pktUid token dma.payload⟩ })
  | answer (i : Nat) (f : Flight) (resp : Packet MemBus) (ha : a = .answer i resp)
      (hf : s.outbound[i]? = some f)
      (hans : f.pkt.payload.Answers resp.payload)
      (hs : s' = { s with
        outbound := s.outbound.eraseIdx i, resps := s.resps ++ [{ f with pkt := resp }]
        log := s.log ++ [(f.serial, resp.payload)] })
  | write (f : Flight) (pkt : Packet MemBus) (hfwd : s.forward = .received f)
      (hcont : ¬ EndsTransfer f.pkt.payload) (hpay : pkt.payload = writeOf f)
      (hs : s' = { s with forward := .sendingMem { f with pkt } })
  | ended (f : Flight) (pkt : Packet (DmaBus Addr)) (hfwd : s.forward = .received f)
      (hends : EndsTransfer f.pkt.payload) (hend : s.Ended f.serial pkt)
      (hs : s' = { s with
        inner := ⟨s.inner.availId ++ [f.token], s.inner.pktStore.set f.token none⟩
        forward := .sendingDma f.serial pkt })

/-- `request_layer` gets to another point of its loop with what it had in hand. -/
theorem Moved.of_request {r r' : RequestStage} (hreq : s.request = r)
    (hs : s' = { s with request := r', notified := s'.notified }) (hheld : r'.held = r.held)
    (hfresh : r.fresh = []) (hfresh' : r'.fresh = []) (hout : r'.outgoing = r.outgoing)
    (hslot : r' = .hasSlot → s.inner.availId ≠ []) : Moved n s s' := by
  rw [hs]
  refine ⟨?_, ?_, ?_, List.Perm.refl _, List.Perm.refl _, rfl, rfl, ?_, hslot, rfl⟩
  · intro busy hpool
    unfold held at hpool
    rw [hreq, ← hheld] at hpool
    exact hpool
  · unfold DmaRun.fresh
    rw [hreq, hfresh, hfresh']
  · unfold DmaRun.requests
    rw [hreq, hout]
  · intro token serial dma heq
    rw [show r' = .received token serial dma from heq] at hfresh'
    cases hfresh'

/-- `forward_layer` gets to another point of its loop. -/
theorem Moved.of_forward (h : Inv n s) (hinner : s'.inner = s.inner)
    (hreq : s'.request = s.request) (hreqs : s'.requests.Perm s.requests)
    (hresps : s'.responses.Perm s.responses) (hdone : s'.done.Perm s.done)
    (htaken : s'.taken = s.taken) (hlog : s'.log = s.log) (hpanic : s'.panic = s.panic) :
    Moved n s s' := by
  refine ⟨?_, congrArg RequestStage.fresh hreq, hreqs, hresps, hdone, htaken, hlog, ?_, ?_, hpanic⟩
  · intro busy hpool
    unfold held
    rw [hinner, hreq]
    exact hpool
  · rw [hreq]
    exact fun _ _ _ => id
  · rw [hreq, hinner]
    exact h.slot

variable {uid : Nat}

theorem Inv.change_look (hs : s.act uid .look = some s') : Change n uid s .look s' := by
  simp only [act] at hs
  split at hs
  · rename_i hreq
    split at hs
    · obtain rfl := Option.some.inj hs
      exact .moved (.of_request hreq rfl rfl rfl rfl rfl fun heq => by cases heq)
    · rename_i hlen
      obtain rfl := Option.some.inj hs
      refine .moved (.of_request hreq rfl rfl rfl rfl rfl ?_)
      intro _ hnil
      exact hlen (by rw [hnil]; rfl)
  · cases hs

theorem Inv.change_startWait (hs : s.act uid .startWait = some s') :
    Change n uid s .startWait s' := by
  simp only [act] at hs
  split at hs
  · rename_i hreq
    obtain rfl := Option.some.inj hs
    exact .moved (.of_request hreq rfl rfl rfl rfl rfl fun heq => by cases heq)
  · cases hs

theorem Inv.change_notify (hs : s.act uid .notify = some s') : Change n uid s .notify s' := by
  simp only [act] at hs
  split at hs
  · rename_i hreq
    obtain rfl := Option.some.inj hs
    refine .moved (.of_request hreq ?_ rfl rfl rfl rfl fun heq => by cases heq)
    rw [hreq]
  · cases hs

theorem Inv.change_wake (hs : s.act uid .wake = some s') : Change n uid s .wake s' := by
  simp only [act] at hs
  split at hs
  · rename_i hreq
    split at hs
    · obtain rfl := Option.some.inj hs
      exact .moved (.of_request hreq rfl rfl rfl rfl rfl fun heq => by cases heq)
    · cases hs
  · cases hs

/-- A slot that was free is held. -/
theorem Inv.change_takeSlot (h : Inv n s) (hs : s.act uid .takeSlot = some s') :
    Change n uid s .takeSlot s' := by
  simp only [act] at hs
  split at hs
  · rename_i hreq
    obtain ⟨avail, token, havail⟩ : ∃ avail token, s.inner.availId = avail ++ [token] :=
      ⟨_, _, (List.dropLast_append_getLast (h.slot hreq)).symm⟩
    unfold DmaInner.takeToken at hs
    rw [havail, List.getLast?_concat, List.dropLast_concat] at hs
    obtain rfl := Option.some.inj hs
    refine .moved ⟨?_, ?_, ?_, List.Perm.refl _, List.Perm.refl _, rfl, rfl,
      (fun _ _ _ heq => by cases heq), (fun heq => by cases heq), rfl⟩
    · intro busy hpool
      unfold held at hpool
      rw [havail, hreq] at hpool
      exact hpool.take
    · unfold fresh
      rw [hreq]
      rfl
    · unfold requests
      rw [hreq]
      exact List.Perm.refl _
  · cases hs

theorem Inv.change_recv {dma : Packet (DmaBus Addr)} (hs : s.act uid (.recv dma) = some s') :
    Change n uid s (.recv dma) s' := by
  simp only [act] at hs
  split at hs
  · rename_i token hreq
    split at hs
    · cases hs
    · rename_i hpat
      exact .recv token dma hreq hpat (Option.some.inj hs).symm
  · cases hs

/-- The slot in hand is one of the store's. -/
theorem Inv.received_lt (h : Inv n s) {token serial : Nat} {dma : Packet (DmaBus Addr)}
    (hreq : s.request = .received token serial dma) : token < s.inner.pktStore.length := by
  rw [h.pool.length]
  refine h.pool.lt_of_mem (List.mem_append_left _ (List.mem_append_right _ ?_))
  unfold held
  rw [hreq]
  exact List.mem_cons_self

/-- The read of a transfer is a request, so it can be sent. -/
theorem Inv.txCheck_sending (h : Inv n s) {f : Flight} (hreq : s.request = .sending f) :
    (TxStatus.txCheck f.pkt.payload : Except MemBusError Unit) = .ok () := by
  refine MemBus.txCheck_eq_ok_iff.mpr (h.request f ?_)
  unfold requests
  rw [hreq]
  exact List.mem_cons_self

/-- And so is the write. -/
theorem Inv.txCheck_sendingMem (h : Inv n s) {f : Flight} (hfwd : s.forward = .sendingMem f) :
    (TxStatus.txCheck f.pkt.payload : Except MemBusError Unit) = .ok () := by
  refine MemBus.txCheck_eq_ok_iff.mpr (h.request f ?_)
  unfold requests
  rw [hfwd]
  exact List.mem_append_right _ List.mem_cons_self

theorem Inv.change_store (h : Inv n s) {t : Timing} {pktUid : Nat}
    (hs : s.act uid (.store t pktUid) = some s') : Change n uid s (.store t pktUid) s' := by
  simp only [act] at hs
  split at hs
  · rename_i token serial dma hreq
    rw [Dma.requestLayer_eq (h.received_lt hreq)] at hs
    exact .store token serial dma t pktUid hreq (Option.some.inj hs).symm
  · cases hs

theorem Inv.change_send (h : Inv n s) (hs : s.act uid .send = some s') :
    Change n uid s .send s' := by
  simp only [act] at hs
  split at hs
  · rename_i f hreq
    rw [h.txCheck_sending hreq] at hs
    obtain rfl := Option.some.inj hs
    refine .moved ⟨?_, ?_, ?_, List.Perm.refl _, List.Perm.refl _, rfl, rfl,
      (fun _ _ _ heq => by cases heq), (fun heq => by cases heq), rfl⟩
    · intro busy hpool
      unfold held at hpool
      rw [hreq] at hpool
      exact hpool
    · unfold fresh
      rw [hreq]
      rfl
    · unfold requests
      rw [hreq]
      exact (List.perm_append_singleton f s.outbound).append_right _
  · cases hs

theorem Inv.change_answer {i : Nat} {resp : Packet MemBus}
    (hs : s.act uid (.answer i resp) = some s') : Change n uid s (.answer i resp) s' := by
  simp only [act] at hs
  split at hs
  · cases hs
  · rename_i f hf
    split at hs
    · rename_i hans
      exact .answer i f resp rfl hf hans (Option.some.inj hs).symm
    · cases hs

theorem Inv.change_take (h : Inv n s) {i : Nat} (hs : s.act uid (.take i) = some s') :
    Change n uid s (.take i) s' := by
  simp only [act] at hs
  split at hs
  · rename_i f hfwd hf
    obtain rfl := Option.some.inj hs
    refine .moved (.of_forward h rfl rfl ?_ ?_ ?_ rfl rfl rfl)
    · unfold requests
      rw [hfwd]
      exact List.Perm.refl _
    · unfold responses
      rw [hfwd]
      refine (List.perm_append_singleton f _).trans ((perm_eraseIdx hf).symm.trans ?_)
      exact List.Perm.of_eq (List.append_nil _).symm
    · unfold done
      rw [hfwd]
      exact List.Perm.refl _
  · cases hs

/-- The packets in flight when `forward_layer` has an answer in hand. -/
theorem flights_received {f : Flight} (hfwd : s.forward = .received f) :
    s.flights.Perm (f :: (s.requests ++ s.resps)) := by
  unfold flights responses
  rw [hfwd, ← List.append_assoc]
  exact List.perm_append_singleton f _

theorem requests_received {f : Flight} (hfwd : s.forward = .received f) :
    s.requests = s.request.outgoing ++ s.outbound := by
  unfold requests
  rw [hfwd]
  exact List.append_nil _

theorem response_received (h : Inv n s) {f : Flight} (hfwd : s.forward = .received f) :
    f.pkt.payload.mode ≠ .request := by
  refine h.response f ?_
  unfold responses
  rw [hfwd]
  exact List.mem_append_right _ List.mem_cons_self

theorem done_received {f : Flight} (hfwd : s.forward = .received f) : s.done = s.answered := by
  unfold done
  rw [hfwd]
  rfl

/-- The answer of a read gives way to the write; any other ends its transfer and frees the slot. -/
theorem Inv.forward_cases (h : Inv n s) {t : Timing} (hs : s.act uid (.forward t) = some s') :
    ∃ f, s.forward = .received f ∧
      ((¬ EndsTransfer f.pkt.payload ∧ ∃ pkt, pkt.payload = writeOf f ∧
          s' = { s with forward := .sendingMem { f with pkt } }) ∨
        (EndsTransfer f.pkt.payload ∧ ∃ pkt, s.Ended f.serial pkt ∧
          s' = { s with
            inner := ⟨s.inner.availId ++ [f.token], s.inner.pktStore.set f.token none⟩
            forward := .sendingDma f.serial pkt })) := by
  simp only [act] at hs
  split at hs
  · rename_i f hfwd
    have hsplit := flights_received hfwd
    have hf := h.flight f (hsplit.mem_iff.mpr List.mem_cons_self)
    have hmode := response_received h hfwd
    have hstored := (h.pool.congr (List.Perm.refl _) (hsplit.map _)).stored
    have hhist := hf.history
    unfold progress at hhist
    rw [if_neg hmode] at hhist
    refine ⟨f, hfwd, ?_⟩
    cases hm : f.pkt.payload.mode with
    | request => exact absurd hm hmode
    | error e =>
        rw [Dma.forwardLayer_error hf.stack hm hstored] at hs
        refine Or.inr ⟨Or.inl (by rw [hm]; simp), _, ⟨f.dma, hf.taken, Or.inr ⟨e, rfl, ?_⟩⟩,
          (Option.some.inj hs).symm⟩
        rw [hhist, hm]
        cases hc : f.pkt.payload.cmd with
        | read => exact Or.inl rfl
        | write => exact Or.inr rfl
        | addrRange => exact absurd hc hf.cmd
    | response =>
        cases hc : f.pkt.payload.cmd with
        | addrRange => exact absurd hc hf.cmd
        | write =>
            rw [Dma.forwardLayer_write hf.stack hm hc hstored] at hs
            refine Or.inr ⟨Or.inr (by rw [hc]; simp), _, ⟨f.dma, hf.taken, Or.inl ⟨rfl, ?_⟩⟩,
              (Option.some.inj hs).symm⟩
            rw [hhist, hm, hc]
            rfl
        | read =>
            have hpat : f.pkt.payload.pattern ≠ .unset := by
              rw [hf.pattern]
              exact hf.served
            obtain ⟨pkt, heq, hpay⟩ := Dma.forwardLayer_read (t := t) hf.stack hm hc hstored hpat
            rw [heq] at hs
            refine Or.inl ⟨?_, pkt, hpay, (Option.some.inj hs).symm⟩
            rintro (hne | hne)
            · exact hne hm
            · exact hne hc
  · cases hs

theorem Inv.change_forward (h : Inv n s) {t : Timing} (hs : s.act uid (.forward t) = some s') :
    Change n uid s (.forward t) s' := by
  obtain ⟨f, hfwd, ⟨hcont, pkt, hpay, heq⟩ | ⟨hends, pkt, hend, heq⟩⟩ := h.forward_cases hs
  · exact .write f pkt hfwd hcont hpay heq
  · exact .ended f pkt hfwd hends hend heq

/-- The write of a transfer is a request, so it can be sent. -/
theorem Inv.change_sendMem (h : Inv n s) (hs : s.act uid .sendMem = some s') :
    Change n uid s .sendMem s' := by
  simp only [act] at hs
  split at hs
  · rename_i f hfwd
    rw [h.txCheck_sendingMem hfwd] at hs
    obtain rfl := Option.some.inj hs
    refine .moved (.of_forward h rfl rfl ?_ ?_ ?_ rfl rfl rfl)
    · unfold requests
      rw [hfwd]
      refine List.Perm.of_eq ?_
      simp [ForwardStage.outgoing]
    · unfold responses
      rw [hfwd]
      exact List.Perm.refl _
    · unfold done
      rw [hfwd]
      exact List.Perm.refl _
  · cases hs

theorem Inv.change_sendDma (h : Inv n s) (hs : s.act uid .sendDma = some s') :
    Change n uid s .sendDma s' := by
  simp only [act] at hs
  split at hs
  · rename_i serial pkt hfwd
    obtain rfl := Option.some.inj hs
    refine .moved (.of_forward h rfl rfl ?_ ?_ ?_ rfl rfl rfl)
    · unfold requests
      rw [hfwd]
      exact List.Perm.refl _
    · unfold responses
      rw [hfwd]
      exact List.Perm.refl _
    · unfold done
      rw [hfwd]
      exact List.perm_append_singleton _ _
  · cases hs

/-- A step from a state that keeps the invariant does not panic, and does one of these things. -/
theorem Inv.change (h : Inv n s) {a : DmaAct} (hs : step uid s a = some s') :
    Change n uid s a s' := by
  rw [step_eq h.panic] at hs
  cases a with
  | look => exact change_look hs
  | startWait => exact change_startWait hs
  | notify => exact change_notify hs
  | wake => exact change_wake hs
  | takeSlot => exact h.change_takeSlot hs
  | recv dma => exact change_recv hs
  | store t pktUid => exact h.change_store hs
  | send => exact h.change_send hs
  | answer i resp => exact change_answer hs
  | take i => exact h.change_take hs
  | forward t => exact h.change_forward hs
  | sendMem => exact h.change_sendMem hs
  | sendDma => exact h.change_sendDma hs

/-! ### What the changes keep -/

/-- A request is received, under the next serial. -/
theorem Inv.recv (h : Inv n s) {token : Nat} {dma : Packet (DmaBus Addr)}
    (hreq : s.request = .holding token) (hpat : dma.payload.pattern ≠ .unset) :
    Inv n { s with
      request := .received token s.taken.length dma, taken := s.taken ++ [dma] } := by
  have htaken : ∀ (k : Nat) d, s.taken[k]? = some d → (s.taken ++ [dma])[k]? = some d := by
    intro k d hk
    rw [List.getElem?_append_left (List.getElem?_eq_some_iff.mp hk).1, hk]
  have hpool := h.pool
  have hserials := h.serials
  have hrequest := h.request
  have hflight := h.flight
  unfold held flights requests at hpool
  unfold fresh flights requests at hserials
  unfold requests at hrequest
  unfold flights requests at hflight
  rw [hreq] at hpool hserials hrequest hflight
  refine ⟨hpool, ?_, hrequest, h.response, ?_, ?_, ?_, ?_, (fun heq => by cases heq), h.panic⟩
  · rw [List.length_append, List.length_singleton, List.range_succ]
    exact (hserials.cons s.taken.length).trans (List.perm_append_singleton _ _).symm
  · exact fun f hf => (hflight f hf).congr htaken rfl
  · exact fun e he => (h.ended e he).congr htaken rfl
  · intro token' serial dma' heq
    obtain ⟨-, rfl, rfl⟩ := RequestStage.received.inj heq
    exact ⟨by simp, hpat, h.unborn _ (le_refl _)⟩
  · intro k hk
    refine h.unborn k ?_
    simp only [List.length_append] at hk
    omega

/-- The request is stored in the slot in hand and its read is about to be sent. -/
theorem Inv.store (h : Inv n s) {token serial : Nat} {dma : Packet (DmaBus Addr)} (t : Timing)
    (pktUid : Nat) (hreq : s.request = .received token serial dma) :
    Inv n { s with
      inner := { s.inner with pktStore := s.inner.pktStore.set token (some dma) }
      request := .sending
        ⟨serial, token, dma, Dma.forgeRead t uid pktUid token dma.payload⟩ } := by
  obtain ⟨htaken, hpat, hhist⟩ := h.received token serial dma hreq
  have hpool := h.pool
  have hserials := h.serials
  have hrequest := h.request
  have hflight := h.flight
  unfold held flights requests at hpool
  unfold fresh flights requests at hserials
  unfold requests at hrequest
  unfold flights requests at hflight
  rw [hreq] at hpool hserials hrequest hflight
  refine ⟨?_, ?_, ?_, h.response, ?_, ?_, (fun _ _ _ heq => by cases heq), h.unborn,
    (fun heq => by cases heq), h.panic⟩
  · exact hpool.put (some dma)
  · exact hserials
  · intro f hf
    rcases List.mem_cons.mp hf with rfl | hf
    · rfl
    · exact hrequest f hf
  · intro f hf
    rcases List.mem_cons.mp hf with rfl | hf
    · exact ⟨rfl, (fun heq => by cases heq), htaken, rfl, hpat, hhist⟩
    · exact (hflight f hf).congr (fun _ _ => id) rfl
  · exact fun e he => (h.ended e he).congr (fun _ _ => id) rfl

theorem progress_answered {req resp : MemBus} (hmode : req.mode = .request)
    (h : req.Answers resp) : progress resp = progress req ++ [(resp.cmd, resp.mode)] := by
  unfold progress
  rw [if_neg h.1, if_pos hmode, h.2.1, List.append_nil]

/-- The packets in flight before and after an access is answered. -/
theorem flights_answer {i : Nat} {f : Flight} (hf : s.outbound[i]? = some f) :
    s.flights.Perm (f ::
      (s.request.outgoing ++ s.outbound.eraseIdx i ++ s.forward.outgoing ++ s.responses)) :=
  ((((perm_eraseIdx hf).append_left _).trans List.perm_middle).append_right _).append_right _

theorem flights_answered {i : Nat} {f : Flight} {resp : Packet MemBus}
    (hs : s' = { s with
      outbound := s.outbound.eraseIdx i, resps := s.resps ++ [{ f with pkt := resp }]
      log := s.log ++ [(f.serial, resp.payload)] }) :
    s'.flights.Perm ({ f with pkt := resp } ::
      (s.request.outgoing ++ s.outbound.eraseIdx i ++ s.forward.outgoing ++ s.responses)) := by
  rw [hs]
  refine (List.Perm.append_left _ ?_).trans List.perm_middle
  exact (List.perm_append_singleton _ _).append_right _

/-- An access gives way to its answer. -/
theorem Inv.answer (h : Inv n s) {i : Nat} {f : Flight} {resp : Packet MemBus}
    (hf : s.outbound[i]? = some f) (hans : f.pkt.payload.Answers resp.payload)
    (hs : s' = { s with
      outbound := s.outbound.eraseIdx i, resps := s.resps ++ [{ f with pkt := resp }]
      log := s.log ++ [(f.serial, resp.payload)] }) : Inv n s' := by
  have hflights := flights_answer hf
  have hf' := h.flight f (hflights.mem_iff.mpr List.mem_cons_self)
  have hreqs : s.requests.Perm (f ::
      (s.request.outgoing ++ s.outbound.eraseIdx i ++ s.forward.outgoing)) :=
    (((perm_eraseIdx hf).append_left _).trans List.perm_middle).append_right _
  have hmode := h.request f (hreqs.mem_iff.mpr List.mem_cons_self)
  have hhist := @history_append s s' f.serial resp.payload (by rw [hs])
  have hresps : s'.responses.Perm ({ f with pkt := resp } :: s.responses) := by
    rw [hs]
    exact (List.perm_append_singleton _ _).append_right _
  have hafter := flights_answered hs
  subst hs
  refine h.replaced f { f with pkt := resp } hflights hafter rfl rfl rfl rfl rfl rfl rfl
    ?_ ?_ ?_ ?_ rfl
  · intro k hk
    rw [hhist k, if_neg (Ne.symm hk), List.append_nil]
  · refine ⟨hans.2.2.2.trans hf'.stack, ?_, hf'.taken, hans.2.2.1.trans hf'.pattern, hf'.served,
      ?_⟩
    · rw [show resp.payload.cmd = f.pkt.payload.cmd from hans.2.1]
      exact hf'.cmd
    · rw [hhist, if_pos rfl, hf'.history]
      exact (progress_answered hmode hans).symm
  · exact fun g hg => h.request g (hreqs.mem_iff.mpr (List.mem_cons_of_mem _ hg))
  · intro g hg
    rcases List.mem_cons.mp (hresps.mem_iff.mp hg) with rfl | hg
    · exact hans.1
    · exact h.response g hg

/-- The packets in flight after an answer is turned into a write. -/
theorem flights_write {f : Flight} {pkt : Packet MemBus} (hfwd : s.forward = .received f)
    (hs : s' = { s with forward := .sendingMem { f with pkt } }) :
    s'.flights.Perm ({ f with pkt } :: (s.requests ++ s.resps)) := by
  rw [hs, requests_received hfwd]
  simp only [flights, requests, responses, ForwardStage.outgoing, ForwardStage.incoming,
    List.append_nil]
  exact (List.perm_append_singleton _ _).append_right _

/-- A read's answer gives way to the write. -/
theorem Inv.write (h : Inv n s) {f : Flight} {pkt : Packet MemBus}
    (hfwd : s.forward = .received f) (hcont : ¬ EndsTransfer f.pkt.payload)
    (hpay : pkt.payload = writeOf f) (hs : s' = { s with forward := .sendingMem { f with pkt } }) :
    Inv n s' := by
  have hsplit := flights_received hfwd
  have hf := h.flight f (hsplit.mem_iff.mpr List.mem_cons_self)
  have hreqs := requests_received hfwd
  have hm : f.pkt.payload.mode = .response := not_not.mp fun hne => hcont (Or.inl hne)
  have hc : f.pkt.payload.cmd = .read := not_not.mp fun hne => hcont (Or.inr hne)
  have hafter := flights_write hfwd hs
  subst hs
  refine h.replaced f { f with pkt } hsplit hafter rfl rfl rfl rfl rfl rfl
    (done_received hfwd).symm (fun _ _ => rfl) ?_ ?_ ?_ rfl
  · have hhist := hf.history
    unfold progress at hhist
    rw [hm, hc] at hhist
    refine ⟨?_, ?_, hf.taken, ?_, hf.served, ?_⟩
    · rw [hpay]
      exact hf.stack
    · rw [hpay]
      exact Command.noConfusion
    · rw [hpay]
      exact hf.pattern
    · unfold progress
      rw [hpay]
      exact hhist
  · intro g hg
    rcases List.mem_append.mp hg with hg | hg
    · exact h.request g (hreqs ▸ hg)
    · obtain rfl := List.mem_singleton.mp hg
      rw [hpay]
      rfl
  · intro g hg
    refine h.response g (List.mem_append_left _ ?_)
    simpa [responses, ForwardStage.incoming] using hg

/-- The packets in flight before a transfer ends. -/
theorem flights_ended {f : Flight} {pkt : Packet (DmaBus Addr)} (hfwd : s.forward = .received f)
    {inner : DmaInner}
    (hs : s' = { s with inner, forward := .sendingDma f.serial pkt }) :
    s.flights.Perm (f :: s'.flights) := by
  refine (flights_received hfwd).trans (List.Perm.of_eq ?_)
  rw [hs, requests_received hfwd]
  simp [flights, requests, responses, ForwardStage.outgoing, ForwardStage.incoming]

theorem Inv.end (h : Inv n s) {f : Flight} {pkt : Packet (DmaBus Addr)}
    (hfwd : s.forward = .received f) (hend : s.Ended f.serial pkt)
    (hs : s' = { s with
      inner := ⟨s.inner.availId ++ [f.token], s.inner.pktStore.set f.token none⟩
      forward := .sendingDma f.serial pkt }) : Inv n s' := by
  have hsplit := flights_ended hfwd hs
  subst hs
  refine h.finished f pkt hsplit rfl rfl rfl rfl ?_ hend ?_ ?_ rfl
  · rw [done_received hfwd]
    rfl
  · rw [requests_received hfwd]
    exact List.append_nil _
  · exact fun g hg => List.mem_append_left _ (by simpa [responses, ForwardStage.incoming] using hg)

theorem Change.inv {a : DmaAct} (hc : Change n uid s a s') (h : Inv n s) : Inv n s' := by
  cases hc with
  | moved hm => exact h.moved hm
  | recv token dma hreq hpat hs => exact hs ▸ h.recv hreq hpat
  | store token serial dma t pktUid hreq hs => exact hs ▸ h.store t pktUid hreq
  | answer i f resp ha hf hans hs => exact h.answer hf hans hs
  | write f pkt hfwd hcont hpay hs => exact h.write hfwd hcont hpay hs
  | ended f pkt hfwd hends hend hs => exact h.end hfwd hend hs

/-! ### Runs -/

theorem inv_step (h : Inv n s) {a : DmaAct} (hs : step uid s a = some s') : Inv n s' :=
  (h.change hs).inv h

theorem inv_run {acts : List DmaAct} (hrun : run (step uid) (init n) acts = some s) : Inv n s :=
  run_inv (fun _ _ _ h hs => inv_step h hs) (Inv.init n) hrun

/-- The tokens on the stacks of the packets in flight. -/
def tokens (s : DmaRun) : List Nat := s.flights.flatMap fun f => f.pkt.payload.xbarPort

theorem Inv.tokens_eq (h : Inv n s) : s.tokens = s.flights.map Flight.token := by
  unfold tokens
  rw [← List.flatMap_singleton' (s.flights.map Flight.token), List.flatMap_map]
  exact List.flatMap_congr fun f hf => (h.flight f hf).stack

/-- In every run the slots are partitioned, the store has a transfer at the tokens in flight,
nothing panics, every transfer is in flight or has ended, once and as its accesses did, and no more
packets are outstanding than there are slots. -/
theorem slots_partitioned {acts : List DmaAct}
    (hrun : run (step uid) (init n) acts = some s) :
    s.inner.availId.Nodup ∧
      (s.inner.availId ++ s.held ++ s.tokens).Perm (List.range n) ∧
      s.inner.pktStore.length = n ∧
      (∀ t, (∃ dma, s.inner.pktStore[t]? = some (some dma)) ↔ t ∈ s.tokens) ∧
      s.panic = none ∧
      (s.fresh ++ s.flights.map Flight.serial ++ s.done.map Prod.fst).Perm
        (List.range s.taken.length) ∧
      (∀ e ∈ s.done, s.Ended e.1 e.2) ∧
      s.outbound.length + s.resps.length ≤ n := by
  have h := inv_run hrun
  have hfst : (s.flights.map fun f => (f.token, some f.dma)).map Prod.fst = s.tokens := by
    rw [h.tokens_eq, List.map_map]
    rfl
  have hstored : ∀ t, (∃ dma, s.inner.pktStore[t]? = some (some dma)) ↔ t ∈ s.tokens := by
    intro t
    rw [← hfst, ← h.pool.stored_iff (by simp)]
    constructor
    · rintro ⟨dma, hdma⟩
      exact ⟨some dma, hdma, by simp⟩
    · rintro ⟨x, hx, hne⟩
      obtain ⟨dma, rfl⟩ := Option.ne_none_iff_exists'.mp hne
      exact ⟨dma, hx⟩
  have hlen := h.pool.length_le
  have hsum : s.outbound.length + s.resps.length ≤ s.flights.length := by
    simp only [flights, requests, responses, List.length_append]
    omega
  refine ⟨h.pool.nodup_avail, ?_, h.pool.length, hstored, h.panic, h.serials, h.ended, ?_⟩
  · rw [← hfst]
    exact h.pool.slots
  · rw [List.length_map] at hlen
    omega

/-- A transfer of one byte on a Dma with one slot. -/
def oneTransfer : List DmaAct :=
  let dma : Packet (DmaBus Addr) := { uid := 0, payload := .new (.phys 0) (.phys 1) (.simple 1) }
  let readResp : MemBus :=
    { mode := .response, cmd := .read, addr := .phys 0, pattern := .simple 1, data := [7]
      xbarPort := [0] }
  let writeResp : MemBus := { readResp with cmd := .write, addr := .phys 1 }
  [.look, .takeSlot, .recv dma, .store {} 1, .send, .answer 0 { uid := 1, payload := readResp },
    .take 0, .forward {}, .sendMem, .answer 0 { uid := 1, payload := writeResp }, .take 0,
    .forward {}, .sendDma]

theorem oneTransfer_runs :
    ∃ s, run (step 0) (init 1) oneTransfer = some s ∧ s.answered.length = 1 := ⟨_, rfl, rfl⟩

theorem oneTransfer_slots : ∃ s, run (step 0) (init 1) oneTransfer = some s ∧
    s.answered.length = 1 ∧ s.inner.availId.Nodup ∧
      (s.inner.availId ++ s.held ++ s.tokens).Perm (List.range 1) ∧
      s.inner.pktStore.length = 1 ∧
      (∀ t, (∃ dma, s.inner.pktStore[t]? = some (some dma)) ↔ t ∈ s.tokens) ∧
      s.panic = none ∧
      (s.fresh ++ s.flights.map Flight.serial ++ s.done.map Prod.fst).Perm
        (List.range s.taken.length) ∧
      (∀ e ∈ s.done, s.Ended e.1 e.2) ∧
      s.outbound.length + s.resps.length ≤ 1 := by
  obtain ⟨s, hrun, hlen⟩ := oneTransfer_runs
  exact ⟨s, hrun, hlen, slots_partitioned hrun⟩

end DmaRun

end Ra2m
