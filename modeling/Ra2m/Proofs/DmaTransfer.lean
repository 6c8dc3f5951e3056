/-
What a transfer does to the memories.

The answer of a read travels on as the write: the packet, its data and its entry on
the route stack are the same.  An access in flight therefore always carries what its
transfer has done so far: nothing, the bytes its read found, or those bytes written.
That is `Carrying`; the steps of the Dma keep it because they move packets whole, and
an access of one transfer leaves the record of the others alone.
-/
import Ra2m.Cpn.DmaSystem
import Ra2m.Proofs.DmaSlots

namespace Ra2m

open Runs

/-- The sub-range an access starts from is the physical side of its address. -/
theorem MemBus.updateSubrange_eq_phys_iff (self : MemBus) {p : Nat} :
    self.updateSubrange.subrangeAddr = .phys p ↔ self.addr.phys? = some p := by
  refine ⟨?_, updateSubrange_phys⟩
  unfold updateSubrange Addr.phys?
  cases self.addr with
  | phys q => exact fun h => congrArg some (SubRangeAddr.phys.inj h)
  | physVirt q v => exact fun h => congrArg some (SubRangeAddr.phys.inj h)
  | _ => exact fun h => by cases h

namespace DmaSystem

variable {n uid : Nat} {route : Nat → Nat × Nat} {s s' : DmaSystem}

/-- The transfer's read was served, and `data` is what it found. -/
def HasRead (route : Nat → Nat × Nat) (s : DmaSystem) (serial : Nat) (dma : DmaBus Addr)
    (data : List UInt8) : Prop :=
  ∃ p d, dma.readFrom.phys? = some p ∧ dma.pattern = .simple d ∧
    RamAccess.Fetched (s.made serial) (route p) d data

/-- The transfer's read and write were served, nothing else was done for it, and the write put at
the destination the bytes the read found at the source. -/
def Transferred (route : Nat → Nat × Nat) (s : DmaSystem) (serial : Nat) (dma : DmaBus Addr) :
    Prop :=
  ∃ p q d, dma.readFrom.phys? = some p ∧ dma.writeTo.phys? = some q ∧ dma.pattern = .simple d ∧
    RamAccess.Copied (s.made serial) (route p) (route q) d

/-- What an access in flight has behind it. -/
inductive Carrying (route : Nat → Nat × Nat) (s : DmaSystem) (f : Flight) : Prop where
  | reading (hmode : f.pkt.payload.mode = .request) (hcmd : f.pkt.payload.cmd = .read)
      (hdata : f.pkt.payload.data = []) (hmade : s.made f.serial = [])
      (hsub : ∀ p, f.pkt.payload.subrangeAddr = .phys p → f.dma.payload.readFrom.phys? = some p)
  | read (hmode : f.pkt.payload.mode = .response) (hcmd : f.pkt.payload.cmd = .read)
      (hread : s.HasRead route f.serial f.dma.payload f.pkt.payload.data)
  | writing (hmode : f.pkt.payload.mode = .request) (hcmd : f.pkt.payload.cmd = .write)
      (hread : s.HasRead route f.serial f.dma.payload f.pkt.payload.data)
      (hsub : ∀ q, f.pkt.payload.subrangeAddr = .phys q → f.dma.payload.writeTo.phys? = some q)
  | written (hmode : f.pkt.payload.mode = .response) (hcmd : f.pkt.payload.cmd = .write)
      (hdone : s.Transferred route f.serial f.dma.payload)
  | failed (e : MemBusError) (hmode : f.pkt.payload.mode = .error e)

theorem Carrying.congr {f : Flight} (h : s.Carrying route f)
    (hmade : s'.made f.serial = s.made f.serial) : s'.Carrying route f := by
  cases h with
  | reading hmode hcmd hdata hm hsub => exact .reading hmode hcmd hdata (hmade.trans hm) hsub
  | read hmode hcmd hread =>
      refine .read hmode hcmd ?_
      unfold HasRead
      rw [hmade]
      exact hread
  | writing hmode hcmd hread hsub =>
      refine .writing hmode hcmd ?_ hsub
      unfold HasRead
      rw [hmade]
      exact hread
  | written hmode hcmd hdone =>
      refine .written hmode hcmd ?_
      unfold Transferred
      rw [hmade]
      exact hdone
  | failed e hmode => exact .failed e hmode

structure Inv (n : Nat) (route : Nat → Nat × Nat) (s : DmaSystem) : Prop where
  run : DmaRun.Inv n s.run
  flight : ∀ f ∈ s.run.flights, s.Carrying route f
  ended : ∀ e ∈ s.run.done, e.2.payload.mode = .response →
    ∃ dma, s.run.taken[e.1]? = some dma ∧ s.Transferred route e.1 dma.payload
  received : ∀ token serial dma, s.run.request = .received token serial dma → s.made serial = []
  unborn : ∀ k, s.run.taken.length ≤ k → s.made k = []

theorem Inv.init (n : Nat) (route : Nat → Nat × Nat) (rams : List NpRam) :
    Inv n route (DmaSystem.init n rams) := by
  refine ⟨DmaRun.Inv.init n, ?_, ?_, ?_, fun _ _ => rfl⟩
  · exact fun f hf => by cases hf
  · exact fun e he => by cases he
  · exact fun _ _ _ heq => by cases heq

/-- The read that a transfer starts with. -/
theorem carrying_forgeRead {t : Timing} {pktUid token serial : Nat} {dma : Packet (DmaBus Addr)}
    (hmade : s.made serial = []) : s.Carrying route
      ⟨serial, token, dma, Dma.forgeRead t uid pktUid token dma.payload⟩ := by
  refine .reading rfl rfl rfl hmade ?_
  intro p hp
  exact (MemBus.updateSubrange_eq_phys_iff
    { cmd := .read, addr := dma.payload.readFrom, pattern := dma.payload.pattern }).mp hp

/-- A transfer that ends in `Mode::Response` does so on its write's answer. -/
theorem Inv.transferred_of_ended (h : Inv n route s) {f : Flight} {pkt : Packet (DmaBus Addr)}
    (hf : f ∈ s.run.flights) (hresp : f.pkt.payload.mode ≠ .request)
    (hends : DmaRun.EndsTransfer f.pkt.payload) (hend : s.run.Ended f.serial pkt)
    (hmode : pkt.payload.mode = .response) :
    ∃ dma, s.run.taken[f.serial]? = some dma ∧ s.Transferred route f.serial dma.payload := by
  have hunder := h.run.flight f hf
  refine ⟨f.dma, hunder.taken, ?_⟩
  cases h.flight f hf with
  | reading hm => exact absurd hm hresp
  | read hm hc =>
      rcases hends with hne | hne
      · exact absurd hm hne
      · exact absurd hc hne
  | writing hm => exact absurd hm hresp
  | written _ _ hdone => exact hdone
  | failed e hm =>
      -- The record of the transfer ends with the failure, so its packet carries it.
      have hhist := hunder.history
      unfold DmaRun.progress at hhist
      rw [if_neg hresp, hm] at hhist
      obtain ⟨dma, -, ⟨-, hlog⟩ | ⟨e', hpkt, -⟩⟩ := hend
      · rw [hlog] at hhist
        have hlast := congrArg List.getLast? hhist
        rw [List.getLast?_append_cons] at hlast
        simp at hlast
      · rw [hpkt] at hmode
        cases hmode

/-- A step of the Dma other than an answer moves no byte. -/
theorem Inv.dma (h : Inv n route s) {a : DmaAct} {r : DmaRun}
    (hc : DmaRun.Change n uid s.run a r) (ha : ∀ i resp, a ≠ .answer i resp) :
    Inv n route { s with run := r } := by
  have hrun := hc.inv h.run
  cases hc with
  | moved hm =>
      refine ⟨hrun, ?_, ?_, ?_, ?_⟩
      · exact fun f hf => (h.flight f (hm.flights.mem_iff.mp hf)).congr rfl
      · intro e he hmode
        show ∃ dma, r.taken[e.1]? = some dma ∧ _
        rw [hm.taken]
        exact h.ended e (hm.done.mem_iff.mp he) hmode
      · exact fun token serial dma heq => h.received token serial dma
          (hm.received token serial dma heq)
      · intro k hk
        exact h.unborn k (hm.taken ▸ hk)
  | recv token dma hreq hpat hs =>
      subst hs
      have hflight := h.flight
      unfold DmaRun.flights DmaRun.requests at hflight
      rw [hreq] at hflight
      refine ⟨hrun, fun f hf => (hflight f hf).congr rfl, ?_, ?_, ?_⟩
      · intro e he hmode
        obtain ⟨d, hd, htr⟩ := h.ended e he hmode
        refine ⟨d, ?_, htr⟩
        exact (List.getElem?_append_left (List.getElem?_eq_some_iff.mp hd).1).trans hd
      · intro token' serial dma' heq
        obtain ⟨-, rfl, -⟩ := RequestStage.received.inj heq
        exact h.unborn _ (le_refl _)
      · intro k hk
        refine h.unborn k ?_
        simp only [List.length_append] at hk
        omega
  | store token serial dma t pktUid hreq hs =>
      subst hs
      have hflight := h.flight
      unfold DmaRun.flights DmaRun.requests at hflight
      rw [hreq] at hflight
      refine ⟨hrun, ?_, h.ended, (fun _ _ _ heq => by cases heq), h.unborn⟩
      intro f hf
      rcases List.mem_cons.mp hf with rfl | hf
      · exact carrying_forgeRead (h.received token serial dma hreq)
      · exact (hflight f hf).congr rfl
  | answer i f resp hact hf hans hs => exact absurd hact (ha i resp)
  | write f pkt hfwd hcont hpay hs =>
      have hafter := DmaRun.flights_write hfwd hs
      have hsplit := DmaRun.flights_received hfwd
      subst hs
      refine ⟨hrun, ?_, ?_, h.received, h.unborn⟩
      · intro g hg
        rcases List.mem_cons.mp (hafter.mem_iff.mp hg) with rfl | hg
        · have hread : s.HasRead route f.serial f.dma.payload f.pkt.payload.data := by
            have hm : f.pkt.payload.mode = .response := not_not.mp fun hne => hcont (Or.inl hne)
            have hc : f.pkt.payload.cmd = .read := not_not.mp fun hne => hcont (Or.inr hne)
            cases h.flight f (hsplit.mem_iff.mpr List.mem_cons_self) with
            | reading hmode => rw [hm] at hmode; cases hmode
            | read _ _ hread => exact hread
            | writing hmode => rw [hm] at hmode; cases hmode
            | written _ hcmd => rw [hc] at hcmd; cases hcmd
            | failed e hmode => rw [hm] at hmode; cases hmode
          refine .writing ?_ ?_ ?_ ?_
          · rw [hpay]
            rfl
          · rw [hpay]
            rfl
          · rw [hpay]
            exact hread
          · intro q hq
            rw [hpay] at hq
            exact (MemBus.updateSubrange_eq_phys_iff _).mp hq
        · exact (h.flight g (hsplit.mem_iff.mpr (List.mem_cons_of_mem _ hg))).congr rfl
      · intro e he
        exact h.ended e ((DmaRun.done_received hfwd).symm ▸ he)
  | ended f pkt hfwd hends hend hs =>
      have hsplit := DmaRun.flights_ended hfwd hs
      have hmem : f ∈ s.run.flights := hsplit.mem_iff.mpr List.mem_cons_self
      subst hs
      refine ⟨hrun, ?_, ?_, h.received, h.unborn⟩
      · exact fun g hg => (h.flight g (hsplit.mem_iff.mpr (List.mem_cons_of_mem _ hg))).congr rfl
      · intro e he hmode
        rcases List.mem_cons.mp he with rfl | he
        · exact h.transferred_of_ended hmem (DmaRun.response_received h.run hfwd) hends hend hmode
        · exact h.ended e ((DmaRun.done_received hfwd).symm ▸ he) hmode

/-- An access is answered: what it carries becomes what its answer carries, and the record of every
other transfer is as it was. -/
theorem Inv.answered (h : Inv n route s) {i : Nat} {f : Flight} {resp : Packet MemBus}
    {r : DmaRun} (hf : s.run.outbound[i]? = some f)
    (hs : DmaRun.step uid s.run (.answer i resp) = some r) (hr : s'.run = r)
    (hmade : ∀ k, k ≠ f.serial → s'.made k = s.made k)
    (hcarry : s.Carrying route f → s'.Carrying route { f with pkt := resp }) :
    Inv n route s' := by
  have hc := h.run.change hs
  have hrun : DmaRun.Inv n r := hc.inv h.run
  rw [DmaRun.step_eq h.run.panic] at hs
  simp only [DmaRun.act, hf] at hs
  split at hs
  · have hr' := (Option.some.inj hs).symm
    have hbefore := DmaRun.flights_answer hf
    have hafter := DmaRun.flights_answered hr'
    have hmem : f ∈ s.run.flights := hbefore.mem_iff.mpr List.mem_cons_self
    subst hr'
    refine ⟨hr ▸ hrun, ?_, ?_, ?_, ?_⟩
    · rw [hr]
      intro g hg
      rcases List.mem_cons.mp (hafter.mem_iff.mp hg) with rfl | hg
      · exact hcarry (h.flight f hmem)
      · exact (h.flight g (hbefore.mem_iff.mpr (List.mem_cons_of_mem _ hg))).congr
          (hmade _ (h.run.serial_ne hbefore g hg))
    · rw [hr]
      intro e he hmode
      obtain ⟨dma, hdma, htr⟩ := h.ended e he hmode
      refine ⟨dma, hdma, ?_⟩
      unfold Transferred
      rw [hmade _ (h.run.done_ne hmem e he)]
      exact htr
    · rw [hr]
      intro token serial dma heq
      have hne : serial ≠ f.serial := by
        refine h.run.fresh_ne hmem serial ?_
        unfold DmaRun.fresh
        rw [show s.run.request = .received token serial dma from heq]
        exact List.mem_cons_self
      rw [hmade serial hne]
      exact h.received token serial dma heq
    · rw [hr]
      intro k hk
      rw [hmade k fun heq =>
        absurd (h.run.serial_lt hmem) (by rw [← heq]; exact Nat.not_lt.mpr hk)]
      exact h.unborn k hk
  · cases hs

theorem made_append (s s' : DmaSystem) (a : RamAccess Nat)
    (h : s'.accesses = s.accesses ++ [a]) (k : Nat) :
    s'.made k = s.made k ++ if a.serial = k then [a] else [] := by
  unfold made
  rw [h]
  exact RamAccess.filter_concat s.accesses a k

/-- The memory serves an access of the Dma. -/
theorem Inv.serve (h : Inv n route s) {i : Nat} {t : Timing}
    (hs : step uid route s (.serve i t) = some s') : Inv n route s' := by
  simp only [step] at hs
  split at hs
  · cases hs
  rename_i f hf
  split at hs
  · cases hs
  rename_i p hsub
  split at hs
  · cases hs
  rename_i ram hram
  split at hs
  · cases hs
  rename_i delay resp ram' hreq
  obtain ⟨r, hr, rfl⟩ := Option.map_eq_some_iff.mp hs
  have hmade := made_append s ⟨r, s.rams.set (route p).1 ram', _⟩
    ⟨f.serial, (route p).1, resp.cmd, ram.memory, ram'.memory⟩ rfl
  have hmode : f.pkt.payload.mode = .request := by
    refine h.run.request f ?_
    exact List.mem_append_left _ (List.mem_append_right _ (List.mem_of_getElem? hf))
  refine h.answered hf hr rfl ?_ ?_
  · intro k hk
    rw [hmade, if_neg (Ne.symm hk), List.append_nil]
  · intro hcarry
    have hself := hmade f.serial
    rw [if_pos rfl] at hself
    have hcmd := (NpRam.handleRequest_keeps hreq).2.1
    have hpattern : f.pkt.payload.pattern = f.dma.payload.pattern := by
      refine (h.run.flight f ?_).pattern
      exact (DmaRun.flights_answer hf).mem_iff.mpr List.mem_cons_self
    cases hm : resp.mode with
    | request => exact absurd hm (NpRam.handleRequest_ne_request hreq)
    | error e => exact .failed e hm
    | response =>
        obtain ⟨_, d, -, hpat, -⟩ := NpRam.handleRequest_response hreq hm
        have hd : f.dma.payload.pattern = .simple d := hpattern ▸ hpat
        cases hcarry with
        | reading _ hc hdata hnone hread =>
            rw [hnone, List.nil_append] at hself
            refine .read hm (hcmd.trans hc) ⟨p, d, hread p hsub, hd, ?_⟩
            rw [hself]
            exact RamAccess.fetched_of_read hreq hm f.serial (route p).1 rfl hpat hc hdata
        | writing _ hc hread hwrite =>
            obtain ⟨q, d', hfrom, hd', hfetched⟩ := hread
            obtain rfl : d = d' := Pattern.simple.inj (hd.symm.trans hd')
            refine .written hm (hcmd.trans hc) ⟨q, p, d, hfrom, hwrite p hsub, hd, ?_⟩
            rw [hself]
            exact RamAccess.copied_of_write hreq hm f.serial (route p).1 rfl hc hfetched
        | read hm' => rw [hmode] at hm'; cases hm'
        | written hm' => rw [hmode] at hm'; cases hm'
        | failed e hm' => rw [hmode] at hm'; cases hm'

theorem inv_step (h : Inv n route s) {a : SystemAct} (hs : step uid route s a = some s') :
    Inv n route s' := by
  cases a with
  | dma a =>
      cases a with
      | answer i resp => cases hs
      | _ =>
          obtain ⟨r, hr, rfl⟩ := Option.map_eq_some_iff.mp hs
          exact h.dma (h.run.change hr) (by simp)
  | serve i t => exact h.serve hs
  | refuse i err =>
      simp only [step] at hs
      split at hs
      · cases hs
      rename_i f hf
      obtain ⟨r, hr, rfl⟩ := Option.map_eq_some_iff.mp hs
      exact h.answered hf hr rfl (fun _ _ => rfl) fun _ => .failed err rfl
  | other k t req =>
      simp only [step] at hs
      split at hs
      · cases hs
      split at hs
      · cases hs
      · obtain rfl := Option.some.inj hs
        exact ⟨h.run, fun f hf => (h.flight f hf).congr rfl, h.ended, h.received, h.unborn⟩

/-- Whatever else goes on in the memories, a transfer answered in `Mode::Response` was one read of
the source and one write of the bytes it found to the destination. -/
theorem answered_transferred {acts : List SystemAct} {rams : List NpRam}
    (hrun : Runs.run (step uid route) (init n rams) acts = some s) :
    ∀ e ∈ s.run.answered, e.2.payload.mode = .response →
      ∃ dma, s.run.taken[e.1]? = some dma ∧
        e.2 = dma.setPayload (dma.payload.setMode .response) ∧
        s.Transferred route e.1 dma.payload := by
  have h := run_inv (fun _ _ _ h hs => inv_step h hs) (Inv.init n route rams) hrun
  intro e he hmode
  have hdone : e ∈ s.run.done := List.mem_append_right _ he
  obtain ⟨dma, hdma, htr⟩ := h.ended e hdone hmode
  refine ⟨dma, hdma, ?_, htr⟩
  obtain ⟨dma', hdma', ⟨hpkt, -⟩ | ⟨err, hpkt, -⟩⟩ := h.run.ended e hdone
  · obtain rfl := Option.some.inj (hdma.symm.trans hdma')
    exact hpkt
  · rw [hpkt] at hmode
    cases hmode

/-- A byte moved inside one memory. -/
def oneByteMoved : List SystemAct :=
  let dma : Packet (DmaBus Addr) := { uid := 0, payload := .new (.phys 0) (.phys 1) (.simple 1) }
  [.dma .look, .dma .takeSlot, .dma (.recv dma), .dma (.store {} 1), .dma .send, .serve 0 {},
    .dma (.take 0), .dma (.forward {}), .dma .sendMem, .serve 0 {}, .dma (.take 0),
    .dma (.forward {}), .dma .sendDma]

theorem oneByteMoved_runs :
    ∃ s, Runs.run (step 0 fun p => (0, p)) (init 1 [⟨0, [7, 0]⟩]) oneByteMoved = some s ∧
      s.run.answered.length = 1 ∧ s.rams.map NpRam.memory = [[7, 7]] := ⟨_, rfl, rfl, rfl⟩

theorem oneByteMoved_transferred :
    ∃ s, Runs.run (step 0 fun p => (0, p)) (init 1 [⟨0, [7, 0]⟩]) oneByteMoved = some s ∧
      s.run.answered.length = 1 ∧
      ∀ e ∈ s.run.answered, e.2.payload.mode = .response →
        ∃ dma, s.run.taken[e.1]? = some dma ∧
          e.2 = dma.setPayload (dma.payload.setMode .response) ∧
          s.Transferred (fun p => (0, p)) e.1 dma.payload := by
  obtain ⟨s, hrun, hlen, -⟩ := oneByteMoved_runs
  exact ⟨s, hrun, hlen, answered_transferred hrun⟩

end DmaSystem

end Ra2m
