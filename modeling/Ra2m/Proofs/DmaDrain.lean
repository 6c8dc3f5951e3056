/-
Every transfer a Dma has received can be brought to its end.

The slots never stand in the way of a transfer that has one: wherever the layers are,
one of them can take a step for it, or the memory side can answer it.  `left` counts
the steps that are still to be made for all of them, and each of these steps makes it
smaller; only a new request would make it larger.
-/
import Ra2m.Proofs.DmaSlots
import Mathlib

namespace Ra2m

open Runs

namespace Flight

/-- The steps of the write, while it is still to come. -/
def toWrite (f : Flight) : Nat := if f.pkt.payload.cmd = .write then 0 else 5

end Flight

/-- The steps still to be made for what `request_layer` has in hand. -/
def RequestStage.left : RequestStage → Nat
  | .received _ _ _ => 13
  | .sending f => 7 + f.toWrite
  | _ => 0

/-- The steps still to be made for what `forward_layer` has in hand. -/
def ForwardStage.left : ForwardStage → Nat
  | .waiting => 0
  | .received f => 4 + f.toWrite
  | .sendingMem f => 7 + f.toWrite
  | .sendingDma _ _ => 2

namespace DmaRun

/-- The steps still to be made for the transfers received so far. -/
def left (s : DmaRun) : Nat :=
  s.request.left + (s.outbound.map fun f => 6 + f.toWrite).sum +
    (s.resps.map fun f => 5 + f.toWrite).sum + s.forward.left

variable {n uid : Nat} {s s' : DmaRun}

/-- A transfer that was received is not in flight any more. -/
def Drained (s : DmaRun) : Prop := s.fresh = [] ∧ s.flights = [] ∧ s.forward = .waiting

/-- A step for a transfer that was received: it takes no new one. -/
def Closer (uid : Nat) (s : DmaRun) : Prop :=
  ∃ a s', s.act uid a = some s' ∧ s'.taken = s.taken ∧ s'.left < s.left

theorem Inv.closer_forward (h : Inv n s) (hwait : s.forward ≠ .waiting) : Closer uid s := by
  cases hfwd : s.forward with
  | waiting => exact absurd hfwd hwait
  | received f =>
      obtain ⟨s', hs⟩ : ∃ s', s.act uid (.forward {}) = some s' := by
        simp only [act, hfwd]
        split
        · exact ⟨_, rfl⟩
        · exact ⟨_, rfl⟩
        · exact ⟨_, rfl⟩
      obtain ⟨g, hg, hcases⟩ := h.forward_cases hs
      obtain rfl := ForwardStage.received.inj (hfwd.symm.trans hg)
      refine ⟨_, s', hs, ?_⟩
      rcases hcases with ⟨hcont, pkt, hpay, rfl⟩ | ⟨hends, pkt, -, rfl⟩
      · refine ⟨rfl, ?_⟩
        -- The read is answered, and the write takes one step less.
        have hread : f.toWrite = 5 := by
          unfold Flight.toWrite
          rw [if_neg]
          intro hcmd
          exact hcont (Or.inr (by rw [hcmd]; simp))
        have hwrite : Flight.toWrite { f with pkt } = 0 := by
          unfold Flight.toWrite
          rw [if_pos]
          exact congrArg MemBus.cmd hpay
        unfold left ForwardStage.left
        simp only [hfwd, hread, hwrite]
        omega
      · refine ⟨rfl, ?_⟩
        unfold left ForwardStage.left
        simp only [hfwd]
        omega
  | sendingMem f =>
      refine ⟨.sendMem, { s with forward := .waiting, outbound := s.outbound ++ [f] }, ?_, rfl, ?_⟩
      · simp only [act, hfwd, h.txCheck_sendingMem hfwd]
      · unfold left ForwardStage.left
        simp only [hfwd, List.map_append, List.map_cons, List.map_nil, List.sum_append,
          List.sum_cons, List.sum_nil]
        omega
  | sendingDma serial pkt =>
      refine ⟨.sendDma, { s with forward := .waiting, answered := s.answered ++ [(serial, pkt)] },
        ?_, rfl, ?_⟩
      · simp only [act, hfwd]
      · unfold left ForwardStage.left
        simp only [hfwd]
        omega

theorem closer_take (hwait : s.forward = .waiting) {f : Flight} {rest : List Flight}
    (hresps : s.resps = f :: rest) : Closer uid s := by
  refine ⟨.take 0, { s with forward := .received f, resps := s.resps.eraseIdx 0 }, ?_, rfl, ?_⟩
  · simp only [act, hwait, hresps, List.getElem?_cons_zero]
  · unfold left ForwardStage.left
    simp only [hwait, hresps, List.eraseIdx_cons_zero, List.map_cons, List.sum_cons]
    omega

/-- The memory side can answer what it was sent. -/
theorem closer_answer {f : Flight} {rest : List Flight} (hout : s.outbound = f :: rest) :
    Closer uid s := by
  have hanswers : f.pkt.payload.Answers (f.pkt.payload.setMode .response) :=
    ⟨(fun heq => by cases heq), rfl, rfl, rfl⟩
  let resp := f.pkt.setPayload (f.pkt.payload.setMode .response)
  refine ⟨.answer 0 resp, { s with
    outbound := s.outbound.eraseIdx 0, resps := s.resps ++ [{ f with pkt := resp }]
    log := s.log ++ [(f.serial, resp.payload)] }, ?_, rfl, ?_⟩
  · simp only [act, hout, List.getElem?_cons_zero]
    exact if_pos hanswers
  · have hsame : Flight.toWrite { f with pkt := resp } = f.toWrite := rfl
    unfold left
    simp only [hout, List.eraseIdx_cons_zero, List.map_append, List.map_cons, List.map_nil,
      List.sum_append, List.sum_cons, List.sum_nil, hsame]
    omega

theorem Inv.closer_store (h : Inv n s) {token serial : Nat} {dma : Packet (DmaBus Addr)}
    (hreq : s.request = .received token serial dma) : Closer uid s := by
  refine ⟨.store {} 0, { s with
    inner := { s.inner with pktStore := s.inner.pktStore.set token (some dma) }
    request := .sending ⟨serial, token, dma, Dma.forgeRead {} uid 0 token dma.payload⟩ },
    ?_, rfl, ?_⟩
  · simp only [act, hreq, Dma.requestLayer_eq (h.received_lt hreq)]
  · unfold left RequestStage.left
    simp only [hreq]
    have hread : Flight.toWrite
        ⟨serial, token, dma, Dma.forgeRead {} uid 0 token dma.payload⟩ ≤ 5 := by
      unfold Flight.toWrite
      split
      · exact Nat.zero_le 5
      · exact le_refl 5
    omega

theorem Inv.closer_send (h : Inv n s) {f : Flight} (hreq : s.request = .sending f) :
    Closer uid s := by
  refine ⟨.send, { s with request := .seek, outbound := s.outbound ++ [f] }, ?_, rfl, ?_⟩
  · simp only [act, hreq, h.txCheck_sending hreq]
  · unfold left RequestStage.left
    simp only [hreq, List.map_append, List.map_cons, List.map_nil, List.sum_append,
      List.sum_cons, List.sum_nil]
    omega

/-- As long as a transfer is not at its end a step can be made for one. -/
theorem Inv.closer (h : Inv n s) (hdrained : ¬ s.Drained) : Closer uid s := by
  by_cases hwait : s.forward = .waiting
  · cases hresps : s.resps with
    | cons f rest => exact closer_take hwait hresps
    | nil =>
        cases hout : s.outbound with
        | cons f rest => exact closer_answer hout
        | nil =>
            cases hreq : s.request with
            | received token serial dma => exact h.closer_store hreq
            | sending f => exact h.closer_send hreq
            | _ =>
                refine absurd ⟨?_, ?_, hwait⟩ hdrained
                · unfold fresh
                  rw [hreq]
                  rfl
                · unfold flights requests responses
                  rw [hreq, hout, hresps, hwait]
                  rfl
  · exact h.closer_forward hwait

/-- From every state of a run there is a way on, without a new request, after which every transfer
that was received has been answered, once and as its accesses did. -/
theorem slots_drain {acts : List DmaAct} (hrun : run (step uid) (init n) acts = some s) :
    ∃ more s', run (step uid) s more = some s' ∧ s'.taken = s.taken ∧ s'.flights = [] ∧
      (s'.answered.map Prod.fst).Perm (List.range s.taken.length) ∧
      ∀ e ∈ s'.answered, s'.Ended e.1 e.2 := by
  have hcloser : ∀ s₁ : DmaRun, Inv n s₁ ∧ s₁.taken = s.taken → ¬ s₁.Drained →
      ∃ a s₂, step uid s₁ a = some s₂ ∧ (Inv n s₂ ∧ s₂.taken = s.taken) ∧ s₂.left < s₁.left := by
    rintro s₁ ⟨h, htaken⟩ hdrained
    have hnext : Closer uid s₁ := h.closer hdrained
    obtain ⟨a, s₂, hact, htaken₂, hlt⟩ := hnext
    rw [← step_eq h.panic] at hact
    exact ⟨a, s₂, hact, ⟨inv_step h hact, htaken₂.trans htaken⟩, hlt⟩
  obtain ⟨more, s', hmore, ⟨h, htaken⟩, hfresh, hflights, hwait⟩ :=
    exists_run_of_closer left hcloser ⟨inv_run hrun, rfl⟩
  have hdone : s'.done = s'.answered := by
    unfold done
    rw [hwait]
    rfl
  have hserials := h.serials
  rw [hfresh, hflights, hdone, htaken] at hserials
  exact ⟨more, s', hmore, htaken, hflights, hserials, hdone ▸ h.ended⟩

end DmaRun

end Ra2m
