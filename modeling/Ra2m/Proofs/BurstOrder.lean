/-
What a burst makes of the order of its packets.

Both burst sends pop their vector from its end, so the channel gets the packets in
the reverse order, and only a burst of at most one packet keeps its own.  The
responses are sorted by uid on the way back and look as if the order had been kept.
A memory that serves requests as they arrive has served them backwards: the outcome
is that of issuing the requests one after another exactly when the burst returns at all
and the order of the requests does not show on that memory.
-/
import Ra2m.Sim.WaitBurst
import Ra2m.Proofs.BurstFlow
import Ra2m.Proofs.Response
import Ra2m.Lib.Accesses

namespace Ra2m

/-! ### The order in the channel -/

section

variable {T ε : Type}

/-- A list without duplicates that is its own reverse has at most one element. -/
theorem reverse_eq_self_iff {α : Type} {l : List α} (h : l.Nodup) :
    l.reverse = l ↔ l.length ≤ 1 := by
  constructor
  · intro hrev
    cases l with
    | nil => simp
    | cons a rest =>
        by_contra hlen
        have hlast : (a :: rest).getLast? = some a := by
          rw [← List.head?_reverse, hrev]
          rfl
        have hmem : a ∈ rest := by
          cases rest with
          | nil => simp at hlen
          | cons b rest' =>
              rw [List.getLast?_cons_cons] at hlast
              exact List.mem_of_getLast? hlast
        exact (List.nodup_cons.mp h).1 hmem
  · intro hlen
    match l, hlen with
    | [], _ => rfl
    | [a], _ => rfl

theorem sendPktBurst_order_iff [TxStatus T ε] {vec : List (Packet T)}
    (hnew : (vec.map Packet.uid).Nodup)
    (hcheck : ∀ p ∈ vec, TxStatus.txCheck p.payload = .ok ()) (tx : List (Packet T)) :
    MasterPort.sendPktBurst tx vec = (.ok (), tx ++ vec) ↔ vec.length ≤ 1 := by
  rw [MasterPort.sendPktBurst_of_ok hcheck, Prod.mk.injEq, List.append_right_inj]
  simp only [true_and]
  exact reverse_eq_self_iff (List.Nodup.of_map _ hnew)

theorem fwdPktBurst_order_iff {vec : List (Packet T)} (hnew : (vec.map Packet.uid).Nodup)
    (tx : List (Packet T)) : MasterPort.fwdPktBurst tx vec = tx ++ vec ↔ vec.length ≤ 1 := by
  rw [MasterPort.fwdPktBurst_eq, List.append_right_inj]
  exact reverse_eq_self_iff (List.Nodup.of_map _ hnew)

/-! ### The order of the responses -/

variable {R : Type}

/-- The packets come in the order of their uids. -/
def SortedByUid (l : List (Packet T × R)) : Prop := l.Pairwise fun x y => x.1.uid < y.1.uid

/-- Whatever order packets with different uids are inserted in, they end up sorted. -/
theorem foldl_insertByUid {l sorted : List (Packet T × R)} (hs : SortedByUid sorted)
    (hperm : l.Perm sorted) : l.foldl (fun acc e => insertByUid e acc) [] = sorted := by
  have hne : l.Pairwise fun x y => x.1.uid ≠ y.1.uid :=
    (hs.imp fun h => Nat.ne_of_lt h).perm hperm.symm fun h => h.symm
  rw [foldl_insertByUid_eq]
  have hinserted : (Cursor.insertAll (fun x => x.1.uid) l []).Perm l := Cursor.insertAll_perm l []
  exact Cursor.eq_of_increasing (hinserted.trans hperm)
    (Cursor.insertAll_increasing List.Pairwise.nil hne) hs

end

/-! ### A memory behind the port -/

namespace NpRam

/-- The access to the memory a request asks for. -/
def accessOf (req : MemBus) : Access UInt8 :=
  match req.subrangeAddr, req.pattern, req.cmd with
  | .phys addr, .simple d, .read => .read addr d
  | .phys addr, .simple _, .write => .write addr req.data
  | _, _, _ => .read 0 0

/-- A read or a write that a memory of the given size can serve, as a master sends it. -/
structure Served (size : Nat) (pkt : Packet MemBus) : Prop where
  sid : pkt.sid = none
  mode : pkt.payload.mode = .request
  access : ∃ addr d, pkt.payload.subrangeAddr = .phys addr ∧ pkt.payload.pattern = .simple d ∧
    addr + d ≤ size ∧
    (pkt.payload.cmd = .read ∨ pkt.payload.cmd = .write ∧ pkt.payload.data.length = d)

theorem Served.txCheck {size : Nat} {pkt : Packet MemBus} (h : Served size pkt) :
    TxStatus.txCheck pkt.payload = .ok () := MemBus.txCheck_eq_ok_iff.mpr h.mode

theorem Served.inRange {size : Nat} {pkt : Packet MemBus} (h : Served size pkt) :
    (accessOf pkt.payload).InRange size := by
  obtain ⟨addr, d, hsub, hpat, hin, hcmd | ⟨hcmd, hdata⟩⟩ := h.access
  · simp only [accessOf, hsub, hpat, hcmd, Access.InRange]
    exact hin
  · simp only [accessOf, hsub, hpat, hcmd, Access.InRange, hdata]
    exact hin

/-- A served request is answered with what its access returns, on the memory the access leaves. -/
theorem handleRequest_served (t : Timing) {self : NpRam} {pkt : Packet MemBus}
    (h : Served self.memory.length pkt) :
    ∃ delay resp, handleRequest t self pkt.payload = .ok (some delay, resp,
        { self with memory := (accessOf pkt.payload).step self.memory }) ∧
      resp.mode = .response ∧
      resp.data = pkt.payload.data ++ (accessOf pkt.payload).result self.memory := by
  obtain ⟨addr, d, hsub, hpat, hin, hcmd | ⟨hcmd, hdata⟩⟩ := h.access
  · obtain ⟨delay, resp, heq, hmode, hresp⟩ := handleRequest_read t self hsub hpat hcmd hin
    refine ⟨delay, resp, ?_, hmode, ?_⟩
    · simp only [accessOf, hsub, hpat, hcmd, Access.step]
      exact heq
    · simp only [accessOf, hsub, hpat, hcmd, Access.result]
      exact hresp
  · obtain ⟨delay, resp, heq, hmode⟩ := handleRequest_write t self hsub hpat hcmd hdata hin
    refine ⟨delay, resp, ?_, hmode, ?_⟩
    · simp only [accessOf, hsub, hpat, hcmd, Access.step]
      exact heq
    · simp only [accessOf, hsub, hpat, hcmd, Access.result, List.append_nil]
      exact handleRequest_data heq hcmd

/-- The responses to served requests: one for each, answered, with the data its access returned. -/
structure Answers (reqs resps : List (Packet MemBus)) (results : List (List UInt8)) : Prop where
  uid : resps.map Packet.uid = reqs.map Packet.uid
  ok : ∀ r ∈ resps, r.sid = none ∧ r.payload.mode = .response
  data : resps.map (fun r => r.payload.data) =
    List.zipWith (· ++ ·) (reqs.map fun r => r.payload.data) results

theorem responseLayer_served (calls : List Timing) (self : NpRam) (reqs tx : List (Packet MemBus))
    (hcalls : calls.length = reqs.length) (h : ∀ p ∈ reqs, Served self.memory.length p) :
    ∃ ress resps ram, responseLayer calls self ⟨reqs, tx⟩ = .ok (ress, ⟨[], tx ++ resps⟩, ram) ∧
      ram.memory = (Access.serve self.memory (reqs.map fun p => accessOf p.payload)).2 ∧
      Answers reqs resps
        (Access.serve self.memory (reqs.map fun p => accessOf p.payload)).1 := by
  induction reqs generalizing calls self tx with
  | nil =>
      obtain rfl : calls = [] := List.length_eq_zero_iff.mp hcalls
      exact ⟨[], [], self, by rw [responseLayer, List.append_nil], rfl, ⟨rfl, by simp, rfl⟩⟩
  | cons p rest ih =>
      obtain ⟨t, calls, rfl⟩ := List.exists_cons_of_length_eq_add_one hcalls
      have hp := h p (by simp)
      obtain ⟨delay, resp, heq, hmode, hdata⟩ := handleRequest_served t hp
      obtain ⟨r, hsent, huid, hsid, hpay⟩ :=
        forgeResp_sent hp.txCheck heq (MemBus.rxCheck_eq_ok_iff.mpr hmode) tx
      have hlen := Access.length_step hp.inRange
      obtain ⟨ress, resps, ram, hrun, hmem, hans⟩ := ih calls
        { self with memory := (accessOf p.payload).step self.memory } (tx ++ [r])
        (by simpa using hcalls) (fun q hq => by rw [hlen]; exact h q (by simp [hq]))
      refine ⟨.ok () :: ress, r :: resps, ram, ?_, hmem, ?_⟩
      · unfold responseLayer ReqRespPort.waitReqForgeResp
        simp only [bind, Except.bind, hsent, hrun]
        rw [List.append_assoc]
        rfl
      · refine ⟨?_, ?_, ?_⟩
        · rw [List.map_cons, List.map_cons, huid, hans.uid]
        · intro q hq
          rcases List.mem_cons.mp hq with rfl | hq
          · rw [hsid, hpay]
            exact ⟨hp.sid, hmode⟩
          · exact hans.ok q hq
        · rw [List.map_cons, hans.data, hpay, hdata]
          rfl

theorem serve_served (calls : List Timing) (self : NpRam) (reqs : List (Packet MemBus))
    (hcalls : reqs.length ≤ calls.length) (h : ∀ p ∈ reqs, Served self.memory.length p) :
    ∃ resps ram, serve (calls, self) reqs = .ok (resps, (calls.drop reqs.length, ram)) ∧
      ram.memory = (Access.serve self.memory (reqs.map fun p => accessOf p.payload)).2 ∧
      Answers reqs resps
        (Access.serve self.memory (reqs.map fun p => accessOf p.payload)).1 := by
  obtain ⟨ress, resps, ram, hrun, hmem, hans⟩ :=
    responseLayer_served (calls.take reqs.length) self reqs []
      (by rw [List.length_take]; omega) h
  refine ⟨resps, ram, ?_, hmem, hans⟩
  unfold serve
  simp only [bind, Except.bind, hrun, List.nil_append]

/-! ### A burst -/

/-- The closure of the response layer, with the timing of each call. -/
def handleNth (calls : Nat → Timing) (self : Nat × NpRam) (req : MemBus) :
    Exec (Option Tick × MemBus × (Nat × NpRam)) := do
  let (delay, req, ram) ← handleRequest (calls self.1) self.2 req
  .ok (delay, req, (self.1 + 1, ram))

variable {calls : Nat → Timing}

theorem forgeResp_served (calls : Nat → Timing) {self : Nat × NpRam} {p : Packet MemBus}
    (h : Served self.2.memory.length p) :
    ∃ (res : Except MemBusError Unit) (r : Packet MemBus),
      forgeResp (handleNth calls) self p [] = .ok (res, [r], (self.1 + 1,
        { self.2 with memory := (accessOf p.payload).step self.2.memory })) ∧
      r.uid = p.uid ∧ r.sid = none ∧ r.payload.mode = .response ∧
      r.payload.data = p.payload.data ++ (accessOf p.payload).result self.2.memory := by
  obtain ⟨delay, resp, heq, hmode, hdata⟩ := handleRequest_served (calls self.1) h
  have hnth : handleNth calls self p.payload = .ok (some delay, resp, (self.1 + 1,
      { self.2 with memory := (accessOf p.payload).step self.2.memory })) := by
    unfold handleNth
    simp only [heq, bind, Except.bind]
  obtain ⟨r, hsent, huid, hsid, hpay⟩ :=
    forgeResp_sent h.txCheck hnth (MemBus.rxCheck_eq_ok_iff.mpr hmode) []
  refine ⟨.ok (), r, hsent, huid, ?_, ?_, ?_⟩
  · rw [hsid]
    exact h.sid
  · rw [hpay]
    exact hmode
  · rw [hpay]
    exact hdata

theorem answersAll_served {size : Nat} {burst : List (Packet MemBus)}
    (h : ∀ p ∈ burst, Served size p) :
    BurstRun.AnswersAll (handleNth calls) (fun self => self.2.memory.length = size) burst := by
  intro p hp self hsize
  have hserved : Served self.2.memory.length p := hsize.symm ▸ h p hp
  obtain ⟨res, r, hforge, -⟩ := forgeResp_served calls hserved
  exact ⟨res, r, _, hforge, (Access.length_step hserved.inRange).trans hsize⟩

/-- Answered one after another, the requests get what their accesses return, and leave the memory
as their accesses do. -/
theorem answers_of_serves {self : Nat × NpRam} {reqs out : List (Packet MemBus)}
    {srv : Nat × NpRam} (hserves : BurstRun.Serves (handleNth calls) self reqs out srv)
    (h : ∀ p ∈ reqs, Served self.2.memory.length p) :
    srv.2.memory = (Access.serve self.2.memory (reqs.map fun p => accessOf p.payload)).2 ∧
      Answers reqs out
        (Access.serve self.2.memory (reqs.map fun p => accessOf p.payload)).1 := by
  induction hserves with
  | nil => exact ⟨rfl, ⟨rfl, by simp, rfl⟩⟩
  | @snoc done out s s' p resp res hserves hp ih =>
      obtain ⟨hmem, hans⟩ := ih fun q hq => h q (List.mem_append_left _ hq)
      have hrange : ∀ x ∈ done.map fun p => accessOf p.payload, x.InRange self.2.memory.length := by
        intro x hx
        obtain ⟨q, hq, rfl⟩ := List.mem_map.mp hx
        exact (h q (List.mem_append_left _ hq)).inRange
      have hlen : s.2.memory.length = self.2.memory.length := by
        rw [hmem]
        exact Access.length_serve hrange
      have hserved : Served s.2.memory.length p := hlen.symm ▸ h p (by simp)
      obtain ⟨res', r, hforge, huid, hsid, hmode, hdata⟩ := forgeResp_served calls hserved
      rw [hp] at hforge
      obtain ⟨hout, hs'⟩ := Prod.mk.inj (Prod.mk.inj (Except.ok.inj hforge)).2
      obtain ⟨rfl, -⟩ := List.cons.inj hout
      rw [hmem] at hdata
      rw [List.map_append, List.map_singleton, Access.serve_append]
      refine ⟨?_, ?_, ?_, ?_⟩
      · rw [hs', hmem]
        rfl
      · rw [List.map_append, List.map_append, hans.uid, List.map_singleton, huid]
        rfl
      · intro q hq
        rcases List.mem_append.mp hq with hq | hq
        · exact hans.ok q hq
        · obtain rfl := List.mem_singleton.mp hq
          exact ⟨hsid, hmode⟩
      · rw [List.map_append, List.map_append, List.zipWith_append (by simp [Access.length_results]),
          hans.data, List.map_singleton, List.map_singleton, hdata]
        rfl

/-- The responses of a burst with increasing uids are returned in its order. -/
theorem collected_answers {burst out : List (Packet MemBus)} {results : List (List UInt8)}
    (huid : (burst.map Packet.uid).Pairwise (· < ·)) (hans : Answers burst.reverse out results)
    (hlen : results.length = burst.length) :
    (BurstRun.collected out).map
        (fun e => e.2.map fun _ => e.1.payload.data) =
      (List.zipWith (· ++ ·) (burst.map fun r => r.payload.data) results.reverse).map .ok := by
  -- Their uids are those of the burst backwards, so sorting turns them around.
  have hsorted : SortedByUid (out.reverse.map fun r =>
      (r, (SlavePort.checkStatus r : Except (PktFailure MemBusError) Unit))) := by
    have hrev : out.reverse.map Packet.uid = burst.map Packet.uid := by
      rw [List.map_reverse, hans.uid, List.map_reverse, List.reverse_reverse]
    rw [← hrev, List.pairwise_map] at huid
    exact List.pairwise_map.mpr huid
  have hcollected : BurstRun.collected out =
      out.reverse.map fun r => (r, SlavePort.checkStatus r) := by
    unfold BurstRun.collected
    rw [← foldl_insertByUid hsorted ((List.reverse_perm out).symm.map _), List.foldl_map]
  -- Every response passes the checks.
  have hok : ∀ r ∈ out.reverse,
      (SlavePort.checkStatus r : Except (PktFailure MemBusError) Unit).map
        (fun _ => r.payload.data) = .ok r.payload.data := by
    intro r hr
    obtain ⟨hsid, hmode⟩ := hans.ok r (List.mem_reverse.mp hr)
    unfold SlavePort.checkStatus
    rw [hsid]
    simp only [MemBus.rxCheck_eq_ok_iff.mpr hmode]
    rfl
  have hzip := congrArg List.reverse hans.data
  rw [List.reverse_zipWith (by simp [hlen]), ← List.map_reverse, ← List.map_reverse,
    List.reverse_reverse] at hzip
  rw [hcollected, List.map_map]
  refine (List.map_congr_left hok).trans ?_
  rw [← hzip, List.map_map]
  rfl

section

variable {c : Nat} {pos : 0 < c} {self : NpRam} {burst : List (Packet MemBus)}
  (h : ∀ p ∈ burst, Served self.memory.length p)

include h

/-- Issued as a burst with increasing uids, the requests are served from the last to the first and
their responses come in the order of the burst. -/
theorem burst_served (huid : (burst.map Packet.uid).Pairwise (· < ·))
    {resp : List (Packet MemBus × Except (PktFailure MemBusError) Unit)} {srv : Nat × NpRam}
    (hret : BurstRun.Returns (handleNth calls) (0, self) burst c pos resp srv) :
    burst.length ≤ 2 * c + 1 ∧
      srv.2.memory = (Access.serve self.memory
        (burst.map fun p => accessOf p.payload).reverse).2 ∧
      resp.map (fun e => e.2.map fun _ => e.1.payload.data) =
        (List.zipWith (· ++ ·) (burst.map fun r => r.payload.data)
          (Access.serve self.memory
            (burst.map fun p => accessOf p.payload).reverse).1.reverse).map .ok := by
  obtain ⟨hshort, out, hserves, rfl⟩ := BurstRun.serves_of_returns pos
    (I := fun self' => self'.2.memory.length = self.memory.length) rfl
    (fun p hp => (h p hp).txCheck) (answersAll_served h) hret
  obtain ⟨hmem, hans⟩ := answers_of_serves hserves fun p hp => h p (List.mem_reverse.mp hp)
  rw [List.map_reverse] at hmem hans
  exact ⟨hshort, hmem, collected_answers huid hans (by simp [Access.length_results])⟩

theorem burst_returns (calls : Nat → Timing) (hshort : burst.length ≤ 2 * c + 1) :
    ∃ (resp : List (Packet MemBus × Except (PktFailure MemBusError) Unit)) (srv : Nat × NpRam),
      BurstRun.Returns (handleNth calls) (0, self) burst c pos resp srv :=
  BurstRun.exists_returns pos (I := fun self' => self'.2.memory.length = self.memory.length) rfl
    (fun p hp => (h p hp).txCheck) (answersAll_served h) hshort

end

/-! ### One after another -/

/-- Issued one after another, the requests are served in their order. -/
theorem bReqRespEach_served (calls : List Timing) (self : NpRam) (reqs : List (Packet MemBus))
    (hcalls : reqs.length ≤ calls.length) (h : ∀ p ∈ reqs, Served self.memory.length p) :
    ∃ outs calls' ram, ReqRespPort.bReqRespEach serve (calls, self) reqs =
        .ok (some (outs, (calls', ram))) ∧
      ram.memory = (Access.serve self.memory (reqs.map fun p => accessOf p.payload)).2 ∧
      outs.map (fun res => res.map fun r => r.payload.data) =
        (List.zipWith (· ++ ·) (reqs.map fun r => r.payload.data)
          (Access.serve self.memory (reqs.map fun p => accessOf p.payload)).1).map .ok := by
  induction reqs generalizing calls self with
  | nil => exact ⟨[], calls, self, rfl, rfl, rfl⟩
  | cons p rest ih =>
      have hp := h p (by simp)
      obtain ⟨resps, ram, hrun, hmem, hans⟩ := serve_served calls self [p]
        (by simp at hcalls ⊢; omega) (by simpa using hp)
      obtain ⟨r, rfl⟩ := List.length_eq_one_iff.mp (by simpa using congrArg List.length hans.uid)
      have huid : r.uid = p.uid := by simpa using hans.uid
      have hdata : r.payload.data = p.payload.data ++ (accessOf p.payload).result self.memory := by
        exact (List.cons.inj hans.data).1
      obtain ⟨hsid, hmode⟩ := hans.ok r (by simp)
      have hstep : ram.memory = (accessOf p.payload).step self.memory := hmem
      have hlen := Access.length_step hp.inRange
      obtain ⟨outs, calls', ram', hrest, hmem', houts⟩ := ih (calls.drop [p].length) ram
        (by simp at hcalls ⊢; omega)
        fun q hq => by rw [hstep, hlen]; exact h q (by simp [hq])
      have hone : ReqRespPort.bReqResp (ε := MemBusError) serve (calls, self) p =
          .ok (some (.ok r, (calls.drop [p].length, ram))) := by
        unfold ReqRespPort.bReqResp
        rw [MasterPort.sendPkt_of_ok hp.txCheck]
        simp only [List.nil_append, bind, Except.bind, hrun]
        unfold SlavePort.waitPktEp SlavePort.waitPktEp.accept
        simp only [huid, if_true, MemBus.rxCheck_eq_ok_iff.mpr hmode, hsid]
      refine ⟨.ok r :: outs, calls', ram', ?_, ?_, ?_⟩
      · unfold ReqRespPort.bReqRespEach
        simp only [bind, Except.bind, hone, hrest]
      · rw [hmem', hstep]
        rfl
      · rw [List.map_cons, houts, hstep]
        show Except.ok r.payload.data :: _ = _
        rw [hdata]
        rfl

/-- Issued as a burst over channels of `c` packets and issued one after another, the requests leave
the memory with the same content and return the same data with the same status: the burst returns,
and whenever it does, it does so. -/
def SameOutcome (calls : Nat → Timing) (calls' : List Timing) (self : NpRam) (c : Nat)
    (pos : 0 < c) (burst : List (Packet MemBus)) : Prop :=
  ∃ outs calls'' ram,
    ReqRespPort.bReqRespEach serve (calls', self) burst = .ok (some (outs, (calls'', ram))) ∧
    (∃ resp srv, BurstRun.Returns (handleNth calls) (0, self) burst c pos resp srv) ∧
    ∀ resp srv, BurstRun.Returns (handleNth calls) (0, self) burst c pos resp srv →
      srv.2.memory = ram.memory ∧
      resp.map (fun e => e.2.map fun _ => e.1.payload.data) =
        outs.map fun res => res.map fun r => r.payload.data

theorem zipWith_append_inj {α : Type} (pre : List (List α)) {xs ys : List (List α)}
    (hx : pre.length = xs.length) (hy : pre.length = ys.length) :
    List.zipWith (· ++ ·) pre xs = List.zipWith (· ++ ·) pre ys ↔ xs = ys := by
  induction pre generalizing xs ys with
  | nil =>
      rw [List.length_eq_zero_iff.mp hx.symm, List.length_eq_zero_iff.mp hy.symm]
      simp
  | cons p rest ih =>
      obtain ⟨x, xs, rfl⟩ := List.exists_cons_of_length_eq_add_one hx.symm
      obtain ⟨y, ys, rfl⟩ := List.exists_cons_of_length_eq_add_one hy.symm
      simp only [List.zipWith_cons_cons, List.cons.injEq, List.append_right_inj]
      rw [ih (by simpa using hx) (by simpa using hy)]

/-- The burst has the outcome of its requests in order exactly when it fits the port and the order
does not show. -/
theorem sameOutcome_iff {calls' : List Timing} {self : NpRam} {c : Nat} {pos : 0 < c}
    {burst : List (Packet MemBus)} (hcalls' : burst.length ≤ calls'.length)
    (huid : (burst.map Packet.uid).Pairwise (· < ·))
    (h : ∀ p ∈ burst, Served self.memory.length p) :
    SameOutcome calls calls' self c pos burst ↔
      burst.length ≤ 2 * c + 1 ∧
        Access.OrderFree self.memory (burst.map fun p => accessOf p.payload) := by
  obtain ⟨outs, c₂, ram₂, heach, hmem₂, hdata₂⟩ := bReqRespEach_served calls' self burst hcalls' h
  have hrange : ∀ x ∈ burst.map fun p => accessOf p.payload, x.InRange self.memory.length := by
    intro x hx
    obtain ⟨p, hp, rfl⟩ := List.mem_map.mp hx
    exact (h p hp).inRange
  rw [← Access.serve_reverse_eq_iff hrange,
    ← zipWith_append_inj (burst.map fun r => r.payload.data) (by simp [Access.length_results])
    (by simp [Access.length_results])]
  have hok : Function.Injective (Except.ok : List UInt8 → Except (PktFailure MemBusError) _) :=
    fun _ _ heq => Except.ok.inj heq
  constructor
  · rintro ⟨outs', c₂', ram₂', he, ⟨resp, srv, hret⟩, hsame⟩
    rw [heach] at he
    simp only [Except.ok.injEq, Option.some.injEq, Prod.mk.injEq] at he
    obtain ⟨rfl, -, rfl⟩ := he
    obtain ⟨hshort, hmem₁, hdata₁⟩ := burst_served h huid hret
    obtain ⟨hmem, hdata⟩ := hsame resp srv hret
    rw [hdata₁, hdata₂] at hdata
    refine ⟨hshort, (List.map_injective_iff.mpr hok) hdata, ?_⟩
    rw [← hmem₁, ← hmem₂, hmem]
  · rintro ⟨hshort, hres, hmem⟩
    refine ⟨outs, c₂, ram₂, heach, burst_returns h calls hshort, ?_⟩
    intro resp srv hret
    obtain ⟨-, hmem₁, hdata₁⟩ := burst_served h huid hret
    exact ⟨by rw [hmem₁, hmem₂, hmem], by rw [hdata₁, hdata₂, hres]⟩

/-- A burst keeps the order of its packets exactly when there is at most one, and it has the outcome
of its requests issued one after another exactly when the port lets it through and their order does
not show. -/
theorem burst_keeps_order_iff {T ε : Type} [TxStatus T ε] {tx vec fwd : List (Packet T)}
    {calls : Nat → Timing} {calls' : List Timing} {ram : NpRam} {c : Nat} {pos : 0 < c}
    {burst : List (Packet MemBus)}
    (hvec : (vec.map Packet.uid).Nodup) (hcheck : ∀ p ∈ vec, TxStatus.txCheck p.payload = .ok ())
    (hfwd : (fwd.map Packet.uid).Nodup)
    (huid : (burst.map Packet.uid).Pairwise (· < ·))
    (hserved : ∀ p ∈ burst, Served ram.memory.length p)
    (hcalls' : burst.length ≤ calls'.length) :
    (MasterPort.sendPktBurst tx vec = (.ok (), tx ++ vec) ↔ vec.length ≤ 1) ∧
      (MasterPort.fwdPktBurst tx fwd = tx ++ fwd ↔ fwd.length ≤ 1) ∧
      (SameOutcome calls calls' ram c pos burst ↔
        burst.length ≤ 2 * c + 1 ∧
          Access.OrderFree ram.memory (burst.map fun p => accessOf p.payload)) :=
  ⟨sendPktBurst_order_iff hvec hcheck tx, fwdPktBurst_order_iff hfwd tx,
    sameOutcome_iff hcalls' huid hserved⟩

/-- A write of one byte and a read of it, created in this order. -/
def writeThenRead : List (Packet MemBus) :=
  [{ uid := 0, payload := MemBus.new 0 0 .write (.phys 0) (.simple 1) (some [7]) },
    { uid := 1, payload := MemBus.new 0 0 .read (.phys 0) (.simple 1) none }]

theorem writeThenRead_served : ∀ p ∈ writeThenRead, Served (new 0 1).memory.length p := by
  intro p hp
  simp only [writeThenRead, List.mem_cons, List.not_mem_nil, or_false] at hp
  rcases hp with rfl | rfl
  · exact ⟨rfl, rfl, 0, 1, rfl, rfl, by decide, .inr ⟨rfl, rfl⟩⟩
  · exact ⟨rfl, rfl, 0, 1, rfl, rfl, by decide, .inl rfl⟩

theorem burst_keeps_order_iff_writeThenRead :
    (MasterPort.sendPktBurst [] writeThenRead = (.ok (), [] ++ writeThenRead) ↔
        writeThenRead.length ≤ 1) ∧
      (MasterPort.fwdPktBurst [] writeThenRead = [] ++ writeThenRead ↔
        writeThenRead.length ≤ 1) ∧
      (SameOutcome (fun _ => {}) [{}, {}] (new 0 1) 1 Nat.one_pos writeThenRead ↔
        writeThenRead.length ≤ 2 * 1 + 1 ∧
          Access.OrderFree (new 0 1).memory (writeThenRead.map fun p => accessOf p.payload)) :=
  burst_keeps_order_iff (by decide) (fun p hp => (writeThenRead_served p hp).txCheck) (by decide)
    (by decide) writeThenRead_served (by decide)

/-- On a fresh memory the read of the burst is served first and misses the write. -/
theorem writeThenRead_out_of_order :
    MasterPort.sendPktBurst [] writeThenRead ≠ (.ok (), writeThenRead) ∧
      MasterPort.fwdPktBurst [] writeThenRead ≠ writeThenRead ∧
      ¬ SameOutcome (fun _ => {}) [{}, {}] (new 0 1) 1 Nat.one_pos writeThenRead := by
  refine ⟨?_, ?_, ?_⟩
  · rw [MasterPort.sendPktBurst_of_ok fun p hp => (writeThenRead_served p hp).txCheck]
    decide
  · rw [MasterPort.fwdPktBurst_eq]
    decide
  · rw [sameOutcome_iff (by decide) (by decide) writeThenRead_served]
    rintro ⟨-, hfree⟩
    have hread := hfree.reads [.write 0 [7]] (.read 0 1) [] rfl 0 ⟨le_refl 0, by decide⟩
    revert hread
    decide

end NpRam

end Ra2m
