/-
When a burst blocks its own responses.

The requester receives nothing before its last packet is sent, so until then the
responder can put no more responses on their channel than its capacity, and holds one
more in its hand.  Meanwhile the channel of the requests takes as many packets as it has
room for, and the requester holds one.  Both wait for each other once the responder has
that many responses and the requester that many packets left.

While the requester sends, the burst is, in the order it is sent, what the responder has
answered, what it has taken, what is in the channel and what is left; and every poll of
either process leaves less to do.
-/
import Ra2m.Sim.BurstRun
import Ra2m.Cpn.NpRam
import Ra2m.Lib.Runs
import Mathlib.Data.List.TakeWhile

namespace Ra2m

variable {T ε σ : Type} [TxStatus T ε] [RxStatus T ε]

/-! ### What is sent and what is answered -/

/-- The packets `send_pkt_burst` sends, in the order it takes them, up to one it refuses. -/
def sendable (pktBurst : List (Packet T)) : List (Packet T) :=
  pktBurst.reverse.takeWhile fun p => (TxStatus.txCheck p.payload : Except ε Unit).toBool

/-- What the responder answers to requests, one after another, until it panics. -/
def responses (forge : σ → T → Exec (Option Tick × T × σ)) : σ → List (Packet T) → List (Packet T)
  | _, [] => []
  | s, pkt :: rest =>
      match forgeResp forge s pkt [] with
      | .error _ => []
      | .ok (_, tx, s) => tx ++ responses forge s rest

section

variable {forge : σ → T → Exec (Option Tick × T × σ)}

/-- A request is answered at most once. -/
theorem forgeResp_cases {s s' : σ} {pkt : Packet T} {res : Except ε Unit} {tx : List (Packet T)}
    (h : forgeResp forge s pkt [] = .ok (res, tx, s')) : tx = [] ∨ ∃ resp, tx = [resp] := by
  rcases forgeResp_eq_ok h with ⟨-, -, htx⟩ | ⟨-, -, -, ⟨-, -, htx⟩ | ⟨resp, -, htx, -⟩⟩
  · exact .inl htx
  · exact .inl htx
  · exact .inr ⟨resp, htx⟩

/-- More requests are answered with no fewer responses. -/
theorem responses_length_le (s : σ) (reqs rest : List (Packet T)) :
    (responses forge s reqs).length ≤ (responses forge s (reqs ++ rest)).length := by
  induction reqs generalizing s with
  | nil => simp [responses]
  | cons pkt reqs ih =>
      rw [List.cons_append, responses, responses]
      split
      · exact Nat.le_refl _
      · rename_i s' _
        rw [List.length_append, List.length_append]
        exact Nat.add_le_add_left (ih s') _

/-- The requests of `done` are answered with `out`, which leaves the responder in `s`. -/
def Answered (forge : σ → T → Exec (Option Tick × T × σ)) (s₀ : σ) (done out : List (Packet T))
    (s : σ) : Prop :=
  ∀ rest, responses forge s₀ (done ++ rest) = out ++ responses forge s rest

theorem Answered.nil (s₀ : σ) : Answered forge s₀ [] [] s₀ := fun _ => rfl

theorem Answered.snoc {s₀ s s' : σ} {done out tx : List (Packet T)} {pkt : Packet T}
    {res : Except ε Unit} (h : Answered forge s₀ done out s)
    (hpkt : forgeResp forge s pkt [] = .ok (res, tx, s')) :
    Answered forge s₀ (done ++ [pkt]) (out ++ tx) s' := by
  intro rest
  rw [List.append_assoc, List.append_assoc, h]
  congr 1
  rw [List.singleton_append, responses, hpkt]

theorem Answered.length {s₀ s : σ} {done out : List (Packet T)} (h : Answered forge s₀ done out s) :
    (responses forge s₀ done).length = out.length := by
  have hdone := h []
  rw [List.append_nil, responses, List.append_nil] at hdone
  rw [hdone]

end

/-! ### While the requester sends -/

namespace BurstRun

/-- What is not in the channel yet, in the order it is sent; `none` once the loop has ended. -/
def unsent : BurstRequester T ε → Option (List (Packet T))
  | .sending pkt => some pkt.reverse
  | .checked p pkt => some (p :: pkt.reverse)
  | .blocked p pkt => some (p :: pkt.reverse)
  | _ => none

/-- What the responder has taken off the channel and not answered yet: nothing, or one request. -/
inductive InService (forge : σ → T → Exec (Option Tick × T × σ)) (s : σ) :
    σ → BurstResponder T → List (Packet T) → Prop
  | waiting : InService forge s s .waiting []
  | received (pkt : Packet T) : InService forge s s (.received pkt) [pkt]
  | forged {srv : σ} {x resp : Packet T} {res : Except ε Unit}
      (h : forgeResp forge s x [] = .ok (res, [resp], srv)) :
      InService forge s srv (.forged resp) [x]
  | blocked {srv : σ} {x resp : Packet T} {res : Except ε Unit}
      (h : forgeResp forge s x [] = .ok (res, [resp], srv)) :
      InService forge s srv (.blocked resp) [x]
  | panicked {srv : σ} {x : Packet T} {p : Panic} (h : forgeResp forge s x [] = .error p) :
      InService forge s srv (.panicked p) [x]

/-- The burst while the requester sends it: what is answered, what is in service, what is in the
channel and what is left. -/
structure Sending (forge : σ → T → Exec (Option Tick × T × σ)) (s₀ : σ) (burst : List (Packet T))
    (c : Nat) (s : BurstRun T ε σ) (done taken left : List (Packet T)) : Prop where
  order : burst.reverse = done ++ (taken ++ (s.req.items ++ left))
  unsent : unsent s.requester = some left
  /-- What is sent has been checked. -/
  sent : ∀ p ∈ done ++ (taken ++ s.req.items), TxStatus.txCheck p.payload = .ok ()
  checked : ∀ p pkt, s.requester = .checked p pkt ∨ s.requester = .blocked p pkt →
    TxStatus.txCheck p.payload = .ok ()
  served : ∃ s₁, Answered forge s₀ done s.resp.items s₁ ∧
    InService forge s₁ s.srv s.responder taken
  reqCap : s.req.capacity = c
  respCap : s.resp.capacity = c

/-- The polls that are left while the requester sends: each packet is checked, may block, enters the
channel, is taken off it and answered, and its response may block. -/
def work (s : BurstRun T ε σ) : Nat :=
  (match s.requester with
    | .sending pkt => 7 * pkt.length
    | .checked _ pkt => 7 * pkt.length + 6
    | .blocked _ pkt => 7 * pkt.length + 5
    | _ => 0) + 4 * s.req.items.length +
  (match s.responder with
    | .received _ => 3
    | .forged _ => 2
    | .blocked _ => 1
    | _ => 0)

section

variable {forge : σ → T → Exec (Option Tick × T × σ)} {s₀ : σ}
  {burst done taken left : List (Packet T)} {c : Nat} {s s' : BurstRun T ε σ}

theorem Sending.init (s₀ : σ) (burst : List (Packet T)) (c : Nat) (pos : 0 < c) :
    Sending forge s₀ burst c (init s₀ burst c pos : BurstRun T ε σ) [] [] burst.reverse where
  order := rfl
  unsent := rfl
  sent := by simp [BurstRun.init, BoundedQueue.empty]
  checked := by
    rintro p pkt (h | h)
    · cases h
    · cases h
  served := ⟨s₀, Answered.nil s₀, .waiting⟩
  reqCap := rfl
  respCap := rfl

/-- The packet in hand enters the channel. -/
theorem Sending.enter (h : Sending forge s₀ burst c s done taken left) {p : Packet T}
    {pkt : List (Packet T)} {req : BoundedQueue (Packet T)} (hleft : left = p :: pkt.reverse)
    (hp : TxStatus.txCheck p.payload = .ok ()) (hreq : s.req.trySend p = some req) :
    Sending forge s₀ burst c { s with requester := .sending pkt, req } done taken pkt.reverse := by
  obtain ⟨-, hitems, hcap⟩ := BoundedQueue.trySend_eq_some hreq
  refine ⟨?_, rfl, ?_, ?_, h.served, hcap.trans h.reqCap, h.respCap⟩
  · rw [hitems, h.order, hleft, List.append_assoc, List.singleton_append]
  · intro q hq
    rw [hitems] at hq
    rcases List.mem_append.mp (by simpa using hq : q ∈ (done ++ (taken ++ s.req.items)) ++ [p])
      with hq | hq
    · exact h.sent q hq
    · obtain rfl := List.mem_singleton.mp hq
      exact hp
  · rintro q vec (hq | hq)
    · cases hq
    · cases hq

theorem Sending.entered (h : Sending forge s₀ burst c s done taken left) {p : Packet T}
    {pkt : List (Packet T)} {req : BoundedQueue (Packet T)}
    (hreq : s.requester = .checked p pkt ∨ s.requester = .blocked p pkt)
    (hroom : s.req.trySend p = some req) :
    ∃ left', Sending forge s₀ burst c { s with requester := .sending pkt, req } done taken left' ∧
      ({ s with requester := .sending pkt, req } : BurstRun T ε σ).work < s.work := by
  have hunsent := h.unsent
  have hp := h.checked p pkt hreq
  obtain ⟨-, hitems, -⟩ := BoundedQueue.trySend_eq_some hroom
  rcases hreq with hreq | hreq
  · rw [hreq] at hunsent
    refine ⟨_, h.enter (Option.some.inj hunsent).symm hp hroom, ?_⟩
    simp only [work, hreq, hitems, List.length_append, List.length_singleton]
    omega
  · rw [hreq] at hunsent
    refine ⟨_, h.enter (Option.some.inj hunsent).symm hp hroom, ?_⟩
    simp only [work, hreq, hitems, List.length_append, List.length_singleton]
    omega

/-- The last packet of the vector is checked, unless there is none or it is refused. -/
theorem Sending.pollSending (h : Sending forge s₀ burst c s done taken left)
    {pkt : List (Packet T)} (hreq : s.requester = .sending pkt)
    (hs : s.pollRequester = some s') :
    (∃ left', Sending forge s₀ burst c s' done taken left' ∧ s'.work < s.work) ∨
      BurstRun.unsent s'.requester = none ∧
        ∀ p ∈ left.head?, (TxStatus.txCheck p.payload : Except ε Unit) ≠ .ok () := by
  have hunsent := h.unsent
  rw [hreq] at hunsent
  obtain rfl := Option.some.inj hunsent
  simp only [BurstRun.pollRequester, hreq] at hs
  split at hs
  · rename_i hlast
    obtain rfl := Option.some.inj hs
    obtain rfl := List.getLast?_eq_none_iff.mp hlast
    exact .inr ⟨rfl, by simp⟩
  · rename_i p hlast
    obtain ⟨pkt, rfl⟩ := List.getLast?_eq_some_iff.mp hlast
    split at hs
    · rename_i hcheck
      obtain rfl := Option.some.inj hs
      refine .inr ⟨rfl, ?_⟩
      intro q hq
      obtain rfl : p = q := by simpa using hq
      rw [hcheck]
      exact fun heq => by cases heq
    · rename_i hcheck
      obtain rfl := Option.some.inj hs
      refine .inl ⟨(pkt ++ [p]).reverse,
        ⟨h.order, ?_, h.sent, ?_, h.served, h.reqCap, h.respCap⟩, ?_⟩
      · simp [BurstRun.unsent]
      · rintro q vec (hq | hq)
        · obtain ⟨rfl, -⟩ := BurstRequester.checked.inj hq
          exact hcheck
        · cases hq
      · simp only [work, hreq, List.dropLast_concat, List.length_append, List.length_singleton]
        omega

/-- A poll of the requester leaves less to send, or ends the loop at the first packet that is
refused. -/
theorem Sending.pollRequester (h : Sending forge s₀ burst c s done taken left)
    (hs : s.pollRequester = some s') :
    (∃ left', Sending forge s₀ burst c s' done taken left' ∧ s'.work < s.work) ∨
      BurstRun.unsent s'.requester = none ∧
        ∀ p ∈ left.head?, (TxStatus.txCheck p.payload : Except ε Unit) ≠ .ok () := by
  have hunsent := h.unsent
  cases hreq : s.requester with
  | sending pkt => exact h.pollSending hreq hs
  | checked p pkt =>
      simp only [BurstRun.pollRequester, hreq] at hs
      split at hs
      · rename_i req hroom
        obtain rfl := Option.some.inj hs
        exact .inl (h.entered (.inl hreq) hroom)
      · obtain rfl := Option.some.inj hs
        rw [hreq] at hunsent
        refine .inl ⟨left, ⟨h.order, hunsent, h.sent, ?_, h.served, h.reqCap, h.respCap⟩, ?_⟩
        · rintro q vec (hq | hq)
          · cases hq
          · obtain ⟨rfl, -⟩ := BurstRequester.blocked.inj hq
            exact h.checked p pkt (.inl hreq)
        · simp only [work, hreq]
          omega
  | blocked p pkt =>
      simp only [BurstRun.pollRequester, hreq] at hs
      obtain ⟨req, hroom, rfl⟩ := Option.map_eq_some_iff.mp hs
      exact .inl (h.entered (.inr hreq) hroom)
  | receiving resp =>
      rw [hreq] at hunsent
      cases hunsent
  | returned resp =>
      rw [hreq] at hunsent
      cases hunsent
  | panicked p =>
      rw [hreq] at hunsent
      cases hunsent

/-- What the responder has in hand reaches the channel of the responses. -/
theorem Sending.answer (h : Sending forge s₀ burst c s done taken left) {s₁ : σ} {x r : Packet T}
    {res : Except ε Unit} {resp : BoundedQueue (Packet T)}
    (hdone : Answered forge s₀ done s.resp.items s₁) (htaken : taken = [x])
    (hx : forgeResp forge s₁ x [] = .ok (res, [r], s.srv)) (hresp : s.resp.trySend r = some resp) :
    Sending forge s₀ burst c { s with responder := .waiting, resp } (done ++ [x]) [] left := by
  obtain ⟨-, hitems, hcap⟩ := BoundedQueue.trySend_eq_some hresp
  refine ⟨?_, h.unsent, ?_, h.checked, ⟨s.srv, ?_, .waiting⟩, h.reqCap, hcap.trans h.respCap⟩
  · rw [h.order, htaken, List.append_assoc, List.nil_append]
  · intro q hq
    refine h.sent q ?_
    rw [htaken]
    simpa using hq
  · rw [hitems]
    exact hdone.snoc hx

theorem Sending.answered (h : Sending forge s₀ burst c s done taken left) {r : Packet T}
    {resp : BoundedQueue (Packet T)}
    (hresp : s.responder = .forged r ∨ s.responder = .blocked r)
    (hroom : s.resp.trySend r = some resp) :
    ∃ done' taken',
      Sending forge s₀ burst c { s with responder := .waiting, resp } done' taken' left ∧
      ({ s with responder := .waiting, resp } : BurstRun T ε σ).work < s.work := by
  obtain ⟨s₁, hdone, hservice⟩ := h.served
  rcases hresp with hresp | hresp
  · rw [hresp] at hservice
    cases hservice with
    | forged hx =>
        refine ⟨_, _, h.answer hdone rfl hx hroom, ?_⟩
        simp only [work, hresp]
        omega
  · rw [hresp] at hservice
    cases hservice with
    | blocked hx =>
        refine ⟨_, _, h.answer hdone rfl hx hroom, ?_⟩
        simp only [work, hresp]
        omega

/-- The responder takes a request off the channel. -/
theorem Sending.takes (h : Sending forge s₀ burst c s done taken left)
    (hresp : s.responder = .waiting) {pkt : Packet T} {req : BoundedQueue (Packet T)}
    (hrecv : s.req.tryRecv = some (pkt, req)) :
    ∃ done' taken', Sending forge s₀ burst c { s with responder := .received pkt, req }
        done' taken' left ∧
      ({ s with responder := .received pkt, req } : BurstRun T ε σ).work < s.work := by
  obtain ⟨s₁, hdone, hservice⟩ := h.served
  obtain ⟨hitems, hcap⟩ := BoundedQueue.tryRecv_eq_some hrecv
  have horder := h.order
  have hsent := h.sent
  rw [hresp] at hservice
  cases hservice
  refine ⟨done, [pkt], ⟨?_, h.unsent, ?_, h.checked, ⟨s.srv, hdone, .received pkt⟩,
    hcap.trans h.reqCap, h.respCap⟩, ?_⟩
  · rw [horder, hitems]
    rfl
  · rw [hitems] at hsent
    exact hsent
  · simp only [work, hresp, hitems, List.length_cons]
    omega

/-- The request is answered, or refused, or the closure panics. -/
theorem Sending.pollReceived (h : Sending forge s₀ burst c s done taken left) {pkt : Packet T}
    (hresp : s.responder = .received pkt) (hs : s.pollResponder forge = some s') :
    ∃ done' taken', Sending forge s₀ burst c s' done' taken' left ∧ s'.work < s.work := by
  obtain ⟨s₁, hdone, hservice⟩ := h.served
  have hframe : ∀ {srv : σ} {responder : BurstResponder T},
      InService forge s₁ srv responder taken →
      Sending forge s₀ burst c { s with responder, srv } done taken left :=
    fun hin => ⟨h.order, h.unsent, h.sent, h.checked, ⟨s₁, hdone, hin⟩, h.reqCap, h.respCap⟩
  rw [hresp] at hservice
  obtain ⟨rfl, hsrv⟩ : taken = [pkt] ∧ s₁ = s.srv := by
    cases hservice
    exact ⟨rfl, rfl⟩
  simp only [BurstRun.pollResponder, hresp, ← hsrv] at hs
  split at hs
  · rename_i p hforge
    obtain rfl := Option.some.inj hs
    refine ⟨done, [pkt], hframe (.panicked hforge), ?_⟩
    simp only [work, hresp]
    omega
  · rename_i res tx srv hforge
    split at hs
    · obtain rfl := Option.some.inj hs
      have hanswered := hdone.snoc hforge
      rw [List.append_nil] at hanswered
      refine ⟨done ++ [pkt], [], ⟨?_, h.unsent, ?_, h.checked, ⟨srv, hanswered, .waiting⟩,
        h.reqCap, h.respCap⟩, ?_⟩
      · rw [h.order, List.append_assoc, List.nil_append]
      · simpa using h.sent
      · simp only [work, hresp]
        omega
    · rename_i resp rest
      obtain rfl := Option.some.inj hs
      obtain rfl : rest = [] := by
        rcases forgeResp_cases hforge with hnil | ⟨r, hone⟩
        · cases hnil
        · exact (List.cons.inj hone).2
      refine ⟨done, [pkt], hframe (.forged hforge), ?_⟩
      simp only [work, hresp]
      omega

/-- A poll of the responder leaves less to answer, and does not touch the requester. -/
theorem Sending.pollResponder (h : Sending forge s₀ burst c s done taken left)
    (hs : s.pollResponder forge = some s') :
    ∃ done' taken', Sending forge s₀ burst c s' done' taken' left ∧ s'.work < s.work := by
  cases hresp : s.responder with
  | waiting =>
      simp only [BurstRun.pollResponder, hresp] at hs
      obtain ⟨⟨pkt, req⟩, hrecv, rfl⟩ := Option.map_eq_some_iff.mp hs
      exact h.takes hresp hrecv
  | received pkt => exact h.pollReceived hresp hs
  | forged r =>
      simp only [BurstRun.pollResponder, hresp] at hs
      split at hs
      · rename_i resp hroom
        obtain rfl := Option.some.inj hs
        exact h.answered (.inl hresp) hroom
      · obtain rfl := Option.some.inj hs
        obtain ⟨s₁, hdone, hservice⟩ := h.served
        rw [hresp] at hservice
        cases hservice with
        | forged hx =>
            refine ⟨done, _, ⟨h.order, h.unsent, h.sent, h.checked, ⟨s₁, hdone, .blocked hx⟩,
              h.reqCap, h.respCap⟩, ?_⟩
            simp only [work, hresp]
            omega
  | blocked r =>
      simp only [BurstRun.pollResponder, hresp] at hs
      obtain ⟨resp, hroom, rfl⟩ := Option.map_eq_some_iff.mp hs
      exact h.answered (.inr hresp) hroom
  | panicked p =>
      simp only [BurstRun.pollResponder, hresp] at hs
      cases hs

/-! ### How many are answered -/

/-- The responses to the packets the requester can send and still have more left than the channel of
the requests and its own hand can take. -/
def early (forge : σ → T → Exec (Option Tick × T × σ)) (s₀ : σ) (burst : List (Packet T))
    (c : Nat) : List (Packet T) :=
  responses forge s₀ ((sendable burst).take ((sendable burst).length - (c + 1)))

theorem InService.length {s₁ srv : σ} {responder : BurstResponder T}
    (h : InService forge s₁ srv responder taken) : taken.length ≤ 1 := by
  cases h with
  | waiting => exact Nat.zero_le _
  | received => exact Nat.le_refl _
  | forged => exact Nat.le_refl _
  | blocked => exact Nat.le_refl _
  | panicked => exact Nat.le_refl _

theorem Sending.req_length (h : Sending forge s₀ burst c s done taken left) :
    s.req.items.length ≤ c := by
  rw [← h.reqCap]
  exact s.req.fits

theorem Sending.resp_length (h : Sending forge s₀ burst c s done taken left) :
    s.resp.items.length ≤ c := by
  rw [← h.respCap]
  exact s.resp.fits

/-- What is sent is the beginning of what can be sent. -/
theorem Sending.sendable (h : Sending forge s₀ burst c s done taken left) :
    sendable burst = done ++ (taken ++ s.req.items) ++
      left.takeWhile fun p => (TxStatus.txCheck p.payload : Except ε Unit).toBool := by
  rw [Ra2m.sendable, h.order, ← List.append_assoc taken, ← List.append_assoc done]
  refine List.takeWhile_append_of_pos ?_
  intro p hp
  rw [h.sent p hp]
  rfl

/-- Where the loop of the requester ends, too few of the packets are answered early. -/
theorem Sending.early_of_end (h : Sending forge s₀ burst c s done taken left)
    (hend : ∀ p ∈ left.head?, (TxStatus.txCheck p.payload : Except ε Unit) ≠ .ok ()) :
    (early forge s₀ burst c).length ≤ c := by
  have hall : Ra2m.sendable burst = done ++ (taken ++ s.req.items) := by
    rw [h.sendable]
    cases left with
    | nil => simp
    | cons p rest =>
        have hp := hend p rfl
        have hrefused : (TxStatus.txCheck p.payload : Except ε Unit).toBool = false := by
          cases hcheck : (TxStatus.txCheck p.payload : Except ε Unit) with
          | error err => rfl
          | ok u => exact absurd hcheck hp
        rw [List.takeWhile_cons, hrefused]
        simp
  have hreq := h.req_length
  obtain ⟨s₁, hdone, hservice⟩ := h.served
  have htaken := hservice.length
  have hle : (Ra2m.sendable burst).length - (c + 1) ≤ done.length := by
    rw [hall, List.length_append, List.length_append]
    omega
  rw [early, hall, List.take_append_of_le_length (by rw [← hall]; exact hle), ← hall]
  calc (responses forge s₀ (done.take _)).length
    _ ≤ (responses forge s₀ (done.take _ ++ done.drop _)).length := responses_length_le s₀ _ _
    _ = (responses forge s₀ done).length := by rw [List.take_append_drop]
    _ = s.resp.items.length := hdone.length
    _ ≤ c := h.resp_length

/-- Where the responder panics, no more packets are ever answered. -/
theorem Sending.early_of_panic (h : Sending forge s₀ burst c s done taken left) {p : Panic}
    (hpanic : s.responder = .panicked p) : (early forge s₀ burst c).length ≤ c := by
  obtain ⟨s₁, hdone, hservice⟩ := h.served
  rw [hpanic] at hservice
  obtain ⟨x, rfl, hx⟩ : ∃ x, taken = [x] ∧ forgeResp forge s₁ x [] = .error p := by
    cases hservice with
    | panicked hx => exact ⟨_, rfl, hx⟩
  have htotal : responses forge s₀ (Ra2m.sendable burst) = s.resp.items := by
    rw [h.sendable, List.append_assoc, hdone, List.append_assoc, List.singleton_append, responses,
      hx]
    exact List.append_nil _
  calc (early forge s₀ burst c).length
    _ ≤ (responses forge s₀
          ((Ra2m.sendable burst).take _ ++ (Ra2m.sendable burst).drop _)).length :=
        responses_length_le s₀ _ _
    _ = s.resp.items.length := by rw [List.take_append_drop, htotal]
    _ ≤ c := h.resp_length

theorem length_of_full {α : Type} {q : BoundedQueue α} (h : q.hasRoom = false) :
    q.items.length = q.capacity := by
  have hfull : ¬ q.items.length < q.capacity := of_decide_eq_false h
  have hfits := q.fits
  omega

/-- Where both wait for room, more packets than a channel takes are answered early. -/
theorem Sending.early_of_stuck (h : Sending forge s₀ burst c s done taken left) (hs : s.Stuck) :
    c < (early forge s₀ burst c).length := by
  obtain ⟨⟨p, pkt, hreq⟩, hreqFull, ⟨r, hresp⟩, hrespFull⟩ := hs
  have hitems := (length_of_full hreqFull).trans h.reqCap
  have hresps := (length_of_full hrespFull).trans h.respCap
  have hleft := h.unsent
  rw [hreq] at hleft
  obtain rfl := Option.some.inj hleft
  have hp := h.checked p pkt (.inr hreq)
  obtain ⟨s₁, hdone, hservice⟩ := h.served
  rw [hresp] at hservice
  obtain ⟨x, res, rfl, hx⟩ : ∃ x res, taken = [x] ∧
      forgeResp forge s₁ x [] = .ok (res, [r], s.srv) := by
    cases hservice with
    | blocked hx => exact ⟨_, _, rfl, hx⟩
  have hall := h.sendable
  rw [List.takeWhile_cons_of_pos (by rw [hp]; rfl), ← List.append_assoc done,
    List.append_assoc] at hall
  generalize hrest : s.req.items ++ _ = rest at hall
  have hlen : c + 1 ≤ rest.length := by
    rw [← hrest, List.length_append, hitems, List.length_cons]
    omega
  have htake : (Ra2m.sendable burst).take ((Ra2m.sendable burst).length - (c + 1)) =
      (done ++ [x]) ++ rest.take (rest.length - (c + 1)) := by
    rw [hall, List.length_append, Nat.add_sub_assoc hlen, List.take_length_add_append]
  calc c
    _ < (s.resp.items ++ [r]).length := by
        rw [List.length_append, hresps, List.length_singleton]
        exact Nat.lt_succ_self c
    _ = (responses forge s₀ (done ++ [x])).length := (hdone.snoc hx).length.symm
    _ ≤ (responses forge s₀ ((done ++ [x]) ++ rest.take _)).length := responses_length_le s₀ _ _
    _ = (early forge s₀ burst c).length := by rw [early, htake]

/-! ### The runs -/

/-- The responder leaves the requester alone. -/
theorem pollResponder_requester (hs : s.pollResponder forge = some s') :
    s'.requester = s.requester := by
  unfold BurstRun.pollResponder at hs
  split at hs
  · obtain ⟨_, -, rfl⟩ := Option.map_eq_some_iff.mp hs
    rfl
  · split at hs
    · obtain rfl := Option.some.inj hs
      rfl
    · split at hs
      · obtain rfl := Option.some.inj hs
        rfl
      · obtain rfl := Option.some.inj hs
        rfl
  · split at hs
    · obtain rfl := Option.some.inj hs
      rfl
    · obtain rfl := Option.some.inj hs
      rfl
  · obtain ⟨_, -, rfl⟩ := Option.map_eq_some_iff.mp hs
    rfl
  · cases hs

/-- A requester that has sent its burst does not send again. -/
theorem unsent_pollRequester (h : BurstRun.unsent s.requester = none)
    (hs : s.pollRequester = some s') : BurstRun.unsent s'.requester = none := by
  unfold BurstRun.pollRequester at hs
  split at hs
  · rename_i hreq
    rw [hreq] at h
    cases h
  · rename_i hreq
    rw [hreq] at h
    cases h
  · rename_i hreq
    rw [hreq] at h
    cases h
  · split at hs
    · obtain rfl := Option.some.inj hs
      rfl
    · obtain ⟨_, -, rfl⟩ := Option.map_eq_some_iff.mp hs
      rfl
  · cases hs
  · cases hs

/-- Neither process can be polled again. -/
theorem Stuck.step_eq_none (h : s.Stuck) (a : BurstPoll) : step forge s a = none := by
  obtain ⟨⟨p, pkt, hreq⟩, hreqFull, ⟨r, hresp⟩, hrespFull⟩ := h
  cases a with
  | requester =>
      simp only [step, pollRequester, hreq, BoundedQueue.trySend_eq_none_iff.mpr hreqFull,
        Option.map_none]
  | responder =>
      simp only [step, pollResponder, hresp, BoundedQueue.trySend_eq_none_iff.mpr hrespFull,
        Option.map_none]

/-- In every state of a burst the requester sends, with this invariant, or has sent. -/
theorem sending_or_sent (pos : 0 < c) {polls : List BurstPoll}
    (hrun : Runs.run (step forge) (init s₀ burst c pos) polls = some s) :
    (∃ done taken left, Sending forge s₀ burst c s done taken left) ∨
      BurstRun.unsent s.requester = none ∧ (early forge s₀ burst c).length ≤ c := by
  refine Runs.run_inv (I := fun s =>
    (∃ done taken left, Sending forge s₀ burst c s done taken left) ∨
      BurstRun.unsent s.requester = none ∧ (early forge s₀ burst c).length ≤ c) ?_
    (.inl ⟨_, _, _, Sending.init s₀ burst c pos⟩) hrun
  rintro s a s' (⟨done, taken, left, h⟩ | ⟨h, hearly⟩) hs
  · cases a with
    | requester =>
        rcases h.pollRequester hs with ⟨left', h', -⟩ | ⟨h', hend⟩
        · exact .inl ⟨done, taken, left', h'⟩
        · exact .inr ⟨h', h.early_of_end hend⟩
    | responder =>
        obtain ⟨done', taken', h', -⟩ := h.pollResponder hs
        exact .inl ⟨done', taken', left, h'⟩
  · cases a with
    | requester => exact .inr ⟨unsent_pollRequester h hs, hearly⟩
    | responder => exact .inr ⟨(pollResponder_requester hs).symm ▸ h, hearly⟩

/-- The responder can be polled when there is a request to take and room for its response. -/
theorem pollResponder_enabled (hreq : s.responder = .waiting → s.req.hasItem = true)
    (hroom : ∀ r, s.responder = .blocked r → s.resp.hasRoom = true)
    (hpanic : ∀ p, s.responder ≠ .panicked p) : ∃ s', s.pollResponder forge = some s' := by
  unfold BurstRun.pollResponder
  split
  · rename_i hresp
    cases hrecv : s.req.tryRecv with
    | some out => exact ⟨_, rfl⟩
    | none =>
        have hitem := hreq hresp
        rw [BoundedQueue.tryRecv_eq_none_iff.mp hrecv] at hitem
        cases hitem
  · split
    · exact ⟨_, rfl⟩
    · split
      · exact ⟨_, rfl⟩
      · exact ⟨_, rfl⟩
  · split
    · exact ⟨_, rfl⟩
    · exact ⟨_, rfl⟩
  · rename_i r hresp
    cases hsend : s.resp.trySend r with
    | some resp => exact ⟨_, rfl⟩
    | none =>
        have hnone := BoundedQueue.trySend_eq_none_iff.mp hsend
        rw [hroom r hresp] at hnone
        cases hnone
  · rename_i p hresp
    exact absurd hresp (hpanic p)

theorem hasItem_of_full {α : Type} {q : BoundedQueue α} (h : q.hasRoom = false) :
    q.hasItem = true := by
  have hlen := length_of_full h
  have hpos := q.pos
  cases hitems : q.items with
  | nil =>
      rw [hitems, List.length_nil] at hlen
      omega
  | cons x rest => simp [BoundedQueue.hasItem, hitems]

/-- While the requester sends, one of the two can be polled, unless both wait for room or the
responder has panicked. -/
theorem Sending.enabled (h : Sending forge s₀ burst c s done taken left) (hstuck : ¬ s.Stuck)
    (hpanic : ∀ p, s.responder ≠ .panicked p) : ∃ a s', step forge s a = some s' := by
  by_cases hblocked : (∃ p pkt, s.requester = .blocked p pkt) ∧ s.req.hasRoom = false
  · obtain ⟨hreq, hfull⟩ := hblocked
    refine ⟨.responder, pollResponder_enabled (fun _ => hasItem_of_full hfull) ?_ hpanic⟩
    intro r hresp
    by_contra hroom
    exact hstuck ⟨hreq, hfull, ⟨r, hresp⟩, by simpa using hroom⟩
  · refine ⟨.requester, ?_⟩
    have hunsent := h.unsent
    simp only [step]
    unfold BurstRun.pollRequester
    split
    · split
      · exact ⟨_, rfl⟩
      · split
        · exact ⟨_, rfl⟩
        · exact ⟨_, rfl⟩
    · split
      · exact ⟨_, rfl⟩
      · exact ⟨_, rfl⟩
    · rename_i p pkt hreq
      cases hsend : s.req.trySend p with
      | some req => exact ⟨_, rfl⟩
      | none => exact absurd ⟨⟨p, pkt, hreq⟩, BoundedQueue.trySend_eq_none_iff.mp hsend⟩ hblocked
    · rename_i hreq
      rw [hreq] at hunsent
      cases hunsent
    · rename_i hreq
      rw [hreq] at hunsent
      cases hunsent
    · rename_i hreq
      rw [hreq] at hunsent
      cases hunsent

/-- Where enough packets are answered early, some run gets stuck. -/
theorem exists_stuck (pos : 0 < c) (hearly : c < (early forge s₀ burst c).length) :
    ∃ polls s, Runs.run (step forge) (init s₀ burst c pos : BurstRun T ε σ) polls = some s ∧
      s.Stuck := by
  have hcloser : ∀ s : BurstRun T ε σ,
      (∃ done taken left, Sending forge s₀ burst c s done taken left) → ¬ s.Stuck →
      ∃ a s', step forge s a = some s' ∧
        (∃ done taken left, Sending forge s₀ burst c s' done taken left) ∧ s'.work < s.work := by
    rintro s ⟨done, taken, left, h⟩ hstuck
    have hpanic : ∀ p, s.responder ≠ .panicked p :=
      fun p hp => absurd (h.early_of_panic hp) (Nat.not_le_of_lt hearly)
    obtain ⟨a, s', hs⟩ := h.enabled hstuck hpanic
    refine ⟨a, s', hs, ?_⟩
    cases a with
    | requester =>
        rcases h.pollRequester hs with ⟨left', h', hwork⟩ | ⟨-, hend⟩
        · exact ⟨⟨done, taken, left', h'⟩, hwork⟩
        · exact absurd (h.early_of_end hend) (Nat.not_le_of_lt hearly)
    | responder =>
        obtain ⟨done', taken', h', hwork⟩ := h.pollResponder hs
        exact ⟨⟨done', taken', left, h'⟩, hwork⟩
  obtain ⟨polls, s, hrun, -, hstuck⟩ :=
    Runs.exists_run_of_closer work hcloser ⟨_, _, _, Sending.init s₀ burst c pos⟩
  exact ⟨polls, s, hrun, hstuck⟩

/-- Where too few packets are answered early, no run gets stuck. -/
theorem not_stuck (pos : 0 < c) (hearly : (early forge s₀ burst c).length ≤ c)
    {polls : List BurstPoll} (hrun : Runs.run (step forge) (init s₀ burst c pos) polls = some s) :
    ¬ s.Stuck := by
  intro hstuck
  rcases sending_or_sent pos hrun with ⟨done, taken, left, h⟩ | ⟨h, -⟩
  · exact absurd (h.early_of_stuck hstuck) (Nat.not_lt_of_le hearly)
  · obtain ⟨⟨p, pkt, hreq⟩, -⟩ := hstuck
    rw [hreq] at h
    cases h

/-- A burst never gets stuck exactly when at most as many packets as a channel takes are answered
while more are left than the other channel and the hand of the requester take. -/
theorem neverStuck_iff (forge : σ → T → Exec (Option Tick × T × σ)) (s₀ : σ)
    (burst : List (Packet T)) (c : Nat) (pos : 0 < c) :
    (∀ polls s, Runs.run (step forge) (init s₀ burst c pos : BurstRun T ε σ) polls = some s →
      ¬ s.Stuck) ↔ (early forge s₀ burst c).length ≤ c := by
  constructor
  · intro h
    by_contra hearly
    obtain ⟨polls, s, hrun, hstuck⟩ := exists_stuck pos (Nat.lt_of_not_le hearly)
    exact h polls s hrun hstuck
  · intro hearly polls s hrun
    exact not_stuck pos hearly hrun

/-- Four reads of one byte. -/
def fourReads : List (Packet MemBus) :=
  (List.range 4).map fun uid =>
    { uid, payload := MemBus.new 0 0 .read (.phys 0) (.simple 1) none }

/-- Three reads pass channels of one packet. -/
theorem neverStuck_threeReads :
    (early (NpRam.handleRequest {}) (NpRam.new 0 1) (fourReads.take 3) 1).length ≤ 1 ∧
      ∀ polls s, Runs.run (step (NpRam.handleRequest {}))
        (init (NpRam.new 0 1) (fourReads.take 3) 1 Nat.one_pos : BurstRun MemBus MemBusError NpRam)
          polls = some s → ¬ s.Stuck := by
  have hearly :
      (early (NpRam.handleRequest {}) (NpRam.new 0 1) (fourReads.take 3) 1).length ≤ 1 := by
    decide
  exact ⟨hearly, (neverStuck_iff _ _ _ _ _).mpr hearly⟩

/-- Four do not: the memory holds the second response while the fourth request waits for room. -/
theorem fourReads_stuck : ∃ polls s,
    Runs.run (step (NpRam.handleRequest {}))
      (init (NpRam.new 0 1) fourReads 1 Nat.one_pos : BurstRun MemBus MemBusError NpRam) polls =
        some s ∧ s.Stuck :=
  exists_stuck Nat.one_pos (by decide)

/-- The responder answers each request in every state that meets `I`, and `I` holds after. -/
def AnswersAll (forge : σ → T → Exec (Option Tick × T × σ)) (I : σ → Prop)
    (reqs : List (Packet T)) : Prop :=
  ∀ p ∈ reqs, ∀ s, I s →
    ∃ (res : Except ε Unit) (resp : Packet T) (s' : σ),
      forgeResp forge s p [] = .ok (res, [resp], s') ∧ I s'

variable {I : σ → Prop}

theorem responses_length {s : σ} {reqs : List (Packet T)} (h : I s)
    (hanswer : AnswersAll forge I reqs) : (responses forge s reqs).length = reqs.length := by
  induction reqs generalizing s with
  | nil => rfl
  | cons p rest ih =>
      obtain ⟨res, resp, s', hp, h'⟩ := hanswer p List.mem_cons_self s h
      rw [responses, hp, List.length_append, List.length_singleton, List.length_cons,
        ih h' fun q hq => hanswer q (List.mem_cons_of_mem _ hq), Nat.add_comm]

theorem early_length (h₀ : I s₀) (hsend : ∀ p ∈ burst, TxStatus.txCheck p.payload = .ok ())
    (hanswer : AnswersAll forge I burst) :
    (early forge s₀ burst c).length = burst.length - (c + 1) := by
  have hall : Ra2m.sendable burst = burst.reverse := by
    refine List.takeWhile_eq_self_iff.mpr ?_
    intro p hp
    rw [hsend p (List.mem_reverse.mp hp)]
    rfl
  rw [early, hall, responses_length h₀, List.length_take, List.length_reverse]
  · omega
  · intro p hp
    exact hanswer p (List.mem_reverse.mp (List.mem_of_mem_take hp))

/-- With a responder that answers every request, a burst never gets stuck exactly when its packets
fit into both channels and one hand. -/
theorem neverStuck_iff_length (pos : 0 < c) (h₀ : I s₀)
    (hsend : ∀ p ∈ burst, TxStatus.txCheck p.payload = .ok ())
    (hanswer : AnswersAll forge I burst) :
    (∀ polls s, Runs.run (step forge) (init s₀ burst c pos : BurstRun T ε σ) polls = some s →
      ¬ s.Stuck) ↔ burst.length ≤ 2 * c + 1 := by
  have hlen := early_length (c := c) h₀ hsend hanswer
  constructor
  · intro h
    by_contra hlong
    have hearly : c < (early forge s₀ burst c).length := by omega
    obtain ⟨polls, s, hrun, hstuck⟩ := exists_stuck pos hearly
    exact h polls s hrun hstuck
  · intro hshort polls s hrun
    exact not_stuck pos (by omega) hrun

end

end BurstRun

end Ra2m
