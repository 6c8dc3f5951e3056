/-
A burst up to its last response.

Behind a responder that answers every request, a burst has three parts at any time: what
is answered, what is on its way and what the requester has left.  The answers are those
that the requests get one after another in the order they are sent, so a burst that
returns has them all, sorted by uid.

Each poll leaves less to do, and while nothing is stuck one of the processes can be
polled: a burst that both channels and one hand can take returns, and no other does.
-/
import Ra2m.Proofs.BurstStuck

namespace Ra2m

namespace BurstRun

variable {T ε σ : Type} [TxStatus T ε] [RxStatus T ε]

/-- The requests are answered one after another, each with one response. -/
inductive Serves (forge : σ → T → Exec (Option Tick × T × σ)) (s₀ : σ) :
    List (Packet T) → List (Packet T) → σ → Prop
  | nil : Serves forge s₀ [] [] s₀
  | snoc {done out : List (Packet T)} {s s' : σ} {p resp : Packet T} {res : Except ε Unit}
      (h : Serves forge s₀ done out s) (hp : forgeResp forge s p [] = .ok (res, [resp], s')) :
      Serves forge s₀ (done ++ [p]) (out ++ [resp]) s'

/-- The responses as they are returned: with their status, in the order of their uids. -/
def collected (got : List (Packet T)) : List (Packet T × Except (PktFailure ε) Unit) :=
  got.foldl (fun resp pkt => insertByUid (pkt, SlavePort.checkStatus pkt) resp) []

/-- Some run of the burst returns these responses, and leaves the responder in this state. -/
def Returns (forge : σ → T → Exec (Option Tick × T × σ)) (s₀ : σ) (burst : List (Packet T))
    (c : Nat) (pos : 0 < c) (resp : List (Packet T × Except (PktFailure ε) Unit)) (srv : σ) :
    Prop :=
  ∃ polls s, Runs.run (step forge) (init s₀ burst c pos) polls = some s ∧
    s.requester = .returned resp ∧ s.srv = srv

/-- What the requester has left to send, and what it has received. -/
inductive Requesting (burstLen : Nat) :
    BurstRequester T ε → List (Packet T) → List (Packet T) → Prop
  | sending (pkt : List (Packet T)) : Requesting burstLen (.sending pkt) pkt.reverse []
  | checked (p : Packet T) (pkt : List (Packet T)) :
      Requesting burstLen (.checked p pkt) (p :: pkt.reverse) []
  | blocked (p : Packet T) (pkt : List (Packet T)) :
      Requesting burstLen (.blocked p pkt) (p :: pkt.reverse) []
  | receiving (got : List (Packet T)) : Requesting burstLen (.receiving (collected got)) [] got
  | returned (got : List (Packet T)) (h : got.length = burstLen) :
      Requesting burstLen (.returned (collected got)) [] got

/-- The burst at any time: what is answered, what is in service, what is in the channel and what is
left; and of the answers, what is received and what is in the channel. -/
structure Flow (forge : σ → T → Exec (Option Tick × T × σ)) (I : σ → Prop) (s₀ : σ)
    (burst : List (Packet T)) (s : BurstRun T ε σ) (done taken left got : List (Packet T)) :
    Prop where
  burstLen : s.burstLen = burst.length
  order : burst.reverse = done ++ (taken ++ (s.req.items ++ left))
  requesting : Requesting s.burstLen s.requester left got
  served : ∃ s₁, Serves forge s₀ done (got ++ s.resp.items) s₁ ∧ I s₁ ∧
    InService forge s₁ s.srv s.responder taken

/-- The polls that are left: each packet is checked, may block, enters the channel, is taken off it
and answered, and its response may block and is received. -/
def pollsLeft (s : BurstRun T ε σ) : Nat :=
  (match s.requester with
    | .sending pkt => 9 * pkt.length + 2
    | .checked _ pkt => 9 * pkt.length + 10
    | .blocked _ pkt => 9 * pkt.length + 9
    | .receiving _ => 1
    | _ => 0) + 5 * s.req.items.length +
  (match s.responder with
    | .received _ => 4
    | .forged _ => 3
    | .blocked _ => 2
    | _ => 0) + s.resp.items.length

variable {forge : σ → T → Exec (Option Tick × T × σ)} {I : σ → Prop} {s₀ : σ}
  {burst done taken left got : List (Packet T)} {c : Nat} {s s' : BurstRun T ε σ}

theorem Serves.length {out : List (Packet T)} {s₁ : σ} (h : Serves forge s₀ done out s₁) :
    out.length = done.length := by
  induction h with
  | nil => rfl
  | snoc h hp ih => rw [List.length_append, List.length_append, ih]; rfl

omit [TxStatus T ε] in
theorem collected_concat (got : List (Packet T)) (pkt : Packet T) :
    (collected (got ++ [pkt]) : List (Packet T × Except (PktFailure ε) Unit)) =
      insertByUid (pkt, SlavePort.checkStatus pkt) (collected got) := by
  unfold collected
  rw [List.foldl_append]
  rfl

theorem length_insertByUid {R : Type} (e : Packet T × R) (l : List (Packet T × R)) :
    (insertByUid e l).length = l.length + 1 := by
  induction l with
  | nil => rfl
  | cons x rest ih =>
      unfold insertByUid
      split
      · rfl
      · rw [List.length_cons, ih, List.length_cons]

omit [TxStatus T ε] in
theorem length_collected (got : List (Packet T)) :
    (collected got : List (Packet T × Except (PktFailure ε) Unit)).length = got.length := by
  induction got using List.reverseRecOn with
  | nil => rfl
  | append_singleton got pkt ih =>
      rw [collected_concat, length_insertByUid, ih, List.length_append, List.length_singleton]

theorem Flow.init (h₀ : I s₀) (burst : List (Packet T)) (c : Nat) (pos : 0 < c) :
    Flow forge I s₀ burst (init s₀ burst c pos : BurstRun T ε σ) [] [] burst.reverse [] where
  burstLen := rfl
  order := rfl
  requesting := .sending burst
  served := ⟨s₀, .nil, h₀, .waiting⟩

/-! ### The requester -/

/-- The packet in hand enters the channel. -/
theorem Flow.enter (h : Flow forge I s₀ burst s done taken left got) {p : Packet T}
    {pkt : List (Packet T)} {req : BoundedQueue (Packet T)}
    (hreq : s.requester = .checked p pkt ∨ s.requester = .blocked p pkt)
    (hroom : s.req.trySend p = some req) :
    Flow forge I s₀ burst { s with requester := .sending pkt, req } done taken pkt.reverse got ∧
      ({ s with requester := .sending pkt, req } : BurstRun T ε σ).pollsLeft < s.pollsLeft := by
  obtain ⟨-, hitems, -⟩ := BoundedQueue.trySend_eq_some hroom
  have hrequesting := h.requesting
  obtain ⟨rfl, rfl⟩ : left = p :: pkt.reverse ∧ got = [] := by
    rcases hreq with hreq | hreq
    · rw [hreq] at hrequesting
      cases hrequesting
      exact ⟨rfl, rfl⟩
    · rw [hreq] at hrequesting
      cases hrequesting
      exact ⟨rfl, rfl⟩
  refine ⟨⟨h.burstLen, ?_, .sending pkt, h.served⟩, ?_⟩
  · rw [hitems, h.order, List.append_assoc, List.singleton_append]
  · rcases hreq with hreq | hreq
    · simp only [pollsLeft, hreq, hitems, List.length_append, List.length_singleton]
      omega
    · simp only [pollsLeft, hreq, hitems, List.length_append, List.length_singleton]
      omega

theorem Flow.pollSending (h : Flow forge I s₀ burst s done taken left got)
    (hsend : ∀ p ∈ burst, TxStatus.txCheck p.payload = .ok ()) {pkt : List (Packet T)}
    (hreq : s.requester = .sending pkt) (hs : s.pollRequester = some s') :
    ∃ left' got', Flow forge I s₀ burst s' done taken left' got' ∧ s'.pollsLeft < s.pollsLeft := by
  have hrequesting := h.requesting
  have horder := h.order
  rw [hreq] at hrequesting
  cases hrequesting
  simp only [BurstRun.pollRequester, hreq] at hs
  split at hs
  · rename_i hlast
    obtain rfl := Option.some.inj hs
    obtain rfl := List.getLast?_eq_none_iff.mp hlast
    refine ⟨_, [], ⟨h.burstLen, horder, .receiving [], h.served⟩, ?_⟩
    simp only [pollsLeft, hreq, List.length_nil]
    omega
  · rename_i p hlast
    obtain ⟨pkt, rfl⟩ := List.getLast?_eq_some_iff.mp hlast
    have hp : p ∈ burst := by
      rw [← List.mem_reverse, horder]
      simp
    rw [hsend p hp] at hs
    obtain rfl := Option.some.inj hs
    refine ⟨p :: pkt.reverse, [], ⟨h.burstLen, ?_, ?_, h.served⟩, ?_⟩
    · rw [horder, List.reverse_append]
      rfl
    · rw [List.dropLast_concat]
      exact .checked p pkt
    · simp only [pollsLeft, hreq, List.dropLast_concat, List.length_append, List.length_singleton]
      omega

theorem Flow.pollReceiving (h : Flow forge I s₀ burst s done taken left got)
    {resp : List (Packet T × Except (PktFailure ε) Unit)} (hreq : s.requester = .receiving resp)
    (hs : s.pollRequester = some s') :
    ∃ left' got', Flow forge I s₀ burst s' done taken left' got' ∧ s'.pollsLeft < s.pollsLeft := by
  have hrequesting := h.requesting
  have horder := h.order
  rw [hreq] at hrequesting
  cases hrequesting
  simp only [BurstRun.pollRequester, hreq] at hs
  split at hs
  · rename_i hall
    obtain rfl := Option.some.inj hs
    rw [length_collected] at hall
    refine ⟨[], got, ⟨h.burstLen, horder, .returned got hall, h.served⟩, ?_⟩
    simp only [pollsLeft, hreq]
    omega
  · obtain ⟨⟨pkt, q⟩, hrecv, rfl⟩ := Option.map_eq_some_iff.mp hs
    obtain ⟨hitems, -⟩ := BoundedQueue.tryRecv_eq_some hrecv
    refine ⟨[], got ++ [pkt], ⟨h.burstLen, horder, ?_, ?_⟩, ?_⟩
    · rw [← collected_concat]
      exact .receiving _
    · obtain ⟨s₁, hserves, h₁, hin⟩ := h.served
      refine ⟨s₁, ?_, h₁, hin⟩
      rw [List.append_assoc, List.singleton_append, ← hitems]
      exact hserves
    · simp only [pollsLeft, hreq, hitems, List.length_cons]
      omega

/-- A poll of the requester leaves less to do, and what is answered as it is. -/
theorem Flow.pollRequester (h : Flow forge I s₀ burst s done taken left got)
    (hsend : ∀ p ∈ burst, TxStatus.txCheck p.payload = .ok ())
    (hs : s.pollRequester = some s') :
    ∃ left' got', Flow forge I s₀ burst s' done taken left' got' ∧ s'.pollsLeft < s.pollsLeft := by
  cases hreq : s.requester with
  | sending pkt => exact h.pollSending hsend hreq hs
  | checked p pkt =>
      simp only [BurstRun.pollRequester, hreq] at hs
      split at hs
      · rename_i req hroom
        obtain rfl := Option.some.inj hs
        exact ⟨_, _, h.enter (.inl hreq) hroom⟩
      · obtain rfl := Option.some.inj hs
        have hrequesting := h.requesting
        have horder := h.order
        rw [hreq] at hrequesting
        cases hrequesting
        refine ⟨_, _, ⟨h.burstLen, horder, .blocked p pkt, h.served⟩, ?_⟩
        simp only [pollsLeft, hreq]
        omega
  | blocked p pkt =>
      simp only [BurstRun.pollRequester, hreq] at hs
      obtain ⟨req, hroom, rfl⟩ := Option.map_eq_some_iff.mp hs
      exact ⟨_, _, h.enter (.inr hreq) hroom⟩
  | receiving resp => exact h.pollReceiving hreq hs
  | returned resp =>
      simp only [BurstRun.pollRequester, hreq] at hs
      cases hs
  | panicked p =>
      simp only [BurstRun.pollRequester, hreq] at hs
      cases hs

/-! ### The responder -/

/-- What the responder has in hand reaches the channel of the responses. -/
theorem Flow.answered (h : Flow forge I s₀ burst s done taken left got)
    (hanswer : AnswersAll forge I burst) {r : Packet T} {resp : BoundedQueue (Packet T)}
    (hresp : s.responder = .forged r ∨ s.responder = .blocked r)
    (hroom : s.resp.trySend r = some resp) :
    ∃ done' taken', Flow forge I s₀ burst { s with responder := .waiting, resp }
        done' taken' left got ∧
      ({ s with responder := .waiting, resp } : BurstRun T ε σ).pollsLeft < s.pollsLeft := by
  obtain ⟨-, hitems, -⟩ := BoundedQueue.trySend_eq_some hroom
  obtain ⟨s₁, hserves, h₁, hin⟩ := h.served
  obtain ⟨x, res, rfl, hx⟩ : ∃ x res, taken = [x] ∧
      forgeResp forge s₁ x [] = .ok (res, [r], s.srv) := by
    rcases hresp with hresp | hresp
    · rw [hresp] at hin
      cases hin with
      | forged hx => exact ⟨_, _, rfl, hx⟩
    · rw [hresp] at hin
      cases hin with
      | blocked hx => exact ⟨_, _, rfl, hx⟩
  have hmem : x ∈ burst := by
    rw [← List.mem_reverse, h.order]
    simp
  obtain ⟨res', resp', srv, hx', hsrv⟩ := hanswer x hmem s₁ h₁
  obtain rfl : srv = s.srv := by
    rw [hx] at hx'
    exact ((Prod.mk.inj (Prod.mk.inj (Except.ok.inj hx')).2).2).symm
  refine ⟨done ++ [x], [], ⟨h.burstLen, ?_, h.requesting, s.srv, ?_, hsrv, .waiting⟩, ?_⟩
  · rw [h.order, List.append_assoc, List.nil_append]
  · rw [hitems, ← List.append_assoc]
    exact hserves.snoc hx
  · rcases hresp with hresp | hresp
    · simp only [pollsLeft, hresp, hitems, List.length_append, List.length_singleton]
      omega
    · simp only [pollsLeft, hresp, hitems, List.length_append, List.length_singleton]
      omega

/-- The request is answered. -/
theorem Flow.pollReceived (h : Flow forge I s₀ burst s done taken left got)
    (hanswer : AnswersAll forge I burst) {pkt : Packet T} (hresp : s.responder = .received pkt)
    (hs : s.pollResponder forge = some s') :
    ∃ done' taken', Flow forge I s₀ burst s' done' taken' left got ∧
      s'.pollsLeft < s.pollsLeft := by
  obtain ⟨s₁, hserves, h₁, hin⟩ := h.served
  rw [hresp] at hin
  obtain ⟨rfl, rfl⟩ : taken = [pkt] ∧ s₁ = s.srv := by
    cases hin
    exact ⟨rfl, rfl⟩
  have hmem : pkt ∈ burst := by
    rw [← List.mem_reverse, h.order]
    simp
  obtain ⟨res, r, srv, hforge, -⟩ := hanswer pkt hmem s.srv h₁
  simp only [BurstRun.pollResponder, hresp, hforge] at hs
  obtain rfl := Option.some.inj hs
  refine ⟨done, [pkt], ⟨h.burstLen, h.order, h.requesting, s.srv, hserves, h₁, .forged hforge⟩, ?_⟩
  simp only [pollsLeft, hresp]
  omega

/-- A poll of the responder leaves less to do, and what the requester has as it is. -/
theorem Flow.pollResponder (h : Flow forge I s₀ burst s done taken left got)
    (hanswer : AnswersAll forge I burst) (hs : s.pollResponder forge = some s') :
    ∃ done' taken', Flow forge I s₀ burst s' done' taken' left got ∧
      s'.pollsLeft < s.pollsLeft := by
  obtain ⟨s₁, hserves, h₁, hin⟩ := h.served
  cases hresp : s.responder with
  | waiting =>
      simp only [BurstRun.pollResponder, hresp] at hs
      obtain ⟨⟨pkt, req⟩, hrecv, rfl⟩ := Option.map_eq_some_iff.mp hs
      obtain ⟨hitems, -⟩ := BoundedQueue.tryRecv_eq_some hrecv
      have horder := h.order
      rw [hresp] at hin
      cases hin
      refine ⟨done, [pkt], ⟨h.burstLen, ?_, h.requesting, s.srv, hserves, h₁, .received pkt⟩, ?_⟩
      · rw [horder, hitems]
        rfl
      · simp only [pollsLeft, hresp, hitems, List.length_cons]
        omega
  | received pkt => exact h.pollReceived hanswer hresp hs
  | forged r =>
      simp only [BurstRun.pollResponder, hresp] at hs
      split at hs
      · rename_i resp hroom
        obtain rfl := Option.some.inj hs
        exact h.answered hanswer (.inl hresp) hroom
      · obtain rfl := Option.some.inj hs
        rw [hresp] at hin
        cases hin with
        | forged hx =>
            refine ⟨done, _, ⟨h.burstLen, h.order, h.requesting, s₁, hserves, h₁, .blocked hx⟩, ?_⟩
            simp only [pollsLeft, hresp]
            omega
  | blocked r =>
      simp only [BurstRun.pollResponder, hresp] at hs
      obtain ⟨resp, hroom, rfl⟩ := Option.map_eq_some_iff.mp hs
      exact h.answered hanswer (.inr hresp) hroom
  | panicked p =>
      simp only [BurstRun.pollResponder, hresp] at hs
      cases hs

theorem Flow.not_panicked (h : Flow forge I s₀ burst s done taken left got)
    (hanswer : AnswersAll forge I burst) (p : Panic) : s.responder ≠ .panicked p := by
  intro hresp
  obtain ⟨s₁, -, h₁, hin⟩ := h.served
  rw [hresp] at hin
  cases hin with
  | panicked hx =>
      rename_i x
      have hmem : x ∈ burst := by
        rw [← List.mem_reverse, h.order]
        simp
      obtain ⟨res, r, srv, hforge, -⟩ := hanswer x hmem s₁ h₁
      rw [hforge] at hx
      cases hx

/-! ### All of the burst -/

theorem Flow.step (h : Flow forge I s₀ burst s done taken left got)
    (hsend : ∀ p ∈ burst, TxStatus.txCheck p.payload = .ok ())
    (hanswer : AnswersAll forge I burst) {a : BurstPoll} (hs : step forge s a = some s') :
    (∃ done taken left got, Flow forge I s₀ burst s' done taken left got) ∧
      s'.pollsLeft < s.pollsLeft := by
  cases a with
  | requester =>
      obtain ⟨left', got', h', hlt⟩ := h.pollRequester hsend hs
      exact ⟨⟨_, _, _, _, h'⟩, hlt⟩
  | responder =>
      obtain ⟨done', taken', h', hlt⟩ := h.pollResponder hanswer hs
      exact ⟨⟨_, _, _, _, h'⟩, hlt⟩

/-- What is received or in the channel are the answers to what is answered. -/
theorem Flow.length (h : Flow forge I s₀ burst s done taken left got) :
    got.length + s.resp.items.length = done.length := by
  obtain ⟨s₁, hserves, -, -⟩ := h.served
  rw [← List.length_append]
  exact hserves.length

theorem Flow.length_burst (h : Flow forge I s₀ burst s done taken left got) :
    burst.length = done.length + (taken.length + (s.req.items.length + left.length)) := by
  rw [← List.length_reverse, h.order]
  simp only [List.length_append]

/-- While the requester waits for a response there is one in the channel, or the responder can be
polled. -/
theorem Flow.receiving_enabled (h : Flow forge I s₀ burst s done taken left got)
    (hanswer : AnswersAll forge I burst)
    {resp : List (Packet T × Except (PktFailure ε) Unit)} (hreq : s.requester = .receiving resp) :
    ∃ a s', BurstRun.step forge s a = some s' := by
  have hrequesting := h.requesting
  have hlen := h.length
  have hburst := h.length_burst
  obtain ⟨s₁, -, -, hin⟩ := h.served
  rw [hreq] at hrequesting
  cases hrequesting
  by_cases hall : got.length = s.burstLen
  · refine ⟨.requester, { s with requester := .returned (collected got) }, ?_⟩
    simp only [BurstRun.step, BurstRun.pollRequester, hreq, length_collected, if_pos hall]
  cases hrecv : s.resp.tryRecv with
  | some out =>
      refine ⟨.requester, ?_⟩
      simp only [BurstRun.step, BurstRun.pollRequester, hreq, length_collected, if_neg hall, hrecv]
      exact ⟨_, rfl⟩
  | none =>
      have hempty : s.resp.items = [] := by
        have hnone := BoundedQueue.tryRecv_eq_none_iff.mp hrecv
        simpa [BoundedQueue.hasItem] using hnone
      refine ⟨.responder, pollResponder_enabled ?_ (fun r _ => ?_) (h.not_panicked hanswer)⟩
      · -- Nothing is in service, so a request that is not answered yet is in the channel.
        intro hresp
        rw [hresp] at hin
        cases hin
        by_contra hitem
        have hreqs : s.req.items = [] := by simpa [BoundedQueue.hasItem] using hitem
        rw [hempty] at hlen
        rw [hreqs] at hburst
        rw [h.burstLen] at hall
        simp only [List.length_nil] at hlen hburst
        omega
      · simp [BoundedQueue.hasRoom, hempty, s.resp.pos]

/-- One of the two can be polled, unless both wait for room or the burst has returned. -/
theorem Flow.enabled (h : Flow forge I s₀ burst s done taken left got)
    (hanswer : AnswersAll forge I burst) (hstuck : ¬ s.Stuck)
    (hreturned : ∀ resp, s.requester ≠ .returned resp) :
    ∃ a s', BurstRun.step forge s a = some s' := by
  have hrequesting := h.requesting
  cases hreq : s.requester with
  | sending pkt =>
      refine ⟨.requester, ?_⟩
      simp only [BurstRun.step, BurstRun.pollRequester, hreq]
      split
      · exact ⟨_, rfl⟩
      · split
        · exact ⟨_, rfl⟩
        · exact ⟨_, rfl⟩
  | checked p pkt =>
      refine ⟨.requester, ?_⟩
      simp only [BurstRun.step, BurstRun.pollRequester, hreq]
      split
      · exact ⟨_, rfl⟩
      · exact ⟨_, rfl⟩
  | blocked p pkt =>
      cases hroom : s.req.trySend p with
      | some req =>
          refine ⟨.requester, ?_⟩
          simp only [BurstRun.step, BurstRun.pollRequester, hreq, hroom]
          exact ⟨_, rfl⟩
      | none =>
          have hfull := BoundedQueue.trySend_eq_none_iff.mp hroom
          refine ⟨.responder, pollResponder_enabled (fun _ => hasItem_of_full hfull) ?_
            (h.not_panicked hanswer)⟩
          intro r hresp
          by_contra hrespFull
          exact hstuck ⟨⟨p, pkt, hreq⟩, hfull, ⟨r, hresp⟩, by simpa using hrespFull⟩
  | receiving resp => exact h.receiving_enabled hanswer hreq
  | returned resp => exact absurd hreq (hreturned resp)
  | panicked p =>
      rw [hreq] at hrequesting
      cases hrequesting

/-- A burst that has returned has the answers to all of it, sorted. -/
theorem Flow.of_returned (h : Flow forge I s₀ burst s done taken left got)
    {resp : List (Packet T × Except (PktFailure ε) Unit)} (hreq : s.requester = .returned resp) :
    Serves forge s₀ burst.reverse got s.srv ∧ resp = collected got := by
  have hrequesting := h.requesting
  have hlen := h.length
  have hburst := h.length_burst
  have horder := h.order
  have hburstLen := h.burstLen
  obtain ⟨s₁, hserves, -, hin⟩ := h.served
  rw [hreq] at hrequesting
  cases hrequesting with
  | returned got hgot =>
      have htaken : taken = [] := List.length_eq_zero_iff.mp (by omega)
      have hreqs : s.req.items = [] := List.length_eq_zero_iff.mp (by omega)
      have hresps : s.resp.items = [] := List.length_eq_zero_iff.mp (by omega)
      subst htaken
      rw [hreqs] at horder
      rw [hresps, List.append_nil] at hserves
      simp only [List.append_nil] at horder
      have hsrv : s₁ = s.srv := by
        generalize s.responder = responder at hin
        cases hin
        rfl
      rw [horder, ← hsrv]
      exact ⟨hserves, rfl⟩

section

variable (pos : 0 < c) (h₀ : I s₀) (hsend : ∀ p ∈ burst, TxStatus.txCheck p.payload = .ok ())
  (hanswer : AnswersAll forge I burst)

include h₀ hsend hanswer

/-- **What a burst returns.**  A burst that returns has the answers that its requests get one after
another from the last to the first, and fits both channels and one hand. -/
theorem serves_of_returns {resp : List (Packet T × Except (PktFailure ε) Unit)} {srv : σ}
    (h : Returns forge s₀ burst c pos resp srv) :
    burst.length ≤ 2 * c + 1 ∧
      ∃ got, Serves forge s₀ burst.reverse got srv ∧ resp = collected got := by
  obtain ⟨polls, s, hrun, hreq, rfl⟩ := h
  constructor
  · rcases sending_or_sent pos hrun with ⟨done, taken, left, h⟩ | ⟨-, hearly⟩
    · have hunsent := h.unsent
      rw [hreq] at hunsent
      cases hunsent
    · rw [early_length h₀ hsend hanswer] at hearly
      omega
  · obtain ⟨done, taken, left, got, h⟩ := Runs.run_inv
      (I := fun s => ∃ done taken left got, Flow forge I s₀ burst s done taken left got)
      (fun s a s' ⟨_, _, _, _, h⟩ hs => (h.step hsend hanswer hs).1)
      ⟨_, _, _, _, Flow.init h₀ burst c pos⟩ hrun
    exact ⟨got, h.of_returned hreq⟩

/-- A burst that fits returns. -/
theorem exists_returns (hshort : burst.length ≤ 2 * c + 1) :
    ∃ (resp : List (Packet T × Except (PktFailure ε) Unit)) (srv : σ),
      Returns forge s₀ burst c pos resp srv := by
  have hstuck := (neverStuck_iff_length pos h₀ hsend hanswer).mpr hshort
  -- Every state on the way is one of the burst's, so it is not stuck.
  have hcloser : ∀ s : BurstRun T ε σ,
      ((∃ polls, Runs.run (BurstRun.step forge) (BurstRun.init s₀ burst c pos) polls = some s) ∧
        ∃ done taken left got, Flow forge I s₀ burst s done taken left got) →
      ¬ (∃ resp, s.requester = .returned resp) →
      ∃ a s', BurstRun.step forge s a = some s' ∧
        ((∃ polls, Runs.run (BurstRun.step forge) (BurstRun.init s₀ burst c pos) polls = some s') ∧
          ∃ done taken left got, Flow forge I s₀ burst s' done taken left got) ∧
        s'.pollsLeft < s.pollsLeft := by
    rintro s ⟨⟨polls, hrun⟩, done, taken, left, got, h⟩ hreturned
    obtain ⟨a, s', hs⟩ := h.enabled hanswer (hstuck polls s hrun)
      fun resp hreq => hreturned ⟨resp, hreq⟩
    obtain ⟨h', hlt⟩ := h.step hsend hanswer hs
    exact ⟨a, s', hs, ⟨⟨polls ++ [a], Runs.run_snoc_iff.mpr ⟨s, hrun, hs⟩⟩, h'⟩, hlt⟩
  obtain ⟨polls, s, hrun, -, resp, hreq⟩ := Runs.exists_run_of_closer pollsLeft hcloser
    ⟨⟨[], rfl⟩, _, _, _, _, Flow.init h₀ burst c pos⟩
  exact ⟨resp, s.srv, polls, s, hrun, hreq, rfl⟩

end

end BurstRun

end Ra2m
