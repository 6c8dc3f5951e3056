/-
Which requests a responder answers.

`wait_req_forge_resp` asks its closure to encode a failure in the response, so that
the requester sees it.  It then runs `rx_check` on that response, and `rx_check`
fails exactly on a response that carries a failure: the call returns before the
packet is sent.  So a request is answered if and only if the closure leaves its
payload in a state `rx_check` accepts, on both ports, and an `NpRam` answers a
stream of requests in full if and only if it can serve every one of them.
-/
import Ra2m.Cpn.NpRam

namespace Ra2m

/-- The call put exactly one packet on the sending side, with the ids of the request. -/
def AnsweredOnce {T : Type} (pkt : Packet T) (tx tx' : List (Packet T)) : Prop :=
  ∃ r : Packet T, tx' = tx ++ [r] ∧ r.uid = pkt.uid ∧ r.sid = pkt.sid

/-! ### One call -/

section

variable {T ε σ : Type} [TxStatus T ε] [RxStatus T ε]
  {forge : σ → T → Exec (Option Tick × T × σ)} {s s' : σ} {pkt : Packet T} {d : Option Tick}
  {req : T}

/-- A response `rx_check` accepts is sent, with the ids of its request. -/
theorem forgeResp_sent (htx : TxStatus.txCheck pkt.payload = .ok ())
    (hforge : forge s pkt.payload = .ok (d, req, s')) (hrx : RxStatus.rxCheck req = .ok ())
    (tx : List (Packet T)) :
    ∃ r : Packet T, forgeResp forge s pkt tx = .ok (.ok (), tx ++ [r], s') ∧
      r.uid = pkt.uid ∧ r.sid = pkt.sid ∧ r.payload = req := by
  unfold forgeResp
  rw [htx]
  simp only [hforge, bind, Except.bind, hrx]
  cases d with
  | none => exact ⟨_, rfl, rfl, rfl, rfl⟩
  | some dly => exact ⟨_, rfl, rfl, rfl, rfl⟩

/-- A response `rx_check` refuses is dropped. -/
theorem forgeResp_dropped (htx : TxStatus.txCheck pkt.payload = .ok ())
    (hforge : forge s pkt.payload = .ok (d, req, s')) {err : ε}
    (hrx : RxStatus.rxCheck req = .error err) (tx : List (Packet T)) :
    forgeResp forge s pkt tx = .ok (.error err, tx, s') := by
  unfold forgeResp
  rw [htx]
  simp only [hforge, bind, Except.bind, hrx]

theorem answeredOnce_irrefl (pkt : Packet T) (tx : List (Packet T)) : ¬ AnsweredOnce pkt tx tx := by
  rintro ⟨r, hr, -⟩
  have := congrArg List.length hr
  simp at this

/-- The request is answered exactly when `rx_check` accepts what the closure made of it. -/
theorem forgeResp_answers_iff (htx : TxStatus.txCheck pkt.payload = .ok ())
    (hforge : forge s pkt.payload = .ok (d, req, s')) (tx : List (Packet T)) :
    ∃ res tx', forgeResp forge s pkt tx = .ok (res, tx', s') ∧
      (AnsweredOnce pkt tx tx' ↔ RxStatus.rxCheck req = .ok ()) := by
  cases hrx : RxStatus.rxCheck req with
  | ok u =>
      obtain ⟨r, hsent, huid, hsid, -⟩ := forgeResp_sent htx hforge hrx tx
      exact ⟨_, _, hsent, fun _ => rfl, fun _ => ⟨r, rfl, huid, hsid⟩⟩
  | error err =>
      refine ⟨_, _, forgeResp_dropped htx hforge hrx tx, ?_, fun h => by cases h⟩
      intro h
      exact absurd h (answeredOnce_irrefl pkt tx)

theorem ReqRespPort.waitReqForgeResp_answers_iff {port : ReqRespPort T} {rest : List (Packet T)}
    (hport : port.rx = pkt :: rest) (htx : TxStatus.txCheck pkt.payload = .ok ())
    (hforge : forge s pkt.payload = .ok (d, req, s')) :
    ∃ res port', port.waitReqForgeResp forge s = .ok (some (res, port', s')) ∧
      (AnsweredOnce pkt port.tx port'.tx ↔ RxStatus.rxCheck req = .ok ()) := by
  obtain ⟨res, tx', heq, hiff⟩ := forgeResp_answers_iff htx hforge port.tx
  refine ⟨res, ⟨rest, tx'⟩, ?_, hiff⟩
  unfold ReqRespPort.waitReqForgeResp
  rw [hport]
  simp only [heq, bind, Except.bind]

theorem DispatchPort.waitReqForgeResp_answers_iff {port : DispatchPort T} {sid : Nat}
    {rest : List (Packet T)} (hspawn : port.isSpawned = true)
    (hport : port.queue[sid]? = some (pkt :: rest))
    (htx : TxStatus.txCheck pkt.payload = .ok ())
    (hforge : forge s pkt.payload = .ok (d, req, s')) :
    ∃ res port', port.waitReqForgeResp sid forge s = .ok (some (res, port', s')) ∧
      (AnsweredOnce pkt port.tx port'.tx ↔ RxStatus.rxCheck req = .ok ()) := by
  obtain ⟨res, tx', heq, hiff⟩ := forgeResp_answers_iff htx hforge port.tx
  refine ⟨res, { port with queue := port.queue.set sid rest, tx := tx' }, ?_, hiff⟩
  unfold DispatchPort.waitReqForgeResp DispatchPort.waitPkt
  simp only [hspawn, if_true, hport, bind, Except.bind, heq]

end

/-! ### A stream of requests -/

namespace NpRam

/-- The memory fails the request. -/
def Fails (req : MemBus) : Prop :=
  ∃ (t : Timing) (self self' : NpRam) (delay : Option Tick) (req' : MemBus),
    handleRequest t self req = .ok (delay, req', self') ∧ ∃ e, req'.mode = .error e

theorem not_fails_of_supported {req : MemBus} (h : Supported req) : ¬ Fails req := by
  rintro ⟨t, self, self', delay, req', heq, e, he⟩
  have hmode := (handleRequest_mode heq).1 h
  rw [hmode] at he
  cases he

/-- One call adds a packet exactly when the request is supported. -/
theorem forgeResp_length {t : Timing} {self self' : NpRam} {pkt : Packet MemBus}
    {tx tx' : List (Packet MemBus)} {res : Except MemBusError Unit}
    (hreq : pkt.payload.mode = .request)
    (h : forgeResp (handleRequest t) self pkt tx = .ok (res, tx', self')) :
    (Supported pkt.payload → tx'.length = tx.length + 1) ∧
      (¬ Supported pkt.payload → tx'.length = tx.length) := by
  have hchk : TxStatus.txCheck pkt.payload = .ok () := MemBus.txCheck_eq_ok_iff.mpr hreq
  rcases forgeResp_eq_ok h with
    ⟨err, htx, -⟩ | ⟨d, req', hh, ⟨err, hrx, rfl⟩ | ⟨resp, hrx, rfl, -⟩⟩
  · cases hchk.symm.trans htx
  · refine ⟨fun hs => ?_, fun _ => rfl⟩
    cases (MemBus.rxCheck_eq_ok_iff.mpr ((handleRequest_mode hh).1 hs)).symm.trans hrx
  · refine ⟨fun _ => by simp, fun hs => ?_⟩
    obtain ⟨e, he⟩ := (handleRequest_mode hh).2 hs
    cases (MemBus.rxCheck_of_error he).symm.trans hrx

/-- Over a stream, the packets put on the sending side are at most as many as the requests, and
as many exactly when every request is supported. -/
theorem responseLayer_length {calls : List Timing} {self self' : NpRam}
    {port port' : ReqRespPort MemBus} {ress : List (Except MemBusError Unit)}
    (hlen : calls.length = port.rx.length)
    (hreq : ∀ pkt ∈ port.rx, pkt.payload.mode = .request)
    (h : responseLayer calls self port = .ok (ress, port', self')) :
    port'.tx.length ≤ port.tx.length + calls.length ∧
      (port'.tx.length = port.tx.length + calls.length ↔
        ∀ pkt ∈ port.rx, Supported pkt.payload) := by
  induction calls generalizing self port ress with
  | nil =>
      simp only [responseLayer, Except.ok.injEq, Prod.mk.injEq] at h
      obtain ⟨-, rfl, -⟩ := h
      have hnil : port.rx = [] := List.eq_nil_of_length_eq_zero hlen.symm
      simp [hnil]
  | cons t rest ih =>
      obtain ⟨rx, tx⟩ := port
      cases rx with
      | nil => simp at hlen
      | cons pkt pkts =>
          unfold responseLayer at h
          obtain ⟨turn, hturn, h⟩ := ExceptMap.bind_eq_ok_iff.mp h
          obtain ⟨⟨res, tx₁, self₁⟩, hf, hturn⟩ := ExceptMap.bind_eq_ok_iff.mp hturn
          obtain rfl := Except.ok.inj hturn
          obtain ⟨⟨ress₁, port₁, self₂⟩, hl, h⟩ := ExceptMap.bind_eq_ok_iff.mp h
          dsimp only at hf
          simp only [Except.ok.injEq, Prod.mk.injEq] at h
          obtain ⟨-, rfl, rfl⟩ := h
          have hlen₁ : rest.length = pkts.length := by simpa using hlen
          obtain ⟨hle, hiff⟩ := ih hlen₁
            (fun p hp => hreq p (List.mem_cons_of_mem _ hp)) hl
          obtain ⟨hyes, hno⟩ := forgeResp_length (hreq pkt (by simp)) hf
          simp only [List.length_cons, List.forall_mem_cons] at hle hiff ⊢
          by_cases hs : Supported pkt.payload
          · have := hyes hs
            refine ⟨by omega, ?_⟩
            rw [show (port₁.tx.length = tx.length + (rest.length + 1)) ↔
              port₁.tx.length = tx₁.length + rest.length by omega, hiff]
            simp [hs]
          · have := hno hs
            refine ⟨by omega, ?_⟩
            simp only [hs, false_and, iff_false]
            omega

/-- What is asked of a stream: as many responses as requests, and an error for each failure. -/
def AnsweredAll (port port' : ReqRespPort MemBus) : Prop :=
  port'.tx.length = port.tx.length + port.rx.length ∧
    ∀ pkt ∈ port.rx, Fails pkt.payload →
      ∃ r ∈ port'.tx, r.uid = pkt.uid ∧ r.sid = pkt.sid ∧ ∃ e, r.payload.mode = .error e

theorem responseLayer_answers_iff {calls : List Timing} {self self' : NpRam}
    {port port' : ReqRespPort MemBus} {ress : List (Except MemBusError Unit)}
    (hlen : calls.length = port.rx.length)
    (hreq : ∀ pkt ∈ port.rx, pkt.payload.mode = .request)
    (h : responseLayer calls self port = .ok (ress, port', self')) :
    AnsweredAll port port' ↔ ∀ pkt ∈ port.rx, Supported pkt.payload := by
  obtain ⟨-, hiff⟩ := responseLayer_length hlen hreq h
  rw [hlen] at hiff
  constructor
  · intro hall
    exact hiff.mp hall.1
  · intro hs
    refine ⟨hiff.mpr hs, ?_⟩
    intro pkt hp hf
    exact absurd hf (not_fails_of_supported (hs pkt hp))

end NpRam

/--
A responder answers exactly the requests whose response `rx_check` accepts: one call of
`wait_req_forge_resp` on either port, and every stream of requests an `NpRam` serves without
panic, which is answered in full exactly when the memory can serve each request of it.
-/
theorem responder_answers_iff {T ε σ : Type} [TxStatus T ε] [RxStatus T ε]
    (forge : σ → T → Exec (Option Tick × T × σ)) (s s' : σ) (pkt : Packet T)
    (rest : List (Packet T)) (d : Option Tick) (req : T) :
    (∀ port : ReqRespPort T, port.rx = pkt :: rest → TxStatus.txCheck pkt.payload = .ok () →
      forge s pkt.payload = .ok (d, req, s') →
      ∃ res port', port.waitReqForgeResp forge s = .ok (some (res, port', s')) ∧
        (AnsweredOnce pkt port.tx port'.tx ↔ RxStatus.rxCheck req = .ok ())) ∧
    (∀ (port : DispatchPort T) (sid : Nat), port.isSpawned = true →
      port.queue[sid]? = some (pkt :: rest) → TxStatus.txCheck pkt.payload = .ok () →
      forge s pkt.payload = .ok (d, req, s') →
      ∃ res port', port.waitReqForgeResp sid forge s = .ok (some (res, port', s')) ∧
        (AnsweredOnce pkt port.tx port'.tx ↔ RxStatus.rxCheck req = .ok ())) ∧
    (∀ (calls : List Timing) (self self' : NpRam) (port port' : ReqRespPort MemBus)
      (ress : List (Except MemBusError Unit)),
      calls.length = port.rx.length → (∀ pkt ∈ port.rx, pkt.payload.mode = .request) →
      NpRam.responseLayer calls self port = .ok (ress, port', self') →
      (NpRam.AnsweredAll port port' ↔ ∀ pkt ∈ port.rx, NpRam.Supported pkt.payload)) := by
  refine ⟨?_, ?_, ?_⟩
  · intro port hport htx hforge
    exact ReqRespPort.waitReqForgeResp_answers_iff hport htx hforge
  · intro port sid hspawn hport htx hforge
    exact DispatchPort.waitReqForgeResp_answers_iff hspawn hport htx hforge
  · intro calls self self' port port' ress hlen hreq h
    exact NpRam.responseLayer_answers_iff hlen hreq h

/-- A strided read, as a master issues it. -/
def stridedRead : Packet MemBus :=
  { uid := 7, payload := MemBus.new 0 0 .read (.phys 0) (.stride 1 2 1) none }

/-- The memory turns the strided read into an error, and the port drops it. -/
theorem stridedRead_unanswered :
    stridedRead.payload.mode = .request ∧
    ∃ port' : ReqRespPort MemBus,
      ReqRespPort.waitReqForgeResp (NpRam.handleRequest {}) (NpRam.new 1 4)
        ⟨[stridedRead], []⟩ =
          .ok (some (.error (.pattern (.stride 1 2 1)), port', NpRam.new 1 4)) ∧
      port'.tx = [] ∧ ¬ AnsweredOnce stridedRead [] port'.tx :=
  ⟨rfl, ⟨[], []⟩, rfl, rfl, answeredOnce_irrefl stridedRead []⟩

end Ra2m
