/-
The responder side of the full-duplex ports (`port/full_duplex.rs`).

A `ReqRespPort` is a slave port to receive on and a master port to send on; a
`DispatchPort` receives into one queue per session.  What a call does to a port is
the packet it takes off the receiving side and the packet it puts on the sending
side; waiting for a packet, a lock or a channel slot leaves both as they are, so
a call that blocks is `none`.

`waitReqForgeResp` is the same on both ports but for where the request comes from:
`forgeResp` is what it does with the request once it has it.
-/
import Ra2m.Lib.ExceptMap
import Ra2m.Sim.MemBus

namespace Ra2m

/-- What one call of a component draws from the simulation: the tick, its latencies and the time
a transfer takes at its bandwidth. -/
structure Timing where
  now : Tick := 0
  frontend : Tick := 0
  forward : Tick := 0
  transfer : Data → Tick := fun _ => 0

section

variable {T ε σ : Type} [TxStatus T ε] [RxStatus T ε]

/-- Check a request, let the closure turn it into the response, check that, and send it. -/
def forgeResp (forge : σ → T → Exec (Option Tick × T × σ)) (s : σ) (pkt : Packet T)
    (tx : List (Packet T)) : Exec (Except ε Unit × List (Packet T) × σ) :=
  match TxStatus.txCheck pkt.payload with
  | .error err => .ok (.error err, tx, s)
  | .ok () => do
      let (delay, req, s) ← forge s pkt.payload
      match RxStatus.rxCheck req with
      | .error err => .ok (.error err, tx, s)
      | .ok () =>
          let pkt := pkt.setPayload req
          let pkt := match delay with
            | some dly => pkt.appendDelay dly
            | none => pkt
          .ok (.ok (), tx ++ [pkt], s)

/-- A call that returns has refused the request, refused what the closure made of it, or sent that
with the ids of the request. -/
theorem forgeResp_eq_ok {forge : σ → T → Exec (Option Tick × T × σ)} {s s' : σ} {pkt : Packet T}
    {res : Except ε Unit} {tx tx' : List (Packet T)}
    (h : forgeResp forge s pkt tx = .ok (res, tx', s')) :
    (∃ err : ε, TxStatus.txCheck pkt.payload = .error err ∧ tx' = tx) ∨
      ∃ delay req, forge s pkt.payload = .ok (delay, req, s') ∧
        ((∃ err : ε, RxStatus.rxCheck req = .error err ∧ tx' = tx) ∨
          ∃ resp : Packet T, RxStatus.rxCheck req = .ok () ∧ tx' = tx ++ [resp] ∧
            resp.payload = req) := by
  unfold forgeResp at h
  split at h
  · rename_i err htx
    simp only [Except.ok.injEq, Prod.mk.injEq] at h
    obtain ⟨-, rfl, -⟩ := h
    exact .inl ⟨err, htx, rfl⟩
  · obtain ⟨⟨delay, req, s₁⟩, hforge, h⟩ := ExceptMap.bind_eq_ok_iff.mp h
    dsimp only at h
    split at h
    · rename_i err hrx
      simp only [Except.ok.injEq, Prod.mk.injEq] at h
      obtain ⟨-, rfl, rfl⟩ := h
      exact .inr ⟨delay, req, hforge, .inl ⟨err, hrx, rfl⟩⟩
    · rename_i hrx
      simp only [Except.ok.injEq, Prod.mk.injEq] at h
      obtain ⟨-, rfl, rfl⟩ := h
      refine .inr ⟨delay, req, hforge, .inr ⟨_, hrx, rfl, ?_⟩⟩
      cases delay with
      | none => rfl
      | some dly => rfl

end

/-- The packets waiting on the receiving side and those put on the sending side. -/
structure ReqRespPort (T : Type) where
  rx : List (Packet T) := []
  tx : List (Packet T) := []

namespace ReqRespPort

variable {T ε σ : Type} [TxStatus T ε] [RxStatus T ε]

/-- Wait for a request, forge its response with the closure and send it back. -/
def waitReqForgeResp (forge : σ → T → Exec (Option Tick × T × σ)) (s : σ) (self : ReqRespPort T) :
    Exec (Option (Except ε Unit × ReqRespPort T × σ)) :=
  match self.rx with
  | [] => .ok none
  | pkt :: rest => do
      let (res, tx, s) ← forgeResp forge s pkt self.tx
      .ok (some (res, ⟨rest, tx⟩, s))

end ReqRespPort

/-- The session queues of the dispatcher and the packets put on the sending side. -/
structure DispatchPort (T : Type) where
  isSpawned : Bool := true
  queue : List (List (Packet T))
  tx : List (Packet T) := []

namespace DispatchPort

variable {T ε σ : Type} [TxStatus T ε] [RxStatus T ε]

/-- Take the first packet of a session. -/
def waitPkt (self : DispatchPort T) (sid : Nat) : Exec (Option (Packet T × DispatchPort T)) :=
  if self.isSpawned then
    match self.queue[sid]? with
    | none => .error ⟨"Attempt to access session from Dispatch. Invalid sid requested"⟩
    | some [] => .ok none
    | some (pkt :: rest) => .ok (some (pkt, { self with queue := self.queue.set sid rest }))
  else .error ⟨"Attempt to access uninit Dispatch. Dispatch must be init to poll associated ep"⟩

/-- Wait for a request of a session, forge its response with the closure and send it back. -/
def waitReqForgeResp (sid : Nat) (forge : σ → T → Exec (Option Tick × T × σ)) (s : σ)
    (self : DispatchPort T) : Exec (Option (Except ε Unit × DispatchPort T × σ)) := do
  match ← self.waitPkt sid with
  | none => .ok none
  | some (pkt, self) =>
      let (res, tx, s) ← forgeResp forge s pkt self.tx
      .ok (some (res, { self with tx }, s))

end DispatchPort

end Ra2m
