/-
A burst between a requester and a responder (`port/full_duplex.rs`).

The requester is in `b_req_resp_burst`: it sends its packets one after another, and only
then receives the responses.  The responder loops on `wait_req_forge_resp`.  Each holds
its two ports alone, and the ports are two bounded channels, one in each direction.

A process is polled up to its next await, in any order: awaiting a delay, a lock that is
free or the runtime only puts a poll off, so an await matters where a channel is full or
empty.  A send that finds its channel full goes on once there is room.
-/
import Ra2m.Sim.Burst
import Ra2m.Lib.BoundedQueue

namespace Ra2m

inductive BurstRequester (T ε : Type) where
  /-- In the loop of `send_pkt_burst`, with the packets left in the vector. -/
  | sending (pkt : List (Packet T))
  /-- The packet is checked and about to be sent. -/
  | checked (p : Packet T) (pkt : List (Packet T))
  /-- The channel was full. -/
  | blocked (p : Packet T) (pkt : List (Packet T))
  /-- In the loop of `wait_pkt_burst_ep`, with the responses so far. -/
  | receiving (resp : List (Packet T × Except (PktFailure ε) Unit))
  | returned (resp : List (Packet T × Except (PktFailure ε) Unit))
  | panicked (p : Panic)

inductive BurstResponder (T : Type) where
  /-- In `wait_pkt`. -/
  | waiting
  | received (pkt : Packet T)
  /-- The response is forged and about to be sent. -/
  | forged (resp : Packet T)
  /-- The channel was full. -/
  | blocked (resp : Packet T)
  | panicked (p : Panic)

/-- The process that is polled. -/
inductive BurstPoll where
  | requester
  | responder
  deriving DecidableEq

structure BurstRun (T ε σ : Type) where
  burstLen : Nat
  requester : BurstRequester T ε
  responder : BurstResponder T := .waiting
  /-- What the closure of the responder works on. -/
  srv : σ
  /-- The channel of the requests. -/
  req : BoundedQueue (Packet T)
  /-- The channel of the responses. -/
  resp : BoundedQueue (Packet T)

namespace BurstRun

variable {T ε σ : Type}

/-- `b_req_resp_burst` is called; both channels have the capacity of the port. -/
def init (srv : σ) (pktBurst : List (Packet T)) (pktInflight : Nat) (pos : 0 < pktInflight) :
    BurstRun T ε σ where
  burstLen := pktBurst.length
  requester := .sending pktBurst
  srv := srv
  req := .empty pktInflight pos
  resp := .empty pktInflight pos

/-- The requester waits for room among the requests, and the responder for room among the
responses. -/
def Stuck (s : BurstRun T ε σ) : Prop :=
  (∃ p pkt, s.requester = .blocked p pkt) ∧ s.req.hasRoom = false ∧
    (∃ p, s.responder = .blocked p) ∧ s.resp.hasRoom = false

variable [TxStatus T ε] [RxStatus T ε]

def pollRequester (s : BurstRun T ε σ) : Option (BurstRun T ε σ) :=
  match s.requester with
  | .sending pkt =>
      match pkt.getLast? with
      | none => some { s with requester := .receiving [] }
      | some p =>
          match TxStatus.txCheck p.payload with
          | .error _ => some { s with
              requester := .panicked ⟨"Error encounter while issuing a b_req_resp_burst"⟩ }
          | .ok () => some { s with requester := .checked p pkt.dropLast }
  | .checked p pkt =>
      match s.req.trySend p with
      | some req => some { s with requester := .sending pkt, req }
      | none => some { s with requester := .blocked p pkt }
  | .blocked p pkt => (s.req.trySend p).map fun req => { s with requester := .sending pkt, req }
  | .receiving resp =>
      if resp.length = s.burstLen then some { s with requester := .returned resp }
      else
        s.resp.tryRecv.map fun (pkt, q) =>
          { s with
            requester := .receiving (insertByUid (pkt, SlavePort.checkStatus pkt) resp)
            resp := q }
  | .returned _ => none
  | .panicked _ => none

def pollResponder (forge : σ → T → Exec (Option Tick × T × σ)) (s : BurstRun T ε σ) :
    Option (BurstRun T ε σ) :=
  match s.responder with
  | .waiting =>
      s.req.tryRecv.map fun (pkt, req) => { s with responder := .received pkt, req }
  | .received pkt =>
      match forgeResp forge s.srv pkt [] with
      | .error p => some { s with responder := .panicked p }
      | .ok (_, tx, srv) =>
          match tx with
          -- `wait_req_forge_resp` returns the error of a check, and the loop goes on
          | [] => some { s with responder := .waiting, srv }
          | resp :: _ => some { s with responder := .forged resp, srv }
  | .forged pkt =>
      match s.resp.trySend pkt with
      | some resp => some { s with responder := .waiting, resp }
      | none => some { s with responder := .blocked pkt }
  | .blocked pkt => (s.resp.trySend pkt).map fun resp => { s with responder := .waiting, resp }
  | .panicked _ => none

/-- Poll a process; `none` when it has ended or what it waits for is not there. -/
def step (forge : σ → T → Exec (Option Tick × T × σ)) (s : BurstRun T ε σ) :
    BurstPoll → Option (BurstRun T ε σ)
  | .requester => s.pollRequester
  | .responder => s.pollResponder forge

end BurstRun

end Ra2m
