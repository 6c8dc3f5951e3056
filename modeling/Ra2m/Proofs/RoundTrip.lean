/-
Whose response a round trip returns.

The two calls on a channel compare the uid of what they take, so what they return is
the response to their request, and the flushing one takes the packets up to it and no
further.  The call on a session queue compares nothing: it returns the first packet of
the queue, which is its own response only if no older packet of the session is in front
of it.
-/
import Ra2m.Lib.ExceptMap
import Ra2m.Sim.RoundTrip

namespace Ra2m

open Runs

variable {T ε σ : Type} [RxStatus T ε]

/-! ### The channel -/

namespace SlavePort

/-- A packet that is accepted is returned as it is. -/
theorem accept_ok {pkt p : Packet T}
    (h : (waitPktEp.accept pkt : Except (PktFailure ε) _) = .ok p) : p = pkt := by
  unfold waitPktEp.accept at h
  split at h
  · cases h
  · split at h
    · cases h
    · exact (Except.ok.inj h).symm

/-- A packet with the right uid is not refused for its uid. -/
theorem accept_ne_mismatch (pkt : Packet T) (a b : Nat) :
    (waitPktEp.accept pkt : Except (PktFailure ε) _) ≠ .error (.packet (.uidMismatch a b)) := by
  unfold waitPktEp.accept
  split
  · simp
  · split
    · simp
    · simp

theorem waitPktEp_own {uid : Nat} {pkt : Packet T} (h : pkt.uid = uid) (rx : List (Packet T)) :
    (waitPktEp (some uid) (pkt :: rx) : Option (Except (PktFailure ε) _ × _)) =
      some (waitPktEp.accept pkt, rx) := by
  unfold waitPktEp
  exact if_pos h

/-- What is at the head of a queue, with the uid that is asked for, is what the port returns. -/
theorem waitPktEp_head {Q : Type*} {uid : Nat} {pkt : Packet T} {src : Q}
    {queue rest : List (Q × Packet T)} (hqueue : queue = (src, pkt) :: rest) (h : pkt.uid = uid) :
    (waitPktEp (some uid) (queue.map Prod.snd) : Option (Except (PktFailure ε) _ × _)) =
      some (waitPktEp.accept pkt, rest.map Prod.snd) := by
  rw [hqueue, List.map_cons, waitPktEp_own h]

theorem waitPktEp_stale {uid : Nat} {pkt : Packet T} (h : pkt.uid ≠ uid) (rx : List (Packet T)) :
    (waitPktEp (some uid) (pkt :: rx) : Option (Except (PktFailure ε) _ × _)) =
      some (.error (.packet (.uidMismatch pkt.uid uid)), rx) := by
  unfold waitPktEp
  exact if_neg h

theorem waitPktEp_ok {uid : Nat} {rx rest : List (Packet T)} {p : Packet T}
    (h : (waitPktEp (some uid) rx : Option (Except (PktFailure ε) _ × _)) = some (.ok p, rest)) :
    p.uid = uid := by
  cases rx with
  | nil => cases h
  | cons pkt rx =>
      by_cases huid : pkt.uid = uid
      · rw [waitPktEp_own huid] at h
        have hacc := (Prod.mk.inj (Option.some.inj h)).1
        rw [accept_ok hacc]
        exact huid
      · rw [waitPktEp_stale huid] at h
        cases (Prod.mk.inj (Option.some.inj h)).1

/-- The response is taken with its status, and nothing behind it. -/
theorem waitPktEpFlush_own {uid : Nat} {own : Packet T} (h : own.uid = uid)
    (rest : List (Packet T)) :
    (waitPktEpFlush uid (own :: rest) : Option (Except (PktFailure ε) _ × _)) =
      some (waitPktEp.accept own, rest) := by
  unfold waitPktEpFlush
  rw [waitPktEp_own h]
  split
  · rename_i a b rx heq
    exact absurd (Prod.mk.inj (Option.some.inj heq)).1 (accept_ne_mismatch own a b)
  · rfl

/-- Packets with other uids are dropped. -/
theorem waitPktEpFlush_stale {uid : Nat} {stale : List (Packet T)}
    (h : ∀ p ∈ stale, p.uid ≠ uid) (rest : List (Packet T)) :
    (waitPktEpFlush uid (stale ++ rest) : Option (Except (PktFailure ε) _ × _)) =
      waitPktEpFlush uid rest := by
  induction stale with
  | nil => rfl
  | cons p stale ih =>
      rw [List.cons_append, waitPktEpFlush, waitPktEp_stale (h p List.mem_cons_self)]
      exact ih fun q hq => h q (List.mem_cons_of_mem p hq)

theorem waitPktEpFlush_ok {uid : Nat} {rx rest : List (Packet T)} {p : Packet T}
    (h : (waitPktEpFlush uid rx : Option (Except (PktFailure ε) _ × _)) = some (.ok p, rest)) :
    p.uid = uid := by
  induction rx with
  | nil => cases h
  | cons pkt rx ih =>
      by_cases huid : pkt.uid = uid
      · rw [waitPktEpFlush_own huid] at h
        rw [accept_ok (Prod.mk.inj (Option.some.inj h)).1]
        exact huid
      · rw [waitPktEpFlush, waitPktEp_stale huid] at h
        exact ih h

end SlavePort

/-! ### The session queue -/

namespace DispatchCall

variable {pkt : Packet T} {s s' : DispatchCall T ε}

theorem accept_ok {pkt p : Packet T}
    (h : (DispatchPort.accept pkt : Except (PktFailure ε) _) = .ok p) : p = pkt := by
  unfold DispatchPort.accept at h
  split at h
  · cases h
  · split at h
    · cases h
    · exact (Except.ok.inj h).symm

/-- A look returns with the first packet of the queue, or leaves the call where it is. -/
theorem look_cases (s : DispatchCall T ε) (sid : Nat) :
    (∃ head tail, s.port.isSpawned = true ∧ s.port.queue[sid]? = some (head :: tail) ∧
        (s.look sid).stage = .returned head (DispatchPort.accept head)) ∨
      ((s.port.isSpawned = true → ∀ head tail, s.port.queue[sid]? ≠ some (head :: tail)) ∧
        ((∃ p, (s.look sid).stage = .panicked p) ∨ s.look sid = s)) := by
  unfold look DispatchPort.waitPkt
  by_cases hspawned : s.port.isSpawned = true
  · rw [if_pos hspawned]
    cases hq : s.port.queue[sid]? with
    | none => exact Or.inr ⟨fun _ _ _ h => (by cases h), Or.inl ⟨_, rfl⟩⟩
    | some q =>
        cases q with
        | nil => exact Or.inr ⟨fun _ _ _ h => (by cases h), Or.inr rfl⟩
        | cons head tail => exact Or.inl ⟨head, tail, hspawned, rfl, rfl⟩
  · rw [if_neg hspawned]
    exact Or.inr ⟨fun h => absurd h hspawned, Or.inl ⟨_, rfl⟩⟩

end DispatchCall

/-! ### Calls on the channel -/

variable [TxStatus T ε]

namespace ReqRespPort

theorem bReqResp_own {serve : σ → List (Packet T) → Exec (List (Packet T) × σ)} {s s' : σ}
    {pkt p : Packet T}
    (h : (bReqResp serve s pkt : Exec (Option (Except (PktFailure ε) _ × _))) =
      .ok (some (.ok p, s'))) : p.uid = pkt.uid := by
  unfold bReqResp at h
  split at h
  · cases (Prod.mk.inj (Option.some.inj (Except.ok.inj h))).1
  · obtain ⟨⟨rx, s₁⟩, -, h⟩ := ExceptMap.bind_eq_ok_iff.mp h
    dsimp only at h
    split at h
    · cases h
    · rename_i res rest hwait
      obtain ⟨rfl, -⟩ := Prod.mk.inj (Option.some.inj (Except.ok.inj h))
      exact SlavePort.waitPktEp_ok hwait

theorem bReqRespFlush_own {tx rx tx' rx' : List (Packet T)} {pkt p : Packet T}
    (h : (bReqRespFlush tx rx pkt : Option (Except (PktFailure ε) _ × _)) =
      some (.ok p, tx', rx')) : p.uid = pkt.uid := by
  unfold bReqRespFlush at h
  split at h
  · cases (Prod.mk.inj (Option.some.inj h)).1
  · obtain ⟨⟨res, rest⟩, hout, heq⟩ := Option.map_eq_some_iff.mp h
    obtain ⟨rfl, -⟩ := Prod.mk.inj heq
    exact SlavePort.waitPktEpFlush_ok hout

/-- What the flushing call takes, once its request is sent. -/
theorem bReqRespFlush_takes {tx tx' rx : List (Packet T)} {pkt : Packet T}
    (hsend : MasterPort.sendPkt tx pkt = .ok tx') :
    (∀ stale own rest, rx = stale ++ own :: rest → (∀ p ∈ stale, p.uid ≠ pkt.uid) →
        own.uid = pkt.uid →
        (bReqRespFlush tx rx pkt : Option (Except (PktFailure ε) _ × _)) =
          some (SlavePort.waitPktEp.accept own, tx', rest)) ∧
      ((∀ p ∈ rx, p.uid ≠ pkt.uid) →
        (bReqRespFlush tx rx pkt : Option (Except (PktFailure ε) _ × _)) = none) := by
  unfold bReqRespFlush
  rw [hsend]
  constructor
  · intro stale own rest hrx hstale hown
    simp only [hrx, SlavePort.waitPktEpFlush_stale hstale, SlavePort.waitPktEpFlush_own hown,
      Option.map_some]
  · intro hnone
    have hflush := SlavePort.waitPktEpFlush_stale (ε := ε) hnone []
    rw [List.append_nil] at hflush
    simp only [hflush, SlavePort.waitPktEpFlush, Option.map_none]

end ReqRespPort

/-! ### Calls on the session queue -/

namespace DispatchCall

variable {pkt : Packet T} {s s' : DispatchCall T ε}

/-- What the call took off the queue, and what it returned, is the response to its request. -/
def TookOwn (pkt : Packet T) (s : DispatchCall T ε) : Prop :=
  ∀ taken res, s.stage = .returned taken res →
    taken.uid = pkt.uid ∧ ∀ p, res = .ok p → p.uid = pkt.uid

/-- A look that finds a packet finds the response in front. -/
def LooksAtOwn (pkt : Packet T) (s : DispatchCall T ε) : DispatchCallAct T → Prop
  | .look => s.port.isSpawned → ∀ sid head tail, s.stage = .waiting sid →
      s.port.queue[sid]? = some (head :: tail) → head.uid = pkt.uid
  | _ => True

/-- A step keeps to the call's own response exactly when its look does. -/
theorem tookOwn_step (hG : TookOwn pkt s) {a : DispatchCallAct T} (hs : step pkt s a = some s') :
    TookOwn pkt s' ↔ LooksAtOwn pkt s a := by
  cases a with
  | send =>
      refine ⟨fun _ => trivial, fun _ taken res hret => ?_⟩
      simp only [step] at hs
      split at hs
      · obtain rfl := Option.some.inj hs
        unfold send at hret
        split at hret
        · cases hret
        · split at hret
          · cases hret
          · cases hret
      · cases hs
  | arrive p =>
      obtain rfl := Option.some.inj hs
      exact ⟨fun _ => trivial, fun _ => hG⟩
  | look =>
      simp only [step] at hs
      split at hs
      · rename_i sid hstage
        obtain rfl := Option.some.inj hs
        rcases look_cases s sid with ⟨head, tail, hspawned, hq, hret⟩ | ⟨hnone, hstay⟩
        · constructor
          · intro hown _ sid' head' tail' hstage' hq'
            obtain rfl := DispatchStage.waiting.inj (hstage.symm.trans hstage')
            obtain ⟨rfl, -⟩ := List.cons.inj (Option.some.inj (hq.symm.trans hq'))
            exact (hown _ _ hret).1
          · intro hlook taken res hret'
            have huid := hlook hspawned sid head tail hstage hq
            obtain ⟨rfl, rfl⟩ := DispatchStage.returned.inj (hret.symm.trans hret')
            refine ⟨huid, fun p hp => ?_⟩
            rw [accept_ok hp]
            exact huid
        · constructor
          · intro _ hspawned sid' head' tail' hstage' hq'
            obtain rfl := DispatchStage.waiting.inj (hstage.symm.trans hstage')
            exact absurd hq' (hnone hspawned head' tail')
          · intro _
            rcases hstay with ⟨p, hpanic⟩ | hsame
            · intro taken res hret
              rw [hpanic] at hret
              cases hret
            · rw [hsame]
              exact hG
      · cases hs

end DispatchCall

/-- **Round trips.**  Both calls on a channel return the response to their request, and the flushing
one drops what is in front of it and takes nothing behind it.  The call on a session queue does so
in a run exactly when each of its looks that finds a packet finds the response in front. -/
theorem round_trips_own (pkt : Packet T) :
    (∀ (serve : σ → List (Packet T) → Exec (List (Packet T) × σ)) (s s' : σ) (p : Packet T),
        (ReqRespPort.bReqResp serve s pkt : Exec (Option (Except (PktFailure ε) _ × _))) =
          .ok (some (.ok p, s')) → p.uid = pkt.uid) ∧
      (∀ tx rx : List (Packet T),
        (∀ p tx' rx', (ReqRespPort.bReqRespFlush tx rx pkt :
            Option (Except (PktFailure ε) _ × _)) = some (.ok p, tx', rx') → p.uid = pkt.uid) ∧
        ∀ tx', MasterPort.sendPkt tx pkt = .ok tx' →
          (∀ stale own rest, rx = stale ++ own :: rest → (∀ p ∈ stale, p.uid ≠ pkt.uid) →
            own.uid = pkt.uid →
            (ReqRespPort.bReqRespFlush tx rx pkt : Option (Except (PktFailure ε) _ × _)) =
              some (SlavePort.waitPktEp.accept own, tx', rest)) ∧
          ((∀ p ∈ rx, p.uid ≠ pkt.uid) →
            (ReqRespPort.bReqRespFlush tx rx pkt :
              Option (Except (PktFailure ε) _ × _)) = none)) ∧
      ∀ (port : DispatchPort T) (acts : List (DispatchCallAct T)) (s₁ : DispatchCall T ε),
        run (DispatchCall.step pkt) { port } acts = some s₁ →
        ((∀ pre post s, acts = pre ++ post →
            run (DispatchCall.step pkt) { port } pre = some s → DispatchCall.TookOwn pkt s) ↔
          Along (DispatchCall.step pkt) (DispatchCall.LooksAtOwn pkt) { port } acts) := by
  refine ⟨fun _ _ _ _ h => ReqRespPort.bReqResp_own h, fun tx rx => ⟨?_, ?_⟩, ?_⟩
  · exact fun _ _ _ h => ReqRespPort.bReqRespFlush_own h
  · exact fun _ hsend => ReqRespPort.bReqRespFlush_takes hsend
  · intro port acts s₁ hrun
    refine holds_iff_along (I := fun _ => True) (fun _ _ _ _ _ => trivial)
      (fun _ _ _ _ hG hs => DispatchCall.tookOwn_step hG hs) trivial ?_ hrun
    exact fun _ _ h => (by cases h)

/-- A response that an earlier call of session 0 left in its queue. -/
def staleResponse : Packet MemBus :=
  { uid := 3, sid := some 0,
    payload := { mode := .response, cmd := .read, addr := .phys 0, pattern := .simple 1 } }

/-- The next request of the session. -/
def nextRequest : Packet MemBus :=
  { uid := 7, sid := some 0, payload := { cmd := .read, addr := .phys 8, pattern := .simple 1 } }

/-- The call returns what was left in the queue, although its own response has arrived. -/
theorem staleResponse_returned : ∃ s : DispatchCall MemBus MemBusError,
    run (DispatchCall.step nextRequest) { port := { queue := [[staleResponse]] } }
        [.send, .arrive { staleResponse with uid := 7 }, .look] = some s ∧
      s.stage = .returned staleResponse (.ok staleResponse) ∧
      staleResponse.uid ≠ nextRequest.uid :=
  ⟨_, rfl, rfl, by decide⟩

end Ra2m
