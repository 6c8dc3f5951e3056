/-
When the answers of concurrent host calls cross.

A call that has the receiving side takes whatever comes first, so the call that obtains it
as the k-th one takes the k-th packet the bus returns.  If that is the response to its
own request, the call is answered with it; if not, the call fails, and the packet is
lost to the call it was for.  So every call gets its own response exactly when the bus
returns the responses in the order in which the calls obtain the receiving side.

`Consistent` is what every step keeps, whatever the order: who has the receiving side,
what has been received, and where the request or the response of each call is.
-/
import Ra2m.Cpn.RpcBridge
import Ra2m.Lib.Runs

namespace Ra2m

namespace RpcStage

/-- The call has the receiving side. -/
def holds : RpcStage → Bool
  | holdsRx => true
  | received _ => true
  | _ => false

/-- The call has not had the receiving side yet. -/
def early : RpcStage → Bool
  | called => true
  | waitTx _ => true
  | holdsTx _ => true
  | blockedTx _ => true
  | waitRx => true
  | _ => false

end RpcStage

namespace RpcServer

variable {bridge : RpcBridge} {s s' : RpcServer}

/-! ### What the calls should get -/

/-- The packets under way, and those the bus has returned. -/
def sent (s : RpcServer) : List (Packet MemBus) := s.req.items ++ (s.bus ++ s.returned)

/-- The packets a call can still receive, now or later. -/
def underWay (s : RpcServer) : List (Packet MemBus) := s.req.items ++ (s.bus ++ s.resp.items)

/-- The call ended with the response the bus returned for its own request. -/
def Own (bridge : RpcBridge) (s : RpcServer) (call : RpcCall) (res : Except Status RpcAck) : Prop :=
  ∃ r ∈ s.returned, call.uid = some r.uid ∧
    res = bridge.answer call.req (SlavePort.waitPktEp.accept r)

/-- Every call that has sent its request is answered with its own response or can still be, and no
response is dropped. -/
structure Served (bridge : RpcBridge) (s : RpcServer) : Prop where
  own : ∀ call ∈ s.calls, call.uid.isSome = true → ∀ res, call.stage = .ended res →
    Own bridge s call res
  kept : s.discarded = []
  waiting : ∀ call ∈ s.calls, call.stage.waits = true →
    ∃ pkt ∈ s.underWay, call.uid = some pkt.uid

/-- The `k`-th call to obtain the receiving side is the one the `k`-th response is for. -/
def Matched (s : RpcServer) : Prop :=
  ∀ (k u : Nat) (r : Packet MemBus), s.order[k]? = some u → s.returned[k]? = some r → r.uid = u

/-- The step keeps the responses in the order of the calls: the side goes to the call whose response
is the next one, if that has been returned, and the bus returns the response of the call that took
the side at that place, if one has. -/
def InOrder (s : RpcServer) : RpcAct → Prop
  | .lockRx i => ∀ call ∈ s.calls[i]?, ∀ r ∈ s.returned[s.order.length]?, call.uid = some r.uid
  | .busReturn j _ _ => ∀ pkt ∈ s.bus[j]?, ∀ u ∈ s.order[s.returned.length]?, pkt.uid = u
  | _ => True

instance (s : RpcServer) : (a : RpcAct) → Decidable (s.InOrder a)
  | .lockRx i => inferInstanceAs (Decidable (∀ call ∈ s.calls[i]?, _))
  | .busReturn j _ _ => inferInstanceAs (Decidable (∀ pkt ∈ s.bus[j]?, _))
  | .call _ => isTrue trivial
  | .otherPacket => isTrue trivial
  | .check _ _ => isTrue trivial
  | .lockTx _ => isTrue trivial
  | .send _ => isTrue trivial
  | .recv _ => isTrue trivial
  | .finish _ => isTrue trivial
  | .busTake => isTrue trivial

/-! ### What every step keeps -/

/-- What the stage of a call says about the packets. -/
def StageOk (bridge : RpcBridge) (s : RpcServer) (call : RpcCall) : RpcStage → Prop
  | .called => call.uid = none
  | .waitTx pkt => call.uid = some pkt.uid ∧ pkt.payload.mode = .request
  | .holdsTx pkt => call.uid = some pkt.uid ∧ pkt.payload.mode = .request
  | .blockedTx pkt => call.uid = some pkt.uid ∧ pkt.payload.mode = .request
  | .waitRx => ∃ pkt ∈ s.sent, call.uid = some pkt.uid
  | .holdsRx => ∃ pkt ∈ s.sent, call.uid = some pkt.uid
  | .received pkt => call.uid = some pkt.uid ∧ pkt ∈ s.returned
  | .ended res => call.uid = none ∨ Own bridge s call res ∨ s.discarded ≠ []

structure CallOk (bridge : RpcBridge) (s : RpcServer) (call : RpcCall) : Prop where
  fresh : ∀ u, call.uid = some u → u < s.pktUid
  early : call.stage.early = true → ∀ u, call.uid = some u → u ∉ s.order
  stage : StageOk bridge s call call.stage

/-- How many packets have been received, and by whom the next one is. -/
def RxOk (s : RpcServer) : Prop :=
  match s.rxHeld with
  | none => s.order.length = s.received.length
  | some i => ∃ call, s.calls[i]? = some call ∧
      ((call.stage = .holdsRx ∧ ∃ front u, s.order = front ++ [u] ∧ call.uid = some u ∧
          front.length = s.received.length) ∨
        (∃ pkt, call.stage = .received pkt) ∧ s.order.length = s.received.length)

structure Consistent (bridge : RpcBridge) (s : RpcServer) : Prop where
  calls : ∀ (i : Nat) (call : RpcCall), s.calls[i]? = some call → CallOk bridge s call
  distinct : ∀ (i j : Nat) (call call' : RpcCall) (u : Nat), s.calls[i]? = some call →
    s.calls[j]? = some call' → call.uid = some u → call'.uid = some u → i = j
  holds : ∀ (i : Nat) (call : RpcCall), s.calls[i]? = some call → call.stage.holds = true →
    s.rxHeld = some i
  rx : s.RxOk
  flow : s.returned = s.received ++ s.resp.items
  nodup : s.order.Nodup
  orderFresh : ∀ u ∈ s.order, u < s.pktUid
  /-- A packet received by a call it is not for is dropped. -/
  crossed : ∀ (k u : Nat) (r : Packet MemBus), s.order[k]? = some u → s.received[k]? = some r →
    r.uid = u ∨ r ∈ s.discarded
  clean : s.Matched → s.discarded = []

theorem rxOk_of_none (hrx : s.rxHeld = none) : s.RxOk ↔ s.order.length = s.received.length := by
  unfold RxOk
  rw [hrx]

theorem rxOk_of_some {i : Nat} (hrx : s.rxHeld = some i) :
    s.RxOk ↔ ∃ call, s.calls[i]? = some call ∧
      ((call.stage = .holdsRx ∧ ∃ front u, s.order = front ++ [u] ∧ call.uid = some u ∧
          front.length = s.received.length) ∨
        (∃ pkt, call.stage = .received pkt) ∧ s.order.length = s.received.length) := by
  unfold RxOk
  rw [hrx]

theorem Consistent.init (bridge : RpcBridge) (inflightReq : Nat) (pos : 0 < inflightReq) :
    (init inflightReq pos).Consistent bridge where
  calls := by simp [RpcServer.init]
  distinct := by simp [RpcServer.init]
  holds := by simp [RpcServer.init]
  rx := rfl
  flow := rfl
  nodup := List.nodup_nil
  orderFresh := by simp [RpcServer.init]
  crossed := by simp [RpcServer.init]
  clean := fun _ => rfl

theorem getElem?_extended {α : Type} {l l' : List α} (h : l <+: l') {k : Nat} {x : α}
    (hk : l[k]? = some x) : l'[k]? = some x := by
  obtain ⟨t, rfl⟩ := h
  rw [List.getElem?_append_left (List.getElem?_eq_some_iff.mp hk).1]
  exact hk

theorem getElem?_concat {α : Type} {l : List α} {x y : α} {k : Nat}
    (h : (l ++ [x])[k]? = some y) : l[k]? = some y ∨ (k = l.length ∧ y = x) := by
  rcases Nat.lt_or_ge k l.length with hk | hk
  · rw [List.getElem?_append_left hk] at h
    exact .inl h
  · have hlast : k = l.length := by
      have := (List.getElem?_eq_some_iff.mp h).1
      rw [List.length_append, List.length_singleton] at this
      omega
    rw [hlast, List.getElem?_concat_length] at h
    exact .inr ⟨hlast, (Option.some.inj h).symm⟩

/-- What was matched later is matched already. -/
theorem Matched.of_extended (hm : s'.Matched) (horder : s.order <+: s'.order)
    (hret : s.returned <+: s'.returned) : s.Matched :=
  fun k u r hu hr => hm k u r (getElem?_extended horder hu) (getElem?_extended hret hr)

/-! ### The packets only move on -/

/-- What the calls look at outside themselves grows. -/
structure Grows (s s' : RpcServer) : Prop where
  pktUid : s.pktUid ≤ s'.pktUid
  sent : ∀ p ∈ s.sent, ∃ q ∈ s'.sent, q.uid = p.uid
  returned : ∀ r ∈ s.returned, r ∈ s'.returned
  discarded : s.discarded ≠ [] → s'.discarded ≠ []

theorem Grows.of_eq (hpkt : s.pktUid ≤ s'.pktUid) (hsent : s'.sent = s.sent)
    (hret : s'.returned = s.returned) (hdis : s.discarded ≠ [] → s'.discarded ≠ []) :
    Grows s s' where
  pktUid := hpkt
  sent := fun p hp => ⟨p, hsent ▸ hp, rfl⟩
  returned := by
    rw [hret]
    exact fun _ hr => hr
  discarded := hdis

theorem CallOk.grows {call : RpcCall} (h : CallOk bridge s call) (hg : Grows s s')
    (hearly : call.stage.early = true → ∀ u, call.uid = some u → u ∉ s'.order) :
    CallOk bridge s' call where
  fresh := fun u hu => (h.fresh u hu).trans_le hg.pktUid
  early := hearly
  stage := by
    have hstage := h.stage
    have hpkt : (∃ pkt ∈ s.sent, call.uid = some pkt.uid) →
        ∃ pkt ∈ s'.sent, call.uid = some pkt.uid := by
      rintro ⟨pkt, hmem, huid⟩
      obtain ⟨q, hq, heq⟩ := hg.sent pkt hmem
      exact ⟨q, hq, heq ▸ huid⟩
    cases hcall : call.stage with
    | called => exact (hcall ▸ hstage :)
    | waitTx pkt => exact (hcall ▸ hstage :)
    | holdsTx pkt => exact (hcall ▸ hstage :)
    | blockedTx pkt => exact (hcall ▸ hstage :)
    | waitRx =>
        rw [hcall] at hstage
        exact hpkt hstage
    | holdsRx =>
        rw [hcall] at hstage
        exact hpkt hstage
    | received pkt =>
        rw [hcall] at hstage
        exact ⟨hstage.1, hg.returned pkt hstage.2⟩
    | ended res =>
        rw [hcall] at hstage
        rcases hstage with hnone | ⟨r, hr, hown⟩ | hdis
        · exact .inl hnone
        · exact .inr (.inl ⟨r, hg.returned r hr, hown⟩)
        · exact .inr (.inr (hg.discarded hdis))

/-! ### Steps of a call -/

section

variable {i : Nat} {call call' : RpcCall}

theorem getElem?_move {j : Nat} {c : RpcCall} (hi : s.calls[i]? = some call)
    (hj : (s.calls.set i call')[j]? = some c) :
    (j = i ∧ c = call') ∨ (j ≠ i ∧ s.calls[j]? = some c) := by
  by_cases hji : j = i
  · subst hji
    obtain ⟨hlt, -⟩ := List.getElem?_eq_some_iff.mp hi
    rw [List.getElem?_set_self hlt] at hj
    exact .inl ⟨rfl, (Option.some.inj hj).symm⟩
  · rw [List.getElem?_set_ne (Ne.symm hji)] at hj
    exact .inr ⟨hji, hj⟩

/-- A call that moves on keeps its uid or gets a new one, so no two calls have the same. -/
theorem Consistent.distinct_set (h : s.Consistent bridge) (hi : s.calls[i]? = some call)
    (huid : ∀ u, call'.uid = some u → call.uid = some u ∨ s.pktUid ≤ u) :
    ∀ (j k : Nat) (c c' : RpcCall) (u : Nat), (s.calls.set i call')[j]? = some c →
      (s.calls.set i call')[k]? = some c' → c.uid = some u → c'.uid = some u → j = k := by
  have hother : ∀ (j : Nat) (c : RpcCall) (u : Nat), s.calls[j]? = some c → c.uid = some u →
      call'.uid = some u → j = i := by
    intro j c u hj hc hcall'
    rcases huid u hcall' with hcall | hnew
    · exact h.distinct j i c call u hj hi hc hcall
    · exact absurd ((h.calls j c hj).fresh u hc) (Nat.not_lt.mpr hnew)
  intro j k c c' u hj hk hc hc'
  rcases getElem?_move hi hj with ⟨hji, hcj⟩ | ⟨-, hj'⟩
  · rcases getElem?_move hi hk with ⟨hki, -⟩ | ⟨-, hk'⟩
    · rw [hji, hki]
    · rw [hji, hother k c' u hk' hc' (hcj ▸ hc)]
  · rcases getElem?_move hi hk with ⟨hki, hck⟩ | ⟨-, hk'⟩
    · rw [hki, hother j c u hj' hc (hck ▸ hc')]
    · exact h.distinct j k c c' u hj' hk' hc hc'

theorem Consistent.calls_set (h : s.Consistent bridge) (hi : s.calls[i]? = some call)
    (hg : Grows s s') (horder : s'.order = s.order) (hok : CallOk bridge s' call') :
    ∀ (j : Nat) (c : RpcCall), (s.calls.set i call')[j]? = some c → CallOk bridge s' c := by
  intro j c hj
  rcases getElem?_move hi hj with ⟨-, rfl⟩ | ⟨-, hj⟩
  · exact hok
  · exact (h.calls j c hj).grows hg (horder ▸ (h.calls j c hj).early)

/-- A call without the receiving side moves on and does not take it. -/
theorem Consistent.move (h : s.Consistent bridge) (hi : s.calls[i]? = some call)
    (hg : Grows s s') (hcalls : s'.calls = s.calls.set i call') (hrx : s'.rxHeld = s.rxHeld)
    (hresp : s'.resp = s.resp) (horder : s'.order = s.order) (hrecv : s'.received = s.received)
    (hret : s'.returned = s.returned) (hdis : s'.discarded = s.discarded)
    (hquiet : call.stage.holds = false) (hquiet' : call'.stage.holds = false)
    (huid : ∀ u, call'.uid = some u → call.uid = some u ∨ s.pktUid ≤ u)
    (hok : CallOk bridge s' call') : s'.Consistent bridge where
  calls := by
    rw [hcalls]
    exact h.calls_set hi hg horder hok
  distinct := by
    rw [hcalls]
    exact h.distinct_set hi huid
  holds := by
    intro j c hj hc
    rw [hcalls] at hj
    rw [hrx]
    rcases getElem?_move hi hj with ⟨-, rfl⟩ | ⟨-, hj⟩
    · rw [hquiet'] at hc
      cases hc
    · exact h.holds j c hj hc
  rx := by
    have hrxok := h.rx
    unfold RxOk at hrxok ⊢
    rw [hrx, horder, hrecv, hcalls]
    split at hrxok
    · exact hrxok
    · rename_i j hj
      obtain ⟨c, hc, hstage⟩ := hrxok
      refine ⟨c, ?_, hstage⟩
      have hji : i ≠ j := by
        rintro rfl
        obtain rfl := Option.some.inj (hi.symm.trans hc)
        rcases hstage with ⟨hst, -⟩ | ⟨⟨pkt, hst⟩, -⟩
        · rw [hst] at hquiet
          cases hquiet
        · rw [hst] at hquiet
          cases hquiet
      rw [List.getElem?_set_ne hji]
      exact hc
  flow := by
    rw [hret, hrecv, hresp]
    exact h.flow
  nodup := horder ▸ h.nodup
  orderFresh := fun u hu => (h.orderFresh u (horder ▸ hu)).trans_le hg.pktUid
  crossed := by
    rw [horder, hrecv, hdis]
    exact h.crossed
  clean := by
    unfold Matched
    rw [horder, hret, hdis]
    exact h.clean

/-- The other calls do not have the receiving side while this one has it, or while it is free. -/
theorem Consistent.holds_set (h : s.Consistent bridge) (hi : s.calls[i]? = some call)
    (hrx : ∀ j, s.rxHeld = some j → j = i) {rxHeld : Option Nat}
    (hcall' : call'.stage.holds = true → rxHeld = some i) :
    ∀ (j : Nat) (c : RpcCall), (s.calls.set i call')[j]? = some c → c.stage.holds = true →
      rxHeld = some j := by
  intro j c hj hc
  rcases getElem?_move hi hj with ⟨rfl, rfl⟩ | ⟨hne, hj⟩
  · exact hcall' hc
  · exact absurd (hrx j (h.holds j c hj hc)) hne

theorem Consistent.check (h : s.Consistent bridge) (hi : s.calls[i]? = some call) {now : Tick}
    (hs : s.stepCall bridge i call (.check i now) = some s') : s'.Consistent bridge := by
  have hok := h.calls i call hi
  simp only [stepCall] at hs
  split at hs
  · rename_i hstage
    have huid := hok.stage
    rw [hstage] at huid
    split at hs
    · obtain rfl := Option.some.inj hs
      refine h.move hi (.of_eq (Nat.le_refl _) rfl rfl id) rfl rfl rfl rfl rfl rfl rfl
        (by rw [hstage]; rfl) rfl (fun u hu => .inl hu) ⟨hok.fresh, ?_, .inl huid⟩
      intro hearly
      cases hearly
    · obtain rfl := Option.some.inj hs
      refine h.move hi (.of_eq (Nat.le_succ _) rfl rfl id) rfl rfl rfl rfl rfl rfl rfl
        (by rw [hstage]; rfl) rfl ?_ ⟨?_, ?_, rfl, ?_⟩
      · intro u hu
        obtain rfl := Option.some.inj hu
        exact .inr (Nat.le_refl _)
      · intro u hu
        obtain rfl := Option.some.inj hu
        exact Nat.lt_succ_self _
      · intro _ u hu hmem
        obtain rfl := Option.some.inj hu
        exact absurd (h.orderFresh _ hmem) (Nat.lt_irrefl _)
      · cases call.req with
        | read req => rfl
        | write req => rfl
  · cases hs

theorem Consistent.lockTx (h : s.Consistent bridge) (hi : s.calls[i]? = some call)
    (hs : s.stepCall bridge i call (.lockTx i) = some s') : s'.Consistent bridge := by
  have hok := h.calls i call hi
  simp only [stepCall] at hs
  split at hs
  · rename_i pkt hstage _
    obtain rfl := Option.some.inj hs
    have hpkt := hok.stage
    have hearly := hok.early
    rw [hstage] at hpkt hearly
    exact h.move hi (.of_eq (Nat.le_refl _) rfl rfl id) rfl rfl rfl rfl rfl rfl rfl
      (by rw [hstage]; rfl) rfl (fun u hu => .inl hu) ⟨hok.fresh, hearly, hpkt⟩
  · cases hs

/-- The request enters the channel, or the call waits for room. -/
theorem Consistent.sendPkt (h : s.Consistent bridge) (hi : s.calls[i]? = some call)
    {pkt : Packet MemBus} (hquiet : call.stage.holds = false) (hearly : call.stage.early = true)
    (hpkt : call.uid = some pkt.uid ∧ pkt.payload.mode = .request) :
    (s.sendPkt i call pkt).Consistent bridge := by
  have hok := h.calls i call hi
  unfold RpcServer.sendPkt
  split
  · rename_i req hreq
    obtain ⟨-, hitems, -⟩ := BoundedQueue.trySend_eq_some hreq
    have hsent : ∀ p, p ∈ s.sent ∨ p = pkt → p ∈ req.items ++ (s.bus ++ s.returned) := by
      intro p hp
      rw [hitems, List.append_assoc]
      rcases hp with hp | rfl
      · rcases List.mem_append.mp hp with hp | hp
        · exact List.mem_append_left _ hp
        · exact List.mem_append_right _ (List.mem_append_right _ hp)
      · exact List.mem_append_right _ (List.mem_append_left _ List.mem_cons_self)
    refine h.move hi ⟨Nat.le_refl _, fun p hp => ⟨p, hsent p (.inl hp), rfl⟩, fun _ hr => hr, id⟩
      rfl rfl rfl rfl rfl rfl rfl hquiet rfl (fun u hu => .inl hu)
      ⟨hok.fresh, fun _ => hok.early hearly, pkt, hsent pkt (.inr rfl), hpkt.1⟩
  · exact h.move hi (.of_eq (Nat.le_refl _) rfl rfl id) rfl rfl rfl rfl rfl rfl rfl hquiet rfl
      (fun u hu => .inl hu) ⟨hok.fresh, fun _ => hok.early hearly, hpkt⟩

theorem Consistent.send (h : s.Consistent bridge) (hi : s.calls[i]? = some call)
    (hs : s.stepCall bridge i call (.send i) = some s') : s'.Consistent bridge := by
  have hpkt := (h.calls i call hi).stage
  simp only [stepCall] at hs
  split at hs
  · rename_i pkt hstage
    rw [hstage] at hpkt
    rw [MemBus.txCheck_eq_ok_iff.mpr hpkt.2] at hs
    obtain rfl := Option.some.inj hs
    exact h.sendPkt hi (by rw [hstage]; rfl) (by rw [hstage]; rfl) hpkt
  · rename_i pkt hstage
    rw [hstage] at hpkt
    split at hs
    · obtain rfl := Option.some.inj hs
      exact h.sendPkt hi (by rw [hstage]; rfl) (by rw [hstage]; rfl) hpkt
    · cases hs
  · cases hs

/-- The call becomes the last one to have obtained the receiving side. -/
theorem Consistent.lockRx (h : s.Consistent bridge) (hi : s.calls[i]? = some call)
    (hs : s.stepCall bridge i call (.lockRx i) = some s') : s'.Consistent bridge := by
  have hok := h.calls i call hi
  simp only [stepCall] at hs
  split at hs
  · rename_i uid hstage huid hrx
    obtain rfl := Option.some.inj hs
    have hpkt := hok.stage
    rw [hstage] at hpkt
    have hnew : uid ∉ s.order := hok.early (by rw [hstage]; rfl) uid huid
    have hlen := (rxOk_of_none hrx).mp h.rx
    have hnodup : (s.order ++ [uid]).Nodup :=
      List.nodup_append.mpr ⟨h.nodup, List.nodup_singleton uid, by
        intro x hx y hy hxy
        rw [List.mem_singleton.mp hy] at hxy
        exact hnew (hxy ▸ hx)⟩
    refine ⟨?_, h.distinct_set hi fun u hu => .inl hu, ?_, ?_, h.flow, hnodup, ?_, ?_, ?_⟩
    · intro j c hj
      rcases getElem?_move hi hj with ⟨-, rfl⟩ | ⟨hne, hj⟩
      · refine ⟨hok.fresh, ?_, hpkt⟩
        intro hearly
        cases hearly
      · have hc := h.calls j c hj
        refine hc.grows (.of_eq (Nat.le_refl _) rfl rfl id) ?_
        intro hearly u hu hmem
        rcases List.mem_append.mp hmem with hmem | hmem
        · exact hc.early hearly u hu hmem
        · rw [List.mem_singleton.mp hmem] at hu
          exact hne (h.distinct j i c call uid hj hi hu huid)
    · intro j c hj hc
      rcases getElem?_move hi hj with ⟨rfl, rfl⟩ | ⟨-, hj⟩
      · rfl
      · exact absurd (h.holds j c hj hc) (by simp [hrx])
    · obtain ⟨hlt, -⟩ := List.getElem?_eq_some_iff.mp hi
      refine ⟨{ call with stage := .holdsRx }, List.getElem?_set_self hlt, .inl ⟨rfl, ?_⟩⟩
      exact ⟨s.order, uid, rfl, huid, hlen⟩
    · intro u hu
      rcases List.mem_append.mp hu with hu | hu
      · exact h.orderFresh u hu
      · rw [List.mem_singleton.mp hu]
        exact hok.fresh uid huid
    · intro k u r hu hr
      have hk : k < s.order.length := by
        rw [hlen]
        exact (List.getElem?_eq_some_iff.mp hr).1
      rw [List.getElem?_append_left hk] at hu
      exact h.crossed k u r hu hr
    · exact fun hm => h.clean (hm.of_extended (List.prefix_append _ _) List.prefix_rfl)
  · cases hs

/-- A call that is to receive is the last one in the order. -/
theorem Consistent.last_of_holdsRx (h : s.Consistent bridge) (hi : s.calls[i]? = some call)
    (hstage : call.stage = .holdsRx) :
    s.rxHeld = some i ∧ ∃ front u, s.order = front ++ [u] ∧ call.uid = some u ∧
      front.length = s.received.length := by
  have hrx := h.holds i call hi (by rw [hstage]; rfl)
  obtain ⟨c, hc, hcases⟩ := (rxOk_of_some hrx).mp h.rx
  obtain rfl := Option.some.inj (hi.symm.trans hc)
  rcases hcases with ⟨-, hlast⟩ | ⟨⟨p, hp⟩, -⟩
  · exact ⟨hrx, hlast⟩
  · rw [hstage] at hp
    cases hp

theorem Consistent.length_of_received (h : s.Consistent bridge) (hi : s.calls[i]? = some call)
    {pkt : Packet MemBus} (hstage : call.stage = .received pkt) :
    s.rxHeld = some i ∧ s.order.length = s.received.length := by
  have hrx := h.holds i call hi (by rw [hstage]; rfl)
  obtain ⟨c, hc, hcases⟩ := (rxOk_of_some hrx).mp h.rx
  obtain rfl := Option.some.inj (hi.symm.trans hc)
  rcases hcases with ⟨hst, -⟩ | ⟨-, hlen⟩
  · rw [hstage] at hst
    cases hst
  · exact ⟨hrx, hlen⟩

/-- The packet a call takes is the one at its place among those returned. -/
theorem Consistent.taken (h : s.Consistent bridge) (hi : s.calls[i]? = some call)
    (hstage : call.stage = .holdsRx) {uid : Nat} (huid : call.uid = some uid) {pkt : Packet MemBus}
    {resp : BoundedQueue (Packet MemBus)} (hrecv : s.resp.tryRecv = some (pkt, resp)) :
    s.rxHeld = some i ∧ s.order.length = s.received.length + 1 ∧
      s.order[s.received.length]? = some uid ∧
        s.returned = (s.received ++ [pkt]) ++ resp.items := by
  obtain ⟨hrx, front, u, horder, hu, hlen⟩ := h.last_of_holdsRx hi hstage
  obtain rfl := Option.some.inj (huid.symm.trans hu)
  obtain ⟨hitems, -⟩ := BoundedQueue.tryRecv_eq_some hrecv
  refine ⟨hrx, ?_, ?_, ?_⟩
  · rw [horder, List.length_append, hlen, List.length_singleton]
  · rw [horder, ← hlen, List.getElem?_concat_length]
  · rw [h.flow, hitems, List.append_cons]

theorem Consistent.recv (h : s.Consistent bridge) (hi : s.calls[i]? = some call)
    (hs : s.stepCall bridge i call (.recv i) = some s') : s'.Consistent bridge := by
  have hok := h.calls i call hi
  simp only [stepCall] at hs
  split at hs
  · rename_i uid hstage huid
    obtain ⟨⟨pkt, resp⟩, hrecv, rfl⟩ := Option.map_eq_some_iff.mp hs
    obtain ⟨hrx, hlen, hplace, hflow⟩ := h.taken hi hstage huid hrecv
    have hmem : pkt ∈ s.returned := by
      rw [hflow]
      simp
    have hlast : ∀ (k u : Nat) (r : Packet MemBus), s.order[k]? = some u →
        (s.received ++ [pkt])[k]? = some r → (u = uid ∧ r = pkt) ∨ s.received[k]? = some r := by
      intro k u r hu hr
      rcases getElem?_concat hr with hr | ⟨hk, rfl⟩
      · exact .inr hr
      · rw [hk, hplace] at hu
        exact .inl ⟨(Option.some.inj hu).symm, rfl⟩
    have hothers : ∀ j, s.rxHeld = some j → j = i :=
      fun j hj => (Option.some.inj (hrx.symm.trans hj)).symm
    unfold takePkt
    split
    · rename_i hmatch
      refine ⟨h.calls_set hi (.of_eq (Nat.le_refl _) rfl rfl id) rfl ?_,
        h.distinct_set hi fun u hu => .inl hu, h.holds_set hi hothers fun _ => hrx, ?_, hflow,
        h.nodup, h.orderFresh, ?_, h.clean⟩
      · refine ⟨hok.fresh, ?_, hmatch ▸ huid, hmem⟩
        intro hearly
        cases hearly
      · obtain ⟨hlt, -⟩ := List.getElem?_eq_some_iff.mp hi
        refine (rxOk_of_some ?_).mpr ⟨{ call with stage := .received pkt },
          List.getElem?_set_self hlt, .inr ⟨⟨pkt, rfl⟩, ?_⟩⟩
        · exact hrx
        · change s.order.length = (s.received ++ [pkt]).length
          rw [hlen, List.length_append, List.length_singleton]
      · intro k u r hu hr
        rcases hlast k u r hu hr with ⟨rfl, rfl⟩ | hr
        · exact .inl hmatch
        · exact h.crossed k u r hu hr
    · rename_i hmiss
      have hdis : s.discarded ++ [pkt] ≠ [] := by simp
      refine ⟨h.calls_set hi (.of_eq (Nat.le_refl _) rfl rfl fun _ => hdis) rfl ?_,
        h.distinct_set hi fun u hu => .inl hu, h.holds_set hi hothers ?_, ?_, hflow, h.nodup,
        h.orderFresh, ?_, ?_⟩
      · refine ⟨hok.fresh, ?_, .inr (.inr hdis)⟩
        intro hearly
        cases hearly
      · intro hholds
        cases hholds
      · change s.order.length = (s.received ++ [pkt]).length
        rw [hlen, List.length_append, List.length_singleton]
      · intro k u r hu hr
        rcases hlast k u r hu hr with ⟨-, rfl⟩ | hr
        · exact .inr (List.mem_append_right _ List.mem_cons_self)
        · rcases h.crossed k u r hu hr with heq | hr'
          · exact .inl heq
          · exact .inr (List.mem_append_left _ hr')
      · -- the packet at this place is of another call
        intro hmatched
        refine absurd (hmatched s.received.length uid pkt hplace ?_) hmiss
        change s.returned[s.received.length]? = some pkt
        rw [hflow, List.append_assoc, List.getElem?_append_right (Nat.le_refl _), Nat.sub_self]
        rfl
  · cases hs

/-- The call gives the receiving side back and is answered with the packet it took. -/
theorem Consistent.finish (h : s.Consistent bridge) (hi : s.calls[i]? = some call)
    (hs : s.stepCall bridge i call (.finish i) = some s') : s'.Consistent bridge := by
  have hok := h.calls i call hi
  simp only [stepCall] at hs
  split at hs
  · rename_i pkt hstage
    obtain rfl := Option.some.inj hs
    have hpkt := hok.stage
    rw [hstage] at hpkt
    obtain ⟨hrx, hlen⟩ := h.length_of_received hi hstage
    refine ⟨h.calls_set hi (.of_eq (Nat.le_refl _) rfl rfl id) rfl ?_,
      h.distinct_set hi fun u hu => .inl hu, h.holds_set hi ?_ ?_, hlen, h.flow, h.nodup,
      h.orderFresh, h.crossed, h.clean⟩
    · refine ⟨hok.fresh, ?_, .inr (.inl ⟨pkt, hpkt.2, hpkt.1, rfl⟩)⟩
      intro hearly
      cases hearly
    · intro j hj
      exact (Option.some.inj (hrx.symm.trans hj)).symm
    · intro hholds
      cases hholds
  · cases hs

/-! ### Steps of the bus -/

/-- A step that leaves the calls and the receiving side alone. -/
theorem Consistent.frame (h : s.Consistent bridge) (hg : Grows s s') (hcalls : s'.calls = s.calls)
    (hrx : s'.rxHeld = s.rxHeld) (horder : s'.order = s.order) (hrecv : s'.received = s.received)
    (hdis : s'.discarded = s.discarded) (hflow : s'.returned = s'.received ++ s'.resp.items)
    (hmatched : s'.Matched → s.Matched) : s'.Consistent bridge where
  calls := by
    intro j c hj
    rw [hcalls] at hj
    exact (h.calls j c hj).grows hg (horder ▸ (h.calls j c hj).early)
  distinct := hcalls ▸ h.distinct
  holds := by
    rw [hcalls, hrx]
    exact h.holds
  rx := by
    unfold RxOk
    rw [hrx, horder, hrecv, hcalls]
    exact h.rx
  flow := hflow
  nodup := horder ▸ h.nodup
  orderFresh := fun u hu => (h.orderFresh u (horder ▸ hu)).trans_le hg.pktUid
  crossed := by
    rw [horder, hrecv, hdis]
    exact h.crossed
  clean := fun hm => hdis ▸ h.clean (hmatched hm)

theorem Consistent.busTake (h : s.Consistent bridge) (hs : s.step bridge .busTake = some s') :
    s'.Consistent bridge := by
  obtain ⟨⟨pkt, req⟩, hrecv, rfl⟩ := Option.map_eq_some_iff.mp hs
  obtain ⟨hitems, -⟩ := BoundedQueue.tryRecv_eq_some hrecv
  refine h.frame ⟨Nat.le_refl _, ?_, fun _ hr => hr, id⟩ rfl rfl rfl rfl rfl h.flow id
  intro p hp
  refine ⟨p, ?_, rfl⟩
  change p ∈ req.items ++ ((s.bus ++ [pkt]) ++ s.returned)
  unfold sent at hp
  rw [hitems] at hp
  simp only [List.mem_append, List.mem_cons, List.not_mem_nil, or_false] at hp ⊢
  tauto

theorem Consistent.busReturn (h : s.Consistent bridge) {j : Nat} {payload : MemBus} {delay : Tick}
    (hs : s.step bridge (.busReturn j payload delay) = some s') : s'.Consistent bridge := by
  simp only [step] at hs
  split at hs
  · rename_i pkt hpkt
    obtain ⟨resp, hsend, rfl⟩ := Option.map_eq_some_iff.mp hs
    obtain ⟨-, hitems, -⟩ := BoundedQueue.trySend_eq_some hsend
    refine h.frame ⟨Nat.le_refl _, ?_, fun r hr => List.mem_append_left _ hr, id⟩ rfl rfl rfl rfl
      rfl ?_ ?_
    · intro p hp
      rcases List.mem_append.mp hp with hp | hp
      · exact ⟨p, List.mem_append_left _ hp, rfl⟩
      · rcases List.mem_append.mp hp with hp | hp
        · -- the request is the one that is answered, or stays with the bus
          by_cases heq : p = pkt
          · refine ⟨(pkt.setPayload payload).appendDelay delay, ?_, by rw [heq]; rfl⟩
            exact List.mem_append_right _ (List.mem_append_right _ (List.mem_append_right _
              List.mem_cons_self))
          · obtain ⟨hlt, hget⟩ := List.getElem?_eq_some_iff.mp hpkt
            have hmem : p ∈ s.bus[j] :: s.bus.eraseIdx j :=
              (List.getElem_cons_eraseIdx_perm hlt).mem_iff.mpr hp
            rw [hget] at hmem
            rcases List.mem_cons.mp hmem with hp | hp
            · exact absurd hp heq
            · exact ⟨p, List.mem_append_right _ (List.mem_append_left _ hp), rfl⟩
        · exact ⟨p, List.mem_append_right _ (List.mem_append_right _ (List.mem_append_left _ hp)),
            rfl⟩
    · change s.returned ++ _ = s.received ++ resp.items
      rw [hitems, h.flow, List.append_assoc]
    · exact fun hm => hm.of_extended List.prefix_rfl (List.prefix_append _ _)
  · cases hs

theorem Consistent.newCall (h : s.Consistent bridge) (req : RpcRequest) :
    ({ s with calls := s.calls ++ [({ req } : RpcCall)] } : RpcServer).Consistent bridge where
  calls := by
    intro j c hj
    rcases getElem?_concat hj with hj | ⟨-, rfl⟩
    · exact (h.calls j c hj).grows (.of_eq (Nat.le_refl _) rfl rfl id) (h.calls j c hj).early
    · exact ⟨by simp, by simp, rfl⟩
  distinct := by
    intro j k c c' u hj hk hc hc'
    rcases getElem?_concat hj with hj | ⟨-, rfl⟩
    · rcases getElem?_concat hk with hk | ⟨-, rfl⟩
      · exact h.distinct j k c c' u hj hk hc hc'
      · cases hc'
    · cases hc
  holds := by
    intro j c hj hc
    rcases getElem?_concat hj with hj | ⟨-, rfl⟩
    · exact h.holds j c hj hc
    · cases hc
  rx := by
    have hrxok := h.rx
    unfold RxOk at hrxok ⊢
    simp only
    split at hrxok
    · exact hrxok
    · obtain ⟨c, hc, hcases⟩ := hrxok
      refine ⟨c, ?_, hcases⟩
      rw [List.getElem?_append_left (List.getElem?_eq_some_iff.mp hc).1]
      exact hc
  flow := h.flow
  nodup := h.nodup
  orderFresh := h.orderFresh
  crossed := h.crossed
  clean := h.clean

theorem step_of_actor {a : RpcAct} {i : Nat} (ha : RpcAct.actor a = some i)
    (hs : s.step bridge a = some s') :
    ∃ call, s.calls[i]? = some call ∧ s.stepCall bridge i call a = some s' := by
  have hbind : s.step bridge a = s.calls[i]?.bind fun call => s.stepCall bridge i call a := by
    cases a with
    | call req => cases ha
    | otherPacket => cases ha
    | busTake => cases ha
    | busReturn j payload delay => cases ha
    | check j now | lockTx j | send j | lockRx j | recv j | finish j =>
        obtain rfl := Option.some.inj ha
        cases hj : s.calls[j]? with
        | none => simp only [RpcServer.step, RpcAct.actor, hj, Option.bind_none]
        | some call => simp only [RpcServer.step, RpcAct.actor, hj, Option.bind_some]
  rw [hbind] at hs
  exact Option.bind_eq_some_iff.mp hs

theorem Consistent.step (h : s.Consistent bridge) {a : RpcAct} (hs : s.step bridge a = some s') :
    s'.Consistent bridge := by
  cases a with
  | call req =>
      obtain rfl := Option.some.inj hs
      exact h.newCall req
  | otherPacket =>
      obtain rfl := Option.some.inj hs
      exact h.frame (.of_eq (Nat.le_succ _) rfl rfl id) rfl rfl rfl rfl rfl h.flow id
  | busTake => exact h.busTake hs
  | busReturn j payload delay => exact h.busReturn hs
  | check i now =>
      obtain ⟨call, hi, hs⟩ := step_of_actor rfl hs
      exact h.check hi hs
  | lockTx i =>
      obtain ⟨call, hi, hs⟩ := step_of_actor rfl hs
      exact h.lockTx hi hs
  | send i =>
      obtain ⟨call, hi, hs⟩ := step_of_actor rfl hs
      exact h.send hi hs
  | lockRx i =>
      obtain ⟨call, hi, hs⟩ := step_of_actor rfl hs
      exact h.lockRx hi hs
  | recv i =>
      obtain ⟨call, hi, hs⟩ := step_of_actor rfl hs
      exact h.recv hi hs
  | finish i =>
      obtain ⟨call, hi, hs⟩ := step_of_actor rfl hs
      exact h.finish hi hs

/-! ### Runs -/

theorem Consistent.received_le (h : s.Consistent bridge) : s.received.length ≤ s.order.length := by
  cases hrx : s.rxHeld with
  | none => exact ((rxOk_of_none hrx).mp h.rx).ge
  | some i =>
      obtain ⟨c, -, ⟨-, front, u, horder, -, hlen⟩ | ⟨-, hlen⟩⟩ := (rxOk_of_some hrx).mp h.rx
      · rw [horder, List.length_append, hlen]
        exact Nat.le_add_right _ _
      · exact hlen.ge

/-- A packet that has been received was received by the call it is for. -/
theorem Consistent.uid_mem_take (h : s.Consistent bridge) (hm : s.Matched) {pkt : Packet MemBus}
    (hpkt : pkt ∈ s.received) : pkt.uid ∈ s.order.take s.received.length := by
  obtain ⟨k, hk⟩ := List.mem_iff_getElem?.mp hpkt
  have hlt := (List.getElem?_eq_some_iff.mp hk).1
  have hret : s.returned[k]? = some pkt := by
    rw [h.flow, List.getElem?_append_left hlt]
    exact hk
  have hget := List.getElem?_eq_getElem (hlt.trans_le h.received_le)
  rw [hm k _ pkt hget hret]
  exact List.mem_take_iff_getElem.mpr ⟨k, lt_min hlt (hlt.trans_le h.received_le), rfl⟩

theorem waits_iff {stage : RpcStage} :
    stage.waits = true ↔ stage = .waitRx ∨ stage = .holdsRx := by
  cases stage <;> simp [RpcStage.waits]

/-- A call that waits has not had its response taken. -/
theorem Consistent.notTaken (h : s.Consistent bridge) {call : RpcCall} (hcall : call ∈ s.calls)
    (hwaits : call.stage.waits = true) {u : Nat} (hu : call.uid = some u) :
    u ∉ s.order.take s.received.length := by
  obtain ⟨i, hi⟩ := List.mem_iff_getElem?.mp hcall
  intro hmem
  rcases waits_iff.mp hwaits with hstage | hstage
  · exact (h.calls i call hi).early (by rw [hstage]; rfl) u hu (List.mem_of_mem_take hmem)
  · obtain ⟨-, front, u', horder, hu', hlen⟩ := h.last_of_holdsRx hi hstage
    obtain rfl := Option.some.inj (hu.symm.trans hu')
    rw [horder, ← hlen, List.take_left' rfl] at hmem
    have hnodup := h.nodup
    rw [horder] at hnodup
    exact (List.nodup_append.mp hnodup).2.2 u hmem u List.mem_cons_self rfl

/-- The packet of a call that waits is somewhere. -/
theorem CallOk.sent_of_waits {call : RpcCall} (h : CallOk bridge s call)
    (hwaits : call.stage.waits = true) : ∃ pkt ∈ s.sent, call.uid = some pkt.uid := by
  have hstage := h.stage
  rcases waits_iff.mp hwaits with hcall | hcall
  · rw [hcall] at hstage
    exact hstage
  · rw [hcall] at hstage
    exact hstage

/-- Where the responses match the calls, the calls are served. -/
theorem Consistent.served (h : s.Consistent bridge) (hm : s.Matched) : Served bridge s where
  own := by
    intro call hcall huid res hres
    obtain ⟨i, hi⟩ := List.mem_iff_getElem?.mp hcall
    have hstage := (h.calls i call hi).stage
    rw [hres] at hstage
    rcases hstage with hnone | hown | hdis
    · rw [hnone] at huid
      cases huid
    · exact hown
    · exact absurd (h.clean hm) hdis
  kept := h.clean hm
  waiting := by
    intro call hcall hwaits
    obtain ⟨i, hi⟩ := List.mem_iff_getElem?.mp hcall
    obtain ⟨pkt, hpkt, huid⟩ := (h.calls i call hi).sent_of_waits hwaits
    refine ⟨pkt, ?_, huid⟩
    unfold sent at hpkt
    rw [h.flow] at hpkt
    unfold underWay
    rcases List.mem_append.mp hpkt with hpkt | hpkt
    · exact List.mem_append_left _ hpkt
    · refine List.mem_append_right _ ?_
      rcases List.mem_append.mp hpkt with hpkt | hpkt
      · exact List.mem_append_left _ hpkt
      · refine List.mem_append_right _ ?_
        rcases List.mem_append.mp hpkt with hpkt | hpkt
        · exact absurd (h.uid_mem_take hm hpkt) (h.notTaken hcall hwaits huid)
        · exact hpkt

/-- Where no call has the receiving side, only matched responses leave none dropped. -/
theorem Consistent.matched (h : s.Consistent bridge) (hrx : s.rxHeld = none)
    (hkept : s.discarded = []) : s.Matched := by
  intro k u r hu hr
  have hlen := (rxOk_of_none hrx).mp h.rx
  have hk : k < s.received.length := by
    rw [← hlen]
    exact (List.getElem?_eq_some_iff.mp hu).1
  rw [h.flow, List.getElem?_append_left hk] at hr
  rcases h.crossed k u r hu hr with heq | hmem
  · exact heq
  · rw [hkept] at hmem
    cases hmem

theorem Consistent.run (h : s.Consistent bridge) {acts : List RpcAct}
    (hrun : Runs.run (RpcServer.step bridge) s acts = some s') : s'.Consistent bridge :=
  Runs.run_inv (fun _ _ _ h hs => h.step hs) h hrun

/-- A call only adds to the order by taking the receiving side, and never returns a response. -/
theorem stepCall_logs {a : RpcAct} (hs : s.stepCall bridge i call a = some s')
    (ha : ∀ j, a ≠ .lockRx j) : s'.order = s.order ∧ s'.returned = s.returned := by
  cases a with
  | check j now =>
      simp only [stepCall] at hs
      split at hs
      · split at hs
        · obtain rfl := Option.some.inj hs
          exact ⟨rfl, rfl⟩
        · obtain rfl := Option.some.inj hs
          exact ⟨rfl, rfl⟩
      · cases hs
  | lockTx j =>
      simp only [stepCall] at hs
      split at hs
      · obtain rfl := Option.some.inj hs
        exact ⟨rfl, rfl⟩
      · cases hs
  | send j =>
      have hsend : ∀ pkt, (s.sendPkt i call pkt).order = s.order ∧
          (s.sendPkt i call pkt).returned = s.returned := by
        intro pkt
        unfold sendPkt
        split
        · exact ⟨rfl, rfl⟩
        · exact ⟨rfl, rfl⟩
      simp only [stepCall] at hs
      split at hs
      · split at hs
        · obtain rfl := Option.some.inj hs
          exact ⟨rfl, rfl⟩
        · obtain rfl := Option.some.inj hs
          exact hsend _
      · split at hs
        · obtain rfl := Option.some.inj hs
          exact hsend _
        · cases hs
      · cases hs
  | recv j =>
      simp only [stepCall] at hs
      split at hs
      · obtain ⟨_, -, rfl⟩ := Option.map_eq_some_iff.mp hs
        unfold takePkt
        split
        · exact ⟨rfl, rfl⟩
        · exact ⟨rfl, rfl⟩
      · cases hs
  | finish j =>
      simp only [stepCall] at hs
      split at hs
      · obtain rfl := Option.some.inj hs
        exact ⟨rfl, rfl⟩
      · cases hs
  | lockRx j => exact absurd rfl (ha j)
  | call req => cases hs
  | otherPacket => cases hs
  | busTake => cases hs
  | busReturn j payload delay => cases hs

/-- Nor does the bus, but where it returns one. -/
theorem step_logs {a : RpcAct} (hs : s.step bridge a = some s') (hrx : ∀ i, a ≠ .lockRx i)
    (hbus : ∀ j payload delay, a ≠ .busReturn j payload delay) :
    s'.order = s.order ∧ s'.returned = s.returned := by
  cases a with
  | call req =>
      obtain rfl := Option.some.inj hs
      exact ⟨rfl, rfl⟩
  | otherPacket =>
      obtain rfl := Option.some.inj hs
      exact ⟨rfl, rfl⟩
  | busTake =>
      obtain ⟨_, -, rfl⟩ := Option.map_eq_some_iff.mp hs
      exact ⟨rfl, rfl⟩
  | busReturn j payload delay => exact absurd rfl (hbus j payload delay)
  | check i _ | lockTx i | send i | lockRx i | recv i | finish i =>
      obtain ⟨call, hi, hs⟩ := step_of_actor rfl hs
      exact stepCall_logs hs hrx

theorem matched_congr (horder : s'.order = s.order) (hret : s'.returned = s.returned) :
    s'.Matched ↔ s.Matched := by
  unfold Matched
  rw [horder, hret]

theorem matched_lockRx (hm : s.Matched) (hi : s.calls[i]? = some call)
    (hs : s.stepCall bridge i call (.lockRx i) = some s') : s'.Matched ↔ s.InOrder (.lockRx i) := by
  simp only [stepCall] at hs
  split at hs
  · rename_i uid _ huid _
    obtain rfl := Option.some.inj hs
    constructor
    · intro h c hc r hr
      obtain rfl := Option.some.inj (hi.symm.trans hc)
      rw [huid, h s.order.length uid r List.getElem?_concat_length hr]
    · intro h k u r hu hr
      rcases getElem?_concat hu with hu | ⟨hk, rfl⟩
      · exact hm k u r hu hr
      · rw [hk] at hr
        have huid' := h call hi r hr
        rw [huid] at huid'
        exact (Option.some.inj huid').symm
  · cases hs

theorem matched_busReturn (hm : s.Matched) {j : Nat} {payload : MemBus} {delay : Tick}
    (hs : s.step bridge (.busReturn j payload delay) = some s') :
    s'.Matched ↔ s.InOrder (.busReturn j payload delay) := by
  simp only [step] at hs
  split at hs
  · rename_i pkt hpkt
    obtain ⟨resp, -, rfl⟩ := Option.map_eq_some_iff.mp hs
    constructor
    · intro h p hp u hu
      obtain rfl := Option.some.inj (hpkt.symm.trans hp)
      have hlast :
          (s.returned ++ [(pkt.setPayload payload).appendDelay delay])[s.returned.length]? =
            some ((pkt.setPayload payload).appendDelay delay) := List.getElem?_concat_length
      have heq : ((pkt.setPayload payload).appendDelay delay).uid = u :=
        h s.returned.length u _ hu hlast
      exact heq
    · intro h k u r hu hr
      rcases getElem?_concat hr with hr | ⟨hk, rfl⟩
      · exact hm k u r hu hr
      · rw [hk] at hu
        exact h pkt hpkt u hu
  · cases hs

/-- A step keeps the responses matched exactly when it is in order. -/
theorem matched_step (hm : s.Matched) {a : RpcAct} (hs : s.step bridge a = some s') :
    s'.Matched ↔ s.InOrder a := by
  cases a with
  | lockRx i =>
      obtain ⟨call, hi, hs⟩ := step_of_actor rfl hs
      exact matched_lockRx hm hi hs
  | busReturn j payload delay => exact matched_busReturn hm hs
  | call _ | otherPacket | busTake | check _ _ | lockTx _ | send _ | recv _ | finish _ =>
      obtain ⟨horder, hret⟩ := step_logs hs (by simp) (by simp)
      exact ⟨fun _ => trivial, fun _ => (matched_congr horder hret).mpr hm⟩

/-- A step only adds to who obtained the receiving side and to what was returned. -/
theorem step_extends {a : RpcAct} (hs : s.step bridge a = some s') :
    s.order <+: s'.order ∧ s.returned <+: s'.returned := by
  cases a with
  | lockRx i =>
      obtain ⟨call, hi, hs⟩ := step_of_actor rfl hs
      simp only [stepCall] at hs
      split at hs
      · obtain rfl := Option.some.inj hs
        exact ⟨List.prefix_append _ _, List.prefix_rfl⟩
      · cases hs
  | busReturn j payload delay =>
      simp only [step] at hs
      split at hs
      · obtain ⟨resp, -, rfl⟩ := Option.map_eq_some_iff.mp hs
        exact ⟨List.prefix_rfl, List.prefix_append _ _⟩
      · cases hs
  | call _ | otherPacket | busTake | check _ _ | lockTx _ | send _ | recv _ | finish _ =>
      obtain ⟨horder, hret⟩ := step_logs hs (by simp) (by simp)
      rw [horder, hret]
      exact ⟨List.prefix_rfl, List.prefix_rfl⟩

end

theorem Matched.of_run {acts : List RpcAct} (hm : s'.Matched)
    (hrun : Runs.run (step bridge) s acts = some s') : s.Matched := by
  induction acts generalizing s with
  | nil =>
      obtain rfl : s = s' := by simpa using hrun
      exact hm
  | cons a rest ih =>
      obtain ⟨s₁, ha, hrest⟩ := Runs.run_cons_iff.mp hrun
      obtain ⟨horder, hret⟩ := step_extends ha
      exact (ih hrest).of_extended horder hret

/-- After a run the responses are matched exactly when its steps were in order. -/
theorem matched_iff_along {inflightReq : Nat} (pos : 0 < inflightReq) {acts : List RpcAct}
    (hrun : Runs.run (step bridge) (init inflightReq pos) acts = some s) :
    s.Matched ↔ Runs.Along (step bridge) InOrder (init inflightReq pos) acts := by
  have hiff := Runs.holds_iff_along (fun _ _ _ h hs => Consistent.step h hs)
    (fun _ _ _ _ hm hs => matched_step hm hs) (Consistent.init bridge inflightReq pos)
    (by simp [Matched, init]) hrun
  rw [← hiff]
  constructor
  · intro hm pre post s₁ hsplit hpre
    rw [hsplit] at hrun
    obtain ⟨s₂, h1, h2⟩ := Runs.run_append_iff.mp hrun
    obtain rfl := Option.some.inj (hpre.symm.trans h1)
    exact hm.of_run h2
  · intro h
    exact h acts [] s (List.append_nil acts).symm hrun

/-- Over any run whose steps are in order the calls are served; and where no call has the receiving
side, they are served only then. -/
theorem served_iff (bridge : RpcBridge) {inflightReq : Nat} (pos : 0 < inflightReq)
    {acts : List RpcAct} {s : RpcServer}
    (hrun : Runs.run (step bridge) (init inflightReq pos) acts = some s) :
    (Runs.Along (step bridge) InOrder (init inflightReq pos) acts → Served bridge s) ∧
      (s.rxHeld = none →
        (Served bridge s ↔ Runs.Along (step bridge) InOrder (init inflightReq pos) acts)) := by
  have h := (Consistent.init bridge inflightReq pos).run hrun
  have hiff := matched_iff_along pos hrun
  refine ⟨fun halong => h.served (hiff.mpr halong), fun hrx => ?_⟩
  rw [← hiff]
  exact ⟨fun hserved => h.matched hrx hserved.kept, h.served⟩

/-! ### Two reads at once -/

/-- A bridge to the first page. -/
def pageBridge : RpcBridge where
  params := ⟨(0, 0x1000)⟩
  uid := 0
  debugRead _ := ""
  debugWrite _ := ""
  debugErr _ := "Packet uid don't match"

def readByte (addr : UInt64) : RpcRequest := .read ⟨addr, 1⟩

/-- The response to a read of one byte. -/
def byteRead (addr : Nat) (byte : UInt8) : MemBus :=
  ((MemBus.new 0 0 .read (.phys addr) (.simple 1) (some [byte])).setMode .response)

/-- Two calls send their requests, and the first one takes the receiving side. -/
def twoReads : List RpcAct :=
  [.call (readByte 0), .call (readByte 1), .check 0 0, .check 1 0, .lockTx 0, .send 0, .lockTx 1,
    .send 1, .lockRx 0, .busTake, .busTake]

/-- The bus returns the responses in the order of the requests. -/
def returnedInOrder : List RpcAct :=
  twoReads ++ [.busReturn 0 (byteRead 0 7) 0, .recv 0, .finish 0,
    .busReturn 0 (byteRead 1 9) 0, .lockRx 1, .recv 1, .finish 1]

/-- The second target is faster. -/
def returnedCrossed : List RpcAct :=
  twoReads ++ [.busReturn 1 (byteRead 1 9) 0, .recv 0]

theorem served_iff_returnedInOrder :
    ∃ s, Runs.run (step pageBridge) (init 2 Nat.two_pos) returnedInOrder = some s ∧
      s.calls.length = 2 ∧ Served pageBridge s := by
  have hrun : Runs.run (step pageBridge) (init 2 Nat.two_pos) returnedInOrder = some _ := rfl
  exact ⟨_, hrun, rfl, (served_iff pageBridge Nat.two_pos hrun).1 (by decide)⟩

theorem returnedCrossed_not_served :
    ∃ s, Runs.run (step pageBridge) (init 2 Nat.two_pos) returnedCrossed = some s ∧
      ¬ Served pageBridge s := by
  refine ⟨_, rfl, ?_⟩
  intro h
  exact List.cons_ne_nil _ _ h.kept

end RpcServer

end Ra2m
