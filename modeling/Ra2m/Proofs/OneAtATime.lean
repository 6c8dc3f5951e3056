/-
A master that waits for each answer before it asks again.

`Linearized` orders the requests of a master to one memory.  A master with one request
under way at a time gets more: all its requests take effect in the order it sent them,
each before it is answered, and the next packet at its port is the answer to the last one
(`OneAtATime.recv`).  Nothing is asked of the other masters.

What the log says of such a master is counted: as many answers of each memory and as many
refusals as its requests before the last one called for.
-/
import Ra2m.Proofs.Linearize
import Ra2m.Proofs.RoundTrip

namespace Ra2m

open Stations (UpTo)

namespace SlavePort

/-- An answer without a session is returned as it is. -/
theorem accept_of_response {ans : Packet MemBus} (hmode : ans.payload.mode = .response)
    (hsid : ans.sid = none) :
    (waitPktEp.accept ans : Except (PktFailure MemBusError) _) = .ok ans := by
  simp only [waitPktEp.accept, MemBus.rxCheck_eq_ok_iff.mpr hmode, hsid]

/-- An answer that carries a failure is returned as that failure. -/
theorem accept_of_error {ans : Packet MemBus} {err : MemBusError}
    (hmode : ans.payload.mode = .error err) :
    (waitPktEp.accept ans : Except (PktFailure MemBusError) _) = .error (.status err) := by
  simp only [waitPktEp.accept, MemBus.rxCheck_of_error hmode]

end SlavePort

namespace XBar

variable {self : XBar}

/-- Where a request goes and what it does there, if it has a route. -/
def placeOf (self : XBar) (pkt : Packet MemBus) : List (Nat × Access UInt8) :=
  match self.route pkt.payload with
  | some (.ok dst) => [(dst, NpRam.accessOf pkt.payload)]
  | _ => []

/-- Where a request was served and what it did there. -/
def Serve.place (self : XBar) (x : Serve) : Nat × Access UInt8 := (x.dst, x.access self)

/-- The served requests of a master. -/
def servedOf (idx : Fin self.inboundLen) (log : self.NetLog) : List Serve :=
  (serves log).filter fun x => x.master = (idx : Nat)

theorem mem_askFor {dst : Nat} {pkt : Packet MemBus} {a : Nat × Access UInt8 × List UInt8} :
    a ∈ self.askFor dst pkt ↔ self.route pkt.payload = some (.ok dst) ∧
      a = (pkt.uid, NpRam.accessOf pkt.payload, pkt.payload.data) := by
  unfold askFor
  split
  · rename_i port hroute
    by_cases hport : port = dst
    · simp [hroute, hport]
    · simp [hroute, hport]
  · rename_i hroute
    simp only [List.not_mem_nil, false_iff, not_and]
    intro hdst
    exact absurd hdst (hroute dst)

/-- A request for another memory asks nothing of this one. -/
theorem askFor_of_ne {dst : Nat} {pkt : Packet MemBus}
    (h : self.route pkt.payload ≠ some (.ok dst)) : self.askFor dst pkt = [] := by
  rw [List.eq_nil_iff_forall_not_mem]
  intro a ha
  exact h (mem_askFor.mp ha).1

theorem askFor_of_route {dst : Nat} {pkt : Packet MemBus}
    (h : self.route pkt.payload = some (.ok dst)) :
    self.askFor dst pkt = [(pkt.uid, NpRam.accessOf pkt.payload, pkt.payload.data)] := by
  simp [askFor, h]

theorem mem_placeOf {pkt : Packet MemBus} {a : Nat × Access UInt8} :
    a ∈ self.placeOf pkt ↔ self.route pkt.payload = some (.ok a.1) ∧
      a.2 = NpRam.accessOf pkt.payload := by
  obtain ⟨dst, acc⟩ := a
  unfold placeOf
  split
  · rename_i port hroute
    simp [hroute, eq_comm]
  · rename_i hroute
    simp only [List.not_mem_nil, false_iff, not_and]
    intro hdst
    exact absurd hdst (hroute dst)

theorem placeOf_of_route {dst : Nat} {pkt : Packet MemBus}
    (h : self.route pkt.payload = some (.ok dst)) :
    self.placeOf pkt = [(dst, NpRam.accessOf pkt.payload)] := by
  simp [placeOf, h]

/-- What requests ask a memory for is counted by where they go. -/
theorem length_askFor (dst : Nat) (l : List (Packet MemBus)) :
    (l.flatMap (self.askFor dst)).length = (l.flatMap self.placeOf).countP fun a => a.1 = dst := by
  induction l with
  | nil => rfl
  | cons pkt rest ih =>
      rw [List.flatMap_cons, List.length_append, ih, List.flatMap_cons, List.countP_append]
      congr 1
      cases hroute : self.route pkt.payload with
      | none => simp [askFor, placeOf, hroute]
      | some r =>
          cases r with
          | error err => simp [askFor, placeOf, hroute]
          | ok port => by_cases hport : port = dst <;> simp [askFor, placeOf, hroute, hport]

/-! ### Sessions -/

/-- The packet that leaves a forward layer. -/
def Out.pkt : Out → Packet MemBus
  | .inbound _ pkt => pkt
  | .outbound _ pkt => pkt

variable {t : Timing} {pkt : Packet MemBus}

theorem forwardLayer_sid {idx : Nat} {out : Out} (h : forwardLayer t self idx pkt = .ok out) :
    out.pkt.sid = pkt.sid := by
  unfold forwardLayer at h
  dsimp only at h
  split at h
  · cases h
    rfl
  · obtain ⟨range, -, h⟩ := ExceptMap.bind_eq_ok_iff.mp h
    obtain ⟨accLen, -, h⟩ := ExceptMap.bind_eq_ok_iff.mp h
    split at h
    · cases h
      rfl
    · split at h
      · split at h
        · cases h
          rfl
        · cases h
      · cases h
        rfl

theorem backwardLayer_sid {idx i : Nat} {ans : Packet MemBus}
    (h : backwardLayer t self idx pkt = .ok (i, ans)) : ans.sid = pkt.sid := by
  unfold backwardLayer at h
  split at h
  · cases h
  · split at h
    · obtain ⟨accLen, -, h⟩ := ExceptMap.bind_eq_ok_iff.mp h
      cases h
      rfl
    · cases h

theorem forgeResp_sid {ram ram' : NpRam} {res : Except MemBusError Unit} {tx : List (Packet MemBus)}
    (h : forgeResp (NpRam.handleRequest t) ram pkt [] = .ok (res, tx, ram')) :
    ∀ resp ∈ tx, resp.sid = pkt.sid := by
  unfold forgeResp at h
  split at h
  · cases h
    exact List.forall_mem_nil _
  · obtain ⟨⟨delay, req, ram₁⟩, -, h⟩ := ExceptMap.bind_eq_ok_iff.mp h
    dsimp only at h
    split at h
    · cases h
      exact List.forall_mem_nil _
    · cases h
      simp only [List.nil_append, List.mem_singleton, forall_eq]
      cases delay with
      | none => rfl
      | some dly => rfl

/-- A turn of a process keeps the session of its packet. -/
theorem turn_sid {q : self.Station} {rams rams' : Nat → NpRam}
    {outs : List (self.Station × Packet MemBus)}
    (h : self.turn q t rams pkt = some (outs, rams')) : ∀ o ∈ outs, o.2.sid = pkt.sid := by
  cases q with
  | inbound idx =>
      simp only [turn] at h
      split at h
      · rename_i hfwd
        simp only [Option.dite_none_right_eq_some, Option.some.injEq, Prod.mk.injEq] at h
        obtain ⟨-, rfl, -⟩ := h
        exact List.forall_mem_singleton.mpr (forwardLayer_sid hfwd)
      · rename_i hfwd
        simp only [Option.dite_none_right_eq_some, Option.some.injEq, Prod.mk.injEq] at h
        obtain ⟨-, rfl, -⟩ := h
        exact List.forall_mem_singleton.mpr (forwardLayer_sid hfwd)
      · cases h
  | outbound idx =>
      simp only [turn] at h
      split at h
      · rename_i hback
        simp only [Option.dite_none_right_eq_some, Option.some.injEq, Prod.mk.injEq] at h
        obtain ⟨-, rfl, -⟩ := h
        exact List.forall_mem_singleton.mpr (backwardLayer_sid hback)
      · cases h
  | memory idx =>
      simp only [turn] at h
      split at h
      · rename_i hforge
        simp only [Option.some.injEq, Prod.mk.injEq] at h
        obtain ⟨rfl, -⟩ := h
        exact List.forall_mem_map.mpr (forgeResp_sid hforge)
      · cases h
  | master idx =>
      simp only [turn, Option.some.injEq, Prod.mk.injEq] at h
      obtain ⟨rfl, -⟩ := h
      exact List.forall_mem_nil _

/-- So no packet of the network ever gets one. -/
theorem keeps_untagged (inflight : self.Station → Nat) :
    Stations.Keeps (self.net inflight) (fun _ _ pkt => pkt.sid = none) fun _ => True :=
  ⟨fun _ _ _ _ _ _ _ hsid _ hturn =>
    ⟨trivial, fun o ho => (turn_sid hturn o ho).trans hsid⟩⟩

/-! ### The steps of the layers and of the masters -/

variable {inflight : self.Station → Nat} {s : self.NetState}

theorem inner_of_layer {b : self.NetAct} (h : ofLayer b = true) : b.Inner := by
  rintro q pkt rfl
  cases h

/-- What no layer does is what a master takes. -/
theorem exists_take_of_inner {b : self.NetAct} (hinner : b.Inner) (h : ¬ ofLayer b = true) :
    ∃ idx t, b = .take (.master idx) t := by
  cases b with
  | arrive q m => exact absurd rfl (hinner q m)
  | pass p => exact absurd rfl h
  | take q t =>
      cases q with
      | master idx => exact ⟨idx, t, rfl⟩
      | inbound idx => exact absurd rfl h
      | outbound idx => exact absurd rfl h
      | memory idx => exact absurd rfl h

/-- A master draws nothing for what it takes. -/
theorem exists_take {idx : Fin self.inboundLen} {t : Timing} {net : self.NetState}
    (h : (self.net inflight).step s (.take (.master idx) t) = some net) :
    ∃ src ans rest, s.queue (.master idx) = (src, ans) :: rest ∧
      ∃ net', (self.net inflight).step s (.take (.master idx) {}) = some net' := by
  cases Stations.step_iff.mp h with
  | take q t src ans rest outs shared hand queue work =>
      exact ⟨src, ans, rest, queue, _,
        Stations.step_iff.mpr (.take _ ({} : Timing) src ans rest [] s.shared hand queue rfl)⟩

end XBar

namespace MemSystem

variable {sys : MemSystem} {idx : Fin sys.xbar.inboundLen} {dst : Fin sys.xbar.outboundLen}
  {flat : List UInt8} {inflight : sys.xbar.Station → Nat} {s s' : sys.xbar.NetState}

/-! ### What the log says of one master -/

theorem UpTo_eq_of_length {α : Type*} {done : Prop} {l l' : List α} (h : UpTo done l l')
    (hlen : l'.length ≤ l.length) : l = l' := h.isPrefix.eq_of_length_le hlen

theorem servedFor_eq_filter (log : sys.xbar.NetLog) :
    servedFor idx dst log = (XBar.servedOf idx log).filter fun x => x.dst = (dst : Nat) := by
  unfold servedFor XBar.servedOf
  rw [List.filter_filter]
  refine List.filter_congr fun x _ => ?_
  rw [Bool.decide_and]
  exact Bool.and_comm _ _

/-- The served requests of a master are counted by where they were served. -/
theorem length_servedFor (log : sys.xbar.NetLog) : (servedFor idx dst log).length =
      ((XBar.servedOf idx log).map (XBar.Serve.place sys.xbar)).countP
        fun a => a.1 = (dst : Nat) := by
  rw [servedFor_eq_filter, List.countP_map, List.countP_eq_length_filter]
  rfl

/-- A master got no more answers of a memory than were served, and no more were served than it
asked for. -/
theorem Linearized.length_le (h : Linearized sys flat s) (idx : Fin sys.xbar.inboundLen)
    (dst : Fin sys.xbar.outboundLen) :
    (XBar.answers idx dst s.log).length ≤ (servedFor idx dst s.log).length ∧
      (servedFor idx dst s.log).length ≤
        ((XBar.requests idx s.log).flatMap (sys.xbar.askFor dst)).length := by
  have hans := (h.answers idx dst).isPrefix.length_le
  have hreq := (h.requests idx dst).isPrefix.length_le
  simp only [List.length_map] at hans hreq
  exact ⟨hans, hreq⟩

theorem Linearized.length_refusals_le (h : Linearized sys flat s) (idx : Fin sys.xbar.inboundLen) :
    (XBar.refusals idx s.log).length ≤
      ((XBar.requests idx s.log).flatMap sys.xbar.refusalOf).length := by
  have href := (h.refusals idx).isPrefix.length_le
  simpa using href

/-- When a master took an answer of a memory for each of its requests to it, the last one is for the
last request, and that was served after the others. -/
theorem Linearized.last_served (h : Linearized sys flat s)
    {asked : List (Nat × Access UInt8 × List UInt8)} {a : Nat × Access UInt8 × List UInt8}
    {old : List (Packet MemBus)} {ans : Packet MemBus}
    (hasked : (XBar.requests idx s.log).flatMap (sys.xbar.askFor dst) = asked ++ [a])
    (hans : XBar.answers idx dst s.log = old ++ [ans]) (hlen : old.length = asked.length) :
    ∃ pre x post, XBar.serves s.log = pre ++ x :: post ∧ x.master = (idx : Nat) ∧
      x.dst = (dst : Nat) ∧ (∀ y ∈ post, y.master = (idx : Nat) → y.dst ≠ (dst : Nat)) ∧
      outcome x.ans = outcome ans ∧ (x.req.uid, x.access sys.xbar, x.req.payload.data) = a := by
  have hreq := h.requests idx dst
  have hout := h.answers idx dst
  obtain ⟨h2, h1⟩ := h.length_le idx dst
  rw [hasked] at hreq h1
  rw [hans] at hout h2
  simp only [List.length_append, List.length_singleton] at h1 h2
  have hreq' := UpTo_eq_of_length hreq (by simp; omega)
  have hout' := UpTo_eq_of_length hout (by simp; omega)
  obtain ⟨init, last, hserved, -, hlast⟩ := List.map_eq_append_iff.mp hreq'
  obtain ⟨x, rfl, hx⟩ := List.map_eq_singleton_iff.mp hlast
  rw [hserved, List.map_append, List.map_append] at hout'
  have hxans := (List.append_inj' hout' rfl).2
  obtain ⟨pre, post', hsplit, -, hpost⟩ := List.filter_eq_append_iff.mp hserved
  obtain ⟨mid, post, rfl, -, hown, hnil⟩ := List.filter_eq_cons_iff.mp hpost
  simp only [decide_eq_true_eq] at hown
  refine ⟨pre ++ mid, x, post, by rw [hsplit, List.append_assoc], hown.1, hown.2, ?_, ?_, hx⟩
  · intro y hy hmaster hdst
    have hno := List.filter_eq_nil_iff.mp hnil y hy
    exact hno (by simp [hmaster, hdst])
  · simpa using hxans.symm

/-- A served request is one of the requests of its master, and was routed to its memory. -/
theorem Linearized.served (h : Linearized sys flat s) {x : XBar.Serve}
    (hx : x ∈ XBar.serves s.log) : ∃ (idx : Fin sys.xbar.inboundLen)
      (dst : Fin sys.xbar.outboundLen), x.master = idx ∧ x.dst = dst ∧
      ∃ pkt ∈ XBar.requests idx s.log, sys.xbar.route pkt.payload = some (.ok (dst : Nat)) ∧
        x.access sys.xbar = NpRam.accessOf pkt.payload := by
  obtain ⟨idx, dst, hmaster, hdst⟩ : ∃ (idx : Fin sys.xbar.inboundLen)
      (dst : Fin sys.xbar.outboundLen), x.master = idx ∧ x.dst = dst := by
    obtain ⟨e, -, hx⟩ := List.mem_flatMap.mp hx
    split at hx
    · rename_i dst idx req outs
      obtain ⟨out, -, rfl⟩ := List.mem_map.mp hx
      exact ⟨idx, dst, rfl, rfl⟩
    · cases hx
  refine ⟨idx, dst, hmaster, hdst, ?_⟩
  have hmem : x ∈ servedFor idx dst s.log := List.mem_filter.mpr ⟨hx, by simp [hmaster, hdst]⟩
  have hasked := (h.requests idx dst).isPrefix.subset (List.mem_map_of_mem hmem)
  obtain ⟨pkt, hpkt, ha⟩ := List.mem_flatMap.mp hasked
  obtain ⟨hroute, heq⟩ := XBar.mem_askFor.mp ha
  exact ⟨pkt, hpkt, hroute, (Prod.mk.inj (Prod.mk.inj heq).2).1⟩

/-- A request that has a route lies in the flat memory. -/
theorem inRange_of_route {req : MemBus} {addr len port size : Nat} (hreq : req.Request addr len)
    (hroute : sys.xbar.route req = some (.ok port))
    (hcovered : ∀ e ∈ sys.ranges, e.1 + e.2.1 ≤ size) : (NpRam.accessOf req).InRange size := by
  rw [route_eq sys hreq] at hroute
  cases hfind : sys.xbar.addrMap.findPort addr len with
  | error err =>
      rw [hfind] at hroute
      cases hroute
  | ok out =>
      obtain ⟨e, he, -, -, hlo, hhi⟩ := findPort_ok hfind
      have hcov := hcovered e he
      rcases hreq.cmd with hcmd | ⟨hcmd, hdata⟩
      · simp only [NpRam.accessOf, hreq.subrange, hreq.pattern, hcmd, Access.InRange]
        omega
      · simp only [NpRam.accessOf, hreq.subrange, hreq.pattern, hcmd, Access.InRange, hdata]
        omega

/-! ### Which steps change it -/

/-- A step of the processes brings no request. -/
theorem requests_of_inner {b : sys.xbar.NetAct} (hb : b.Inner)
    (hs : Concurrent sys inflight flat s) (hs' : Concurrent sys inflight flat s')
    (hstep : (sys.xbar.net inflight).step s b = some s') (idx : Fin sys.xbar.inboundLen) :
    XBar.requests idx s'.log = XBar.requests idx s.log := by
  rw [hs'.requests_eq, hs.requests_eq]
  exact Stations.bySrc_none_step hb hstep _

/-- A request that is sent comes to its port, and to no other. -/
theorem requests_of_send {i : Fin sys.xbar.inboundLen} {req : Packet MemBus}
    (hstep : (sys.xbar.net inflight).step s (.arrive (.inbound i) req) = some s')
    (idx : Fin sys.xbar.inboundLen) : XBar.requests idx s'.log =
      XBar.requests idx s.log ++ if i = idx then [req] else [] := by
  cases Stations.step_iff.mp hstep with
  | arrive q m room => by_cases hi : i = idx <;> simp [XBar.requests, Stations.arrivals, hi]

/-- Only a master takes packets off its port. -/
theorem taken_of_ne {b : sys.xbar.NetAct} (hb : ∀ t, b ≠ .take (.master idx) t)
    (hstep : (sys.xbar.net inflight).step s b = some s') :
    Stations.taken (.master idx) s'.log = Stations.taken (.master idx) s.log := by
  cases Stations.step_iff.mp hstep with
  | arrive q m room => simp [Stations.taken]
  | pass p q m rest hand room => simp [Stations.taken]
  | take q t src m rest outs shared hand queue work =>
      have hq : q ≠ .master idx := fun h => hb t (by rw [h])
      simp [Stations.taken, hq]

/-- A step serves one request or none. -/
theorem serves_of_step (hpart : sys.Partitioned) {b : sys.xbar.NetAct}
    (hs : Concurrent sys inflight flat s) (hstep : (sys.xbar.net inflight).step s b = some s') :
    XBar.serves s'.log = XBar.serves s.log ∨
      ∃ x, XBar.serves s'.log = XBar.serves s.log ++ [x] := by
  cases Stations.step_iff.mp hstep with
  | arrive q m room => simp [XBar.serves]
  | pass p q m rest hand room => simp [XBar.serves]
  | take q t src m rest outs shared hand queue work =>
      have hk : sys.Kind q src m := hs.regular.sound.queue q (src, m) (queue ▸ List.mem_cons_self)
      cases turned_of_turn hpart hs.regular.sound.shared hk work with
      | forward => simp [XBar.serves]
      | refuse => simp [XBar.serves]
      | deliver => simp [XBar.serves]
      | receive => simp [XBar.serves]
      | serve => simp [XBar.serves]

/-! ### One request at a time -/

/-- All requests of a master were answered or refused but for at most one, and they took effect in
the order they were sent. -/
structure OneAtATime (sys : MemSystem) (idx : Fin sys.xbar.inboundLen)
    (done cur : List (Packet MemBus)) (s : sys.xbar.NetState) : Prop where
  requests : XBar.requests idx s.log = done ++ cur
  single : cur.length ≤ 1
  answers : ∀ dst : Fin sys.xbar.outboundLen,
    (XBar.answers idx dst s.log).length = (done.flatMap (sys.xbar.askFor dst)).length
  refusals : (XBar.refusals idx s.log).length = (done.flatMap sys.xbar.refusalOf).length
  order : (XBar.servedOf idx s.log).map (XBar.Serve.place sys.xbar) =
      done.flatMap sys.xbar.placeOf ∨
    (XBar.servedOf idx s.log).map (XBar.Serve.place sys.xbar) =
      (done ++ cur).flatMap sys.xbar.placeOf

variable {done cur : List (Packet MemBus)}

theorem OneAtATime.init (sys : MemSystem) (idx : Fin sys.xbar.inboundLen) (rams : Nat → NpRam) :
    OneAtATime sys idx [] [] (Stations.State.init rams) where
  requests := rfl
  single := Nat.zero_le 1
  answers _ := rfl
  refusals := rfl
  order := Or.inl rfl

/-- The master sends its next request. -/
theorem OneAtATime.send (h : OneAtATime sys idx done [] s) {req : Packet MemBus}
    (hstep : (sys.xbar.net inflight).step s (.arrive (.inbound idx) req) = some s') :
    OneAtATime sys idx done [req] s' := by
  have htaken : Stations.taken (.master idx) s'.log = Stations.taken (.master idx) s.log :=
    taken_of_ne (by intro t heq; cases heq) hstep
  have hserves : XBar.serves s'.log = XBar.serves s.log := by
    cases Stations.step_iff.mp hstep with
    | arrive q m room => simp [XBar.serves]
  refine ⟨?_, Nat.le_refl 1, ?_, ?_, Or.inl ?_⟩
  · rw [requests_of_send hstep, if_pos rfl, h.requests, List.append_nil]
  · intro dst
    rw [XBar.answers, htaken]
    exact h.answers dst
  · rw [XBar.refusals, htaken]
    exact h.refusals
  · have horder : (XBar.servedOf idx s.log).map (XBar.Serve.place sys.xbar) =
        done.flatMap sys.xbar.placeOf := by simpa using h.order
    rw [XBar.servedOf, hserves]
    exact horder

/-- A request that is served for the master is the one under way. -/
theorem OneAtATime.served (h : OneAtATime sys idx done cur s) (hlin : Linearized sys flat s')
    (hreqs : XBar.requests idx s'.log = XBar.requests idx s.log) {x : XBar.Serve}
    (hserves : XBar.serves s'.log = XBar.serves s.log ++ [x]) (hx : x.master = (idx : Nat))
    {dst : Fin sys.xbar.outboundLen} (hdst : x.dst = (dst : Nat)) :
    (XBar.servedOf idx s'.log).map (XBar.Serve.place sys.xbar) =
      (done ++ cur).flatMap sys.xbar.placeOf := by
  have hgrown : XBar.servedOf idx s'.log = XBar.servedOf idx s.log ++ [x] := by
    rw [XBar.servedOf, hserves, List.filter_append]
    simp [XBar.servedOf, hx]
  have hfor : servedFor idx dst s'.log = servedFor idx dst s.log ++ [x] := by
    rw [servedFor_eq_filter, hgrown, List.filter_append, ← servedFor_eq_filter]
    simp [hdst]
  have hle := (hlin.length_le idx dst).2
  have hcount : (servedFor idx dst s.log).length = _ := length_servedFor s.log
  rw [hfor, List.length_append, List.length_singleton, hreqs, h.requests, List.flatMap_append,
    List.length_append, hcount, XBar.length_askFor, XBar.length_askFor] at hle
  rcases h.order with horder | horder
  · rw [horder] at hle
    -- The request under way is for that memory, and it is the last one served there.
    obtain ⟨a, hmem, hadst⟩ :
        ∃ a ∈ cur.flatMap sys.xbar.placeOf, decide (a.1 = (dst : Nat)) = true :=
      List.countP_pos_iff.mp (by omega)
    obtain ⟨pkt, hpkt, ha⟩ := List.mem_flatMap.mp hmem
    obtain rfl : cur = [pkt] := by
      have hsingle := h.single
      cases cur with
      | nil => cases hpkt
      | cons p rest =>
          obtain rfl : rest = [] := List.eq_nil_of_length_eq_zero (by simpa using hsingle)
          rw [List.mem_singleton.mp hpkt]
    obtain ⟨hroute, -⟩ := XBar.mem_placeOf.mp ha
    simp only [decide_eq_true_eq] at hadst
    rw [hadst] at hroute
    have hreq := hlin.requests idx dst
    rw [hfor, hreqs, h.requests, List.flatMap_append, List.flatMap_singleton,
      XBar.askFor_of_route hroute] at hreq
    have heq := UpTo_eq_of_length hreq (by
      rw [List.length_map, List.length_append, List.length_append, hcount, horder,
        XBar.length_askFor]
      rfl)
    rw [List.map_append] at heq
    have hlast := (List.append_inj' heq rfl).2
    simp only [List.map_cons, List.map_nil, List.cons.injEq, Prod.mk.injEq, and_true] at hlast
    rw [hgrown, List.map_append, horder, List.flatMap_append, List.flatMap_singleton,
      XBar.placeOf_of_route hroute]
    simp only [List.map_cons, List.map_nil, XBar.Serve.place, hdst, hlast.2.1]
  · rw [horder, List.flatMap_append, List.countP_append] at hle
    omega

/-- Steps of the others change nothing for it. -/
theorem OneAtATime.other (hpart : sys.Partitioned) (h : OneAtATime sys idx done cur s)
    (hs : Concurrent sys inflight flat s) (hs' : Concurrent sys inflight flat s')
    {b : sys.xbar.NetAct} (hstep : (sys.xbar.net inflight).step s b = some s')
    (hsend : ∀ req, b ≠ .arrive (.inbound idx) req) (htake : ∀ t, b ≠ .take (.master idx) t) :
    OneAtATime sys idx done cur s' := by
  have htaken : Stations.taken (.master idx) s'.log = Stations.taken (.master idx) s.log :=
    taken_of_ne htake hstep
  have hreqs : XBar.requests idx s'.log = XBar.requests idx s.log := by
    by_cases hb : b.Inner
    · exact requests_of_inner hb hs hs' hstep idx
    · cases Stations.step_iff.mp hstep with
      | take q t src m rest outs shared hand queue work =>
          exact absurd (by intro q m heq; cases heq) hb
      | pass p q m rest hand room => exact absurd (by intro q m heq; cases heq) hb
      | arrive q m room =>
          have hq : q ≠ .inbound idx := fun heq => hsend m (by rw [heq])
          simp [XBar.requests, Stations.arrivals, hq]
  refine ⟨hreqs.trans h.requests, h.single, ?_, ?_, ?_⟩
  · intro dst
    rw [XBar.answers, htaken]
    exact h.answers dst
  · rw [XBar.refusals, htaken]
    exact h.refusals
  · rcases serves_of_step hpart hs hstep with hserves | ⟨x, hserves⟩
    · rw [XBar.servedOf, hserves]
      exact h.order
    · have hlin := hs'.linearized hpart
      obtain ⟨i, dst, hmaster, hdst, -⟩ := hlin.served (hserves ▸ List.mem_append_right _
        (List.mem_singleton_self x))
      by_cases hi : i = idx
      · subst hi
        exact Or.inr (h.served hlin hreqs hserves hmaster hdst)
      · have hne : x.master ≠ (idx : Nat) := fun heq => hi (Fin.ext (hmaster.symm.trans heq))
        have hsame : XBar.servedOf idx s'.log = XBar.servedOf idx s.log := by
          rw [XBar.servedOf, hserves, List.filter_append]
          simp [XBar.servedOf, hne]
        rw [hsame]
        exact h.order

/-- What the last request of a master is answered with: the error of the address map, or what it
found when it took effect, after the master's requests before it. -/
inductive AnsweredAs (sys : MemSystem) (idx : Fin sys.xbar.inboundLen) (flat : List UInt8)
    (log : sys.xbar.NetLog) (before : List (Packet MemBus)) (pkt ans : Packet MemBus) : Prop where
  | refused (err : AddrRangeError) (route : sys.xbar.route pkt.payload = some (.error err))
      (mode : ans.payload.mode = .error (.addrRange err))
  | served (dst : Nat) (pre : List XBar.Serve) (x : XBar.Serve) (post : List XBar.Serve)
      (route : sys.xbar.route pkt.payload = some (.ok dst))
      (serves : XBar.serves log = pre ++ x :: post) (master : x.master = (idx : Nat))
      (access : x.access sys.xbar = NpRam.accessOf pkt.payload)
      (order : (pre.filter fun y => y.master = (idx : Nat)).map (XBar.Serve.place sys.xbar) =
        before.flatMap sys.xbar.placeOf)
      (mode : ans.payload.mode = .response)
      (data : ans.payload.data = pkt.payload.data ++
        (NpRam.accessOf pkt.payload).result (sys.xbar.memoryAfter flat pre))

/-- A packet of one request is the packet under way. -/
theorem OneAtATime.cur_eq (h : OneAtATime sys idx done cur s) {β : Type}
    {f : Packet MemBus → List β}
    (hpos : 0 < (cur.flatMap f).length) : ∃ pkt, cur = [pkt] ∧ f pkt ≠ [] := by
  have hsingle := h.single
  cases cur with
  | nil => cases hpos
  | cons pkt rest =>
      obtain rfl : rest = [] := List.eq_nil_of_length_eq_zero (by simpa using hsingle)
      rw [List.flatMap_singleton] at hpos
      exact ⟨pkt, rfl, List.ne_nil_of_length_pos hpos⟩

theorem route_of_refusalOf {pkt : Packet MemBus} (h : sys.xbar.refusalOf pkt ≠ []) :
    ∃ err, sys.xbar.route pkt.payload = some (.error err) ∧
      sys.xbar.refusalOf pkt = [(pkt.uid, .error (.addrRange err))] := by
  unfold XBar.refusalOf at h ⊢
  split at h
  · rename_i err hroute
    exact ⟨err, hroute, rfl⟩
  · exact absurd rfl h

theorem refusalOf_of_route {pkt : Packet MemBus} {dst : Nat}
    (h : sys.xbar.route pkt.payload = some (.ok dst)) : sys.xbar.refusalOf pkt = [] := by
  unfold XBar.refusalOf
  rw [h]

theorem placeOf_of_refused {pkt : Packet MemBus} {err : AddrRangeError}
    (h : sys.xbar.route pkt.payload = some (.error err)) : sys.xbar.placeOf pkt = [] := by
  unfold XBar.placeOf
  rw [h]

/-- The packet at the master's port refuses its last request. -/
theorem OneAtATime.recv_refusal (h : OneAtATime sys idx done cur s) (hlin : Linearized sys flat s')
    (hreqs : XBar.requests idx s'.log = XBar.requests idx s.log)
    (hserves : XBar.serves s'.log = XBar.serves s.log) {ans : Packet MemBus}
    (hans : ∀ dst, XBar.answers idx dst s'.log = XBar.answers idx dst s.log)
    (href : XBar.refusals idx s'.log = XBar.refusals idx s.log ++ [ans]) :
    ∃ pkt, cur = [pkt] ∧ OneAtATime sys idx (done ++ [pkt]) [] s' ∧ ans.uid = pkt.uid ∧
      AnsweredAs sys idx flat s'.log done pkt ans := by
  have hle := hlin.length_refusals_le idx
  rw [href, hreqs, h.requests, List.flatMap_append, List.length_append, List.length_append,
    h.refusals, List.length_singleton] at hle
  obtain ⟨pkt, rfl, hne⟩ := h.cur_eq (f := sys.xbar.refusalOf) (by omega)
  obtain ⟨err, hroute, hrefusal⟩ := route_of_refusalOf hne
  have hup := hlin.refusals idx
  rw [href, hreqs, h.requests, List.flatMap_append, List.flatMap_singleton, hrefusal] at hup
  have heq := UpTo_eq_of_length hup (by simp [h.refusals])
  rw [List.map_append] at heq
  have hlast := (List.append_inj' heq rfl).2
  simp only [List.map_cons, List.map_nil, List.cons.injEq, Prod.mk.injEq, and_true] at hlast
  refine ⟨pkt, rfl, ⟨?_, Nat.zero_le 1, fun dst => ?_, ?_, ?_⟩, hlast.1,
    .refused err hroute hlast.2⟩
  · rw [hreqs, h.requests, List.append_nil]
  · have hnone : sys.xbar.askFor dst pkt = [] := XBar.askFor_of_ne (by simp [hroute])
    rw [hans, h.answers, List.flatMap_append, List.flatMap_singleton, hnone, List.append_nil]
  · rw [href, List.flatMap_append, List.flatMap_singleton, hrefusal, List.length_append,
      List.length_append, h.refusals]
    rfl
  · left
    rw [XBar.servedOf, hserves, List.flatMap_append, List.flatMap_singleton,
      placeOf_of_refused hroute, List.append_nil]
    have horder := h.order
    rw [List.flatMap_append, List.flatMap_singleton, placeOf_of_refused hroute, List.append_nil,
      or_self] at horder
    exact horder

/-- The packet at the master's port answers its last request. -/
theorem OneAtATime.recv_answer (h : OneAtATime sys idx done cur s) (hlin : Linearized sys flat s')
    (hreqs : XBar.requests idx s'.log = XBar.requests idx s.log)
    (hserves : XBar.serves s'.log = XBar.serves s.log) {ans : Packet MemBus}
    {d : Fin sys.xbar.outboundLen} (hans : ∀ dst, XBar.answers idx dst s'.log =
      XBar.answers idx dst s.log ++ if dst = d then [ans] else [])
    (href : XBar.refusals idx s'.log = XBar.refusals idx s.log) :
    ∃ pkt, cur = [pkt] ∧ OneAtATime sys idx (done ++ [pkt]) [] s' ∧ ans.uid = pkt.uid ∧
      AnsweredAs sys idx flat s'.log done pkt ans := by
  obtain ⟨hle₁, hle₂⟩ := hlin.length_le idx d
  have hlast := hans d
  rw [if_pos rfl] at hlast
  rw [hlast, List.length_append, h.answers, List.length_singleton] at hle₁
  rw [hreqs, h.requests, List.flatMap_append, List.length_append] at hle₂
  obtain ⟨pkt, rfl, hne⟩ := h.cur_eq (f := sys.xbar.askFor d) (by omega)
  have hroute : sys.xbar.route pkt.payload = some (.ok (d : Nat)) := by
    by_contra hno
    exact hne (XBar.askFor_of_ne hno)
  have hask := XBar.askFor_of_route hroute
  -- What was served for the master is as much as it asked for.
  have horder : (XBar.servedOf idx s'.log).map (XBar.Serve.place sys.xbar) =
      done.flatMap sys.xbar.placeOf ++ [((d : Nat), NpRam.accessOf pkt.payload)] := by
    have hsame : XBar.servedOf idx s'.log = XBar.servedOf idx s.log := by
      rw [XBar.servedOf, hserves]
      rfl
    rw [length_servedFor, hsame, XBar.length_askFor] at hle₁
    rcases h.order with horder | horder
    · rw [horder] at hle₁
      omega
    · rw [hsame, horder, List.flatMap_append, List.flatMap_singleton, XBar.placeOf_of_route hroute]
  have hasked : (XBar.requests idx s'.log).flatMap (sys.xbar.askFor d) =
      done.flatMap (sys.xbar.askFor d) ++
        [(pkt.uid, NpRam.accessOf pkt.payload, pkt.payload.data)] := by
    rw [hreqs, h.requests, List.flatMap_append, List.flatMap_singleton, hask]
  obtain ⟨pre, x, post, hsplit, hmaster, hxd, hpost, hout, hx⟩ :=
    hlin.last_served hasked hlast (h.answers d)
  obtain ⟨hxuid, hmode, hdata⟩ := hlin.serial pre x post hsplit
  simp only [Prod.mk.injEq] at hx
  obtain ⟨huid, hxacc, hxdata⟩ := hx
  simp only [outcome, Prod.mk.injEq] at hout
  obtain ⟨houtuid, hansmode, hansdata⟩ := hout
  have hpre : (pre.filter fun y => y.master = (idx : Nat)).map (XBar.Serve.place sys.xbar) =
      done.flatMap sys.xbar.placeOf := by
    have hplace : x.place sys.xbar = ((d : Nat), NpRam.accessOf pkt.payload) :=
      Prod.ext hxd hxacc
    rw [XBar.servedOf, hsplit, List.filter_append, List.filter_cons_of_pos (by simpa using hmaster),
      List.map_append, List.map_cons, hplace] at horder
    -- Nothing of the master comes after it, for it would have been served at the same memory.
    rcases List.eq_nil_or_concat' (post.filter fun y => y.master = (idx : Nat)) with hnil | hsnoc
    · rw [hnil] at horder
      exact (List.append_inj' horder rfl).1
    · obtain ⟨init, y, hy⟩ := hsnoc
      have hymem : y ∈ post.filter fun y => y.master = (idx : Nat) := by simp [hy]
      obtain ⟨hypost, hym⟩ := List.mem_filter.mp hymem
      rw [hy, List.map_append, ← List.cons_append, ← List.append_assoc] at horder
      have hyplace := (List.append_inj' horder rfl).2
      simp only [List.map_cons, List.map_nil, List.cons.injEq, and_true] at hyplace
      exact absurd (congrArg Prod.fst hyplace) (hpost y hypost (by simpa using hym))
  refine ⟨pkt, rfl, ⟨?_, Nat.zero_le 1, fun dst => ?_, ?_, Or.inl ?_⟩, ?_,
    .served d pre x post hroute hsplit hmaster hxacc hpre (hansmode.symm.trans hmode) ?_⟩
  · rw [hreqs, h.requests, List.append_nil]
  · rw [hans, List.flatMap_append, List.flatMap_singleton, List.length_append, List.length_append,
      h.answers]
    by_cases hd : dst = d
    · subst hd
      rw [if_pos rfl, hask]
      rfl
    · have hnone : sys.xbar.askFor dst pkt = [] :=
        XBar.askFor_of_ne (by simp [hroute, Fin.val_inj, Ne.symm hd])
      rw [if_neg hd, hnone]
      rfl
  · rw [href, h.refusals, List.flatMap_append, List.flatMap_singleton, refusalOf_of_route hroute,
      List.append_nil]
  · rw [horder, List.flatMap_append, List.flatMap_singleton, XBar.placeOf_of_route hroute]
  · rw [← houtuid, hxuid, huid]
  · rw [← hansdata, hdata, hxacc, hxdata]

/-- **The next packet at the port of such a master is the answer to its last request.** -/
theorem OneAtATime.recv (hpart : sys.Partitioned) (h : OneAtATime sys idx done cur s)
    (hs : Concurrent sys inflight flat s) (hs' : Concurrent sys inflight flat s') {t : Timing}
    {src : Option sys.xbar.Station} {ans : Packet MemBus}
    {rest : List (Option sys.xbar.Station × Packet MemBus)}
    (hqueue : s.queue (.master idx) = (src, ans) :: rest)
    (hstep : (sys.xbar.net inflight).step s (.take (.master idx) t) = some s') :
    ∃ pkt, cur = [pkt] ∧ OneAtATime sys idx (done ++ [pkt]) [] s' ∧ ans.uid = pkt.uid ∧
      AnsweredAs sys idx flat s'.log done pkt ans := by
  have hlin := hs'.linearized hpart
  have hinner : (Stations.Act.take (.master idx) t : sys.xbar.NetAct).Inner :=
    Stations.Act.inner_take _ _
  have hreqs := requests_of_inner hinner hs hs' hstep idx
  cases Stations.step_iff.mp hstep with
  | take q t src' m rest' outs shared hhand hqueue' work =>
      rw [hqueue] at hqueue'
      cases hqueue'
      have hserves : XBar.serves (s.log ++ [.worked (.master idx) src ans outs]) =
          XBar.serves s.log := by simp [XBar.serves]
      have hmem : (src, ans) ∈ Stations.taken (.master idx)
          (s.log ++ [.worked (.master idx) src ans outs]) := by
        simp [Stations.taken]
      rcases hlin.received idx _ hmem with hsrc | ⟨d, hsrc⟩
      · simp only at hsrc
        subst hsrc
        refine h.recv_refusal hlin hreqs hserves ?_ ?_
        · intro dst
          simp [XBar.answers, Stations.taken, Stations.bySrc]
        · simp [XBar.refusals, Stations.taken, Stations.bySrc]
      · simp only at hsrc
        subst hsrc
        refine h.recv_answer (d := d) hlin hreqs hserves ?_ ?_
        · intro dst
          by_cases hd : dst = d
          · simp [XBar.answers, Stations.taken, Stations.bySrc, hd]
          · simp [XBar.answers, Stations.taken, Stations.bySrc, hd, Ne.symm hd]
        · simp [XBar.refusals, Stations.taken, Stations.bySrc]

/-- Once nothing is under way, nothing is left to answer. -/
theorem OneAtATime.cur_eq_nil (hpart : sys.Partitioned) (h : OneAtATime sys idx done cur s)
    (hlin : Linearized sys flat s) (hquiet : s.Quiet)
    (hcur : ∀ pkt ∈ cur, ∃ addr len, pkt.payload.Request addr len) : cur = [] := by
  rcases List.eq_nil_or_concat' cur with hnil | ⟨init, pkt, rfl⟩
  · exact hnil
  obtain rfl : init = [] := by
    have hsingle := h.single
    rw [List.length_append, List.length_singleton] at hsingle
    exact List.eq_nil_of_length_eq_zero (by omega)
  obtain ⟨addr, len, hreq⟩ := hcur pkt (List.mem_singleton_self pkt)
  have hroute := route_eq sys hreq
  cases hfind : sys.xbar.addrMap.findPort addr len with
  | error err =>
      rw [hfind] at hroute
      have hrefusal : sys.xbar.refusalOf pkt = [(pkt.uid, .error (.addrRange err))] := by
        unfold XBar.refusalOf
        rw [hroute]
        rfl
      have hall := congrArg List.length ((hlin.refusals idx).eq hquiet)
      rw [List.length_map, h.refusals, h.requests, List.flatMap_append, List.length_append,
        List.nil_append, List.flatMap_singleton, hrefusal, List.length_singleton] at hall
      omega
  | ok out =>
      obtain ⟨ofst, port⟩ := out
      obtain ⟨e, he, -, hport, -⟩ := findPort_ok hfind
      rw [hfind] at hroute
      obtain ⟨d, rfl⟩ : ∃ d : Fin sys.xbar.outboundLen, (d : Nat) = port :=
        ⟨⟨port, hport ▸ hpart.outbound e he⟩, rfl⟩
      have hans := congrArg List.length ((hlin.answers idx d).eq hquiet)
      have hask := congrArg List.length ((hlin.requests idx d).eq hquiet)
      rw [List.length_map, List.length_map, h.answers] at hans
      rw [List.length_map, ← hans, h.requests, List.flatMap_append, List.length_append,
        List.nil_append, List.flatMap_singleton, XBar.askFor_of_route hroute,
        List.length_singleton] at hask
      omega

end MemSystem

end Ra2m
