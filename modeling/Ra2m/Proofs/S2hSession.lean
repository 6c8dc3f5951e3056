/-
Sessions of the bridge from the simulation to a host.

Every way out of a turn but one sends the request back, in `Mode::Response` if the
host answered it in kind and in `Mode::Error` if not.  The one is a write answered with
an ack of another kind: where a read fails, the bridge panics.  `serves_iff` says that a
session goes as it should exactly when no forwarded write is answered so.
-/
import Ra2m.Lib.ExceptMap
import Ra2m.Cpn.S2hBridge

namespace Ra2m

/-- A write carries as many bytes as its pattern has. -/
def MemBus.WriteSized (req : MemBus) : Prop :=
  req.cmd = .write → ∀ d, req.pattern.len = .ok d → req.data.length = d

/-- The request is sent back with the status it should have. -/
structure Exchange.Proper (x : Exchange) : Prop where
  /-- The packet that goes back is the one that came. -/
  uid : x.reply.uid = x.pkt.uid
  sid : x.reply.sid = x.pkt.sid
  asked : x.ack.isSome = forwarded x.pkt.payload
  response : x.reply.payload.mode = .response ↔
    ∃ ack, x.ack = some ack ∧ ackMatches x.pkt.payload.cmd ack = true
  error : x.reply.payload.mode ≠ .response → ∃ e, x.reply.payload.mode = .error e
  /-- The bytes the host read are appended. -/
  data : ∀ data, x.ack = some (.ok (.read data)) → x.pkt.payload.cmd = .read →
    x.reply.payload.data = x.pkt.payload.data ++ data

namespace S2hBridge

/-- Every request is sent back once, in turn and properly, as far as the host answers. -/
structure Served (rx : List (Tick × Packet MemBus)) (acks : List AckRecv) (s : Session) :
    Prop where
  requests : s.done.map Exchange.pkt ++ s.rx.map Prod.snd = rx.map Prod.snd
  acks : s.done.filterMap Exchange.ack ++ s.acks = acks
  waits : s.rx ≠ [] → s.acks = []
  proper : ∀ x ∈ s.done, x.Proper

def Serves (self : S2hBridge) (rx : List (Tick × Packet MemBus)) (acks : List AckRecv) : Prop :=
  ∃ s, self.fwdOverIpc rx acks = .ok s ∧ Served rx acks s

/-- The host acks a write as a write, or the link fails. -/
def WritesAcked : List (Tick × Packet MemBus) → List AckRecv → Prop
  | [], _ => True
  | (_, pkt) :: rx, acks =>
      if forwarded pkt.payload then
        match acks with
        | [] => True
        | ack :: acks =>
            (pkt.payload.cmd = .write → ∀ a, ack = .ok a → a = .write) ∧ WritesAcked rx acks
      else WritesAcked rx acks

variable {self : S2hBridge} {now : Tick} {pkt : Packet MemBus} {acks : List AckRecv}

/-! ### One turn -/

/-- A request sent back with an error because no ack in kind came for it. -/
theorem proper_of_error {x : Exchange} {e : MemBusError} (huid : x.reply.uid = x.pkt.uid)
    (hsid : x.reply.sid = x.pkt.sid) (hasked : x.ack.isSome = forwarded x.pkt.payload)
    (hmode : x.reply.payload.mode = .error e)
    (hack : ∀ ack, x.ack = some ack → ackMatches x.pkt.payload.cmd ack = false) : x.Proper := by
  refine ⟨huid, hsid, hasked, ?_, fun _ => ⟨e, hmode⟩, ?_⟩
  · rw [hmode]
    constructor
    · intro h
      cases h
    · rintro ⟨ack, hsome, hmatch⟩
      rw [hack ack hsome] at hmatch
      cases hmatch
  · intro data hsome hcmd
    have hmatch := hack _ hsome
    rw [hcmd] at hmatch
    cases hmatch

/-- A request sent back as answered because an ack in kind came for it. -/
theorem proper_of_response {x : Exchange} {ack : AckRecv} (huid : x.reply.uid = x.pkt.uid)
    (hsid : x.reply.sid = x.pkt.sid) (hasked : forwarded x.pkt.payload = true)
    (hmode : x.reply.payload.mode = .response) (hack : x.ack = some ack)
    (hmatch : ackMatches x.pkt.payload.cmd ack = true)
    (hdata : ∀ data, x.ack = some (.ok (.read data)) → x.pkt.payload.cmd = .read →
      x.reply.payload.data = x.pkt.payload.data ++ data) : x.Proper := by
  refine ⟨huid, hsid, ?_, ⟨fun _ => ⟨ack, hack, hmatch⟩, fun _ => hmode⟩, ?_, hdata⟩
  · rw [hack, hasked]
    rfl
  · intro h
    exact absurd hmode h

/-- A request that is not forwarded goes back with an error. -/
theorem turn_refused (self : S2hBridge) (now : Tick) (acks : List AckRecv)
    (h : forwarded pkt.payload = false) :
    ∃ x, self.turn now pkt acks = .ok (some (x, acks)) ∧ x.pkt = pkt ∧ x.ack = none ∧
      x.Proper := by
  unfold turn
  simp only [MemBus.pushTrace]
  cases hsub : pkt.payload.subrangeAddr with
  | unset =>
      refine ⟨_, rfl, rfl, rfl, proper_of_error rfl rfl h.symm rfl ?_⟩
      intro ack hack
      cases hack
  | phys addr =>
      cases hpat : pkt.payload.pattern with
      | unset | stride =>
          refine ⟨_, rfl, rfl, rfl, proper_of_error rfl rfl h.symm rfl ?_⟩
          intro ack hack
          cases hack
      | simple p =>
          cases hcmd : pkt.payload.cmd with
          | read | write =>
              unfold forwarded at h
              rw [hsub, hpat, hcmd] at h
              cases h
          | addrRange =>
              refine ⟨_, rfl, rfl, rfl, proper_of_error rfl rfl h.symm rfl ?_⟩
              intro ack hack
              cases hack

/-- What a forwarded request looks like. -/
theorem forwarded_cases (h : forwarded pkt.payload = true) :
    ∃ addr p, pkt.payload.subrangeAddr = .phys addr ∧ pkt.payload.pattern = .simple p ∧
      (pkt.payload.cmd = .read ∨ pkt.payload.cmd = .write) := by
  unfold forwarded at h
  cases hsub : pkt.payload.subrangeAddr with
  | unset =>
      rw [hsub] at h
      cases h
  | phys addr =>
      cases hpat : pkt.payload.pattern with
      | unset | stride =>
          rw [hsub, hpat] at h
          cases h
      | simple p =>
          cases hcmd : pkt.payload.cmd with
          | read => exact ⟨addr, p, rfl, rfl, Or.inl rfl⟩
          | write => exact ⟨addr, p, rfl, rfl, Or.inr rfl⟩
          | addrRange =>
              rw [hsub, hpat, hcmd] at h
              cases h

/-- A forwarded request waits until the host has answered. -/
theorem turn_waits (h : forwarded pkt.payload = true) (hsized : pkt.payload.WriteSized) :
    self.turn now pkt [] = .ok none := by
  obtain ⟨addr, p, hsub, hpat, hcmd⟩ := forwarded_cases h
  unfold turn
  simp only [MemBus.pushTrace, hsub, hpat]
  rcases hcmd with hcmd | hcmd
  · simp only [hcmd]
  · have hlen : pkt.payload.data.length = p := hsized hcmd p (by rw [hpat]; rfl)
    simp only [hcmd, if_pos hlen]

/-- A forwarded request goes back with what the host answered, unless that is a mismatched ack
of a write. -/
theorem turn_answered (self : S2hBridge) (now : Tick) (acks : List AckRecv)
    (h : forwarded pkt.payload = true) (hsized : pkt.payload.WriteSized) {ack : AckRecv}
    (hack : pkt.payload.cmd = .write → ∀ a, ack = .ok a → a = .write) :
    ∃ x, self.turn now pkt (ack :: acks) = .ok (some (x, acks)) ∧ x.pkt = pkt ∧
      x.ack = some ack ∧ x.Proper := by
  obtain ⟨addr, p, hsub, hpat, hcmd⟩ := forwarded_cases h
  have hnone : ∀ {b : Bool}, ackMatches pkt.payload.cmd ack = b →
      ∀ ack', some ack = some ack' → ackMatches pkt.payload.cmd ack' = b := by
    intro b hb ack' heq
    rw [← Option.some.inj heq, hb]
  unfold turn
  simp only [MemBus.pushTrace, hsub, hpat]
  rcases hcmd with hcmd | hcmd
  · simp only [hcmd]
    cases ack with
    | error err =>
        refine ⟨_, rfl, rfl, rfl, proper_of_error rfl rfl h.symm rfl (hnone ?_)⟩
        rw [hcmd]
        rfl
    | ok a =>
        cases a with
        | read data =>
            refine ⟨_, rfl, rfl, rfl, proper_of_response rfl rfl h rfl rfl ?_ ?_⟩
            · show ackMatches pkt.payload.cmd _ = true
              rw [hcmd]
              rfl
            · intro data' hdata _
              cases hdata
              rfl
        | write | error =>
            refine ⟨_, rfl, rfl, rfl, proper_of_error rfl rfl h.symm rfl (hnone ?_)⟩
            rw [hcmd]
            rfl
  · have hlen : pkt.payload.data.length = p := hsized hcmd p (by rw [hpat]; rfl)
    simp only [hcmd, if_pos hlen]
    cases ack with
    | error err =>
        refine ⟨_, rfl, rfl, rfl, proper_of_error rfl rfl h.symm rfl (hnone ?_)⟩
        rw [hcmd]
        rfl
    | ok a =>
        obtain rfl := hack hcmd a rfl
        refine ⟨_, rfl, rfl, rfl, proper_of_response rfl rfl h rfl rfl ?_ ?_⟩
        · show ackMatches pkt.payload.cmd _ = true
          rw [hcmd]
          rfl
        · intro data hdata
          cases hdata

/-- A write answered with an ack of another kind stops the bridge. -/
theorem turn_panics (h : forwarded pkt.payload = true) (hsized : pkt.payload.WriteSized)
    (hcmd : pkt.payload.cmd = .write) {a : IpcAck (List UInt8)} (ha : a ≠ .write) :
    self.turn now pkt (.ok a :: acks) = .error ⟨self.mismatch a⟩ := by
  obtain ⟨addr, p, hsub, hpat, -⟩ := forwarded_cases h
  have hlen : pkt.payload.data.length = p := hsized hcmd p (by rw [hpat]; rfl)
  unfold turn
  simp only [MemBus.pushTrace, hsub, hpat, hcmd, if_pos hlen]

/-! ### A session -/

variable {rx : List (Tick × Packet MemBus)}

/-- A request that was sent back goes to the front of the session. -/
theorem Served.cons {s : Session} {x : Exchange} (h : Served rx acks s) (hx : x.Proper) :
    Served ((now, x.pkt) :: rx) (x.ack.toList ++ acks) { s with done := x :: s.done } := by
  refine ⟨?_, ?_, h.waits, ?_⟩
  · exact congrArg (x.pkt :: ·) h.requests
  · cases hack : x.ack with
    | none =>
        rw [List.filterMap_cons_none hack]
        exact h.acks
    | some ack =>
        rw [List.filterMap_cons_some hack]
        exact congrArg (ack :: ·) h.acks
  · intro y hy
    rcases List.mem_cons.mp hy with rfl | hy
    · exact hx
    · exact h.proper y hy

/-- After a turn that sent its request back, the session goes on with the rest. -/
theorem serves_cons_iff {x : Exchange} {acks' : List AckRecv}
    (hturn : self.turn now pkt acks = .ok (some (x, acks'))) (hpkt : x.pkt = pkt)
    (hacks : acks = x.ack.toList ++ acks') (hx : x.Proper) :
    self.Serves ((now, pkt) :: rx) acks ↔ self.Serves rx acks' := by
  constructor
  · rintro ⟨s, hrun, hserved⟩
    unfold fwdOverIpc at hrun
    obtain ⟨turn, hturn', hrun⟩ := ExceptMap.bind_eq_ok_iff.mp hrun
    obtain rfl := Except.ok.inj (hturn.symm.trans hturn')
    obtain ⟨s', hrest, hrun⟩ := ExceptMap.bind_eq_ok_iff.mp hrun
    obtain rfl := Except.ok.inj hrun
    refine ⟨s', hrest, ?_, ?_, hserved.waits, fun y hy => hserved.proper y ?_⟩
    · have hreq := hserved.requests
      simpa [hpkt] using hreq
    · have hsplit := hserved.acks
      cases hack : x.ack with
      | none => simpa [hack, hacks] using hsplit
      | some ack => simpa [hack, hacks] using hsplit
    · exact List.mem_cons_of_mem x hy
  · rintro ⟨s, hrun, hserved⟩
    refine ⟨{ s with done := x :: s.done }, ?_, ?_⟩
    · unfold fwdOverIpc
      rw [hturn]
      simp only [hrun, bind, Except.bind]
    · rw [hacks, ← hpkt]
      exact hserved.cons hx

/-- **A session goes as it should exactly when no forwarded write is answered with an ack of
another kind.** -/
theorem serves_iff (self : S2hBridge) (rx : List (Tick × Packet MemBus)) (acks : List AckRecv)
    (hsized : ∀ r ∈ rx, r.2.payload.WriteSized) : self.Serves rx acks ↔ WritesAcked rx acks := by
  induction rx generalizing acks with
  | nil =>
      refine ⟨fun _ => trivial, fun _ => ⟨{ acks }, rfl, rfl, rfl, fun h => absurd rfl h, ?_⟩⟩
      intro x hx
      cases hx
  | cons r rx ih =>
      obtain ⟨now, pkt⟩ := r
      have hpkt : pkt.payload.WriteSized := hsized (now, pkt) List.mem_cons_self
      have hrest : ∀ acks, self.Serves rx acks ↔ WritesAcked rx acks :=
        fun acks => ih acks fun r hr => hsized r (List.mem_cons_of_mem _ hr)
      unfold WritesAcked
      by_cases hfwd : forwarded pkt.payload = true
      · rw [if_pos hfwd]
        cases acks with
        | nil =>
            have hwait : self.turn now pkt [] = .ok none := turn_waits hfwd hpkt
            refine ⟨fun _ => trivial, fun _ => ⟨{ rx := (now, pkt) :: rx, acks := [] }, ?_, ?_⟩⟩
            · unfold fwdOverIpc
              rw [hwait]
              rfl
            · exact ⟨rfl, rfl, fun _ => rfl, fun x hx => absurd hx List.not_mem_nil⟩
        | cons ack acks =>
            by_cases hack : pkt.payload.cmd = .write → ∀ a, ack = .ok a → a = .write
            · obtain ⟨x, hturn, hx, hxack, hproper⟩ :=
                turn_answered self now acks hfwd hpkt hack
              rw [serves_cons_iff hturn hx (by rw [hxack]; rfl) hproper, hrest]
              exact ⟨fun h => ⟨hack, h⟩, fun h => h.2⟩
            · -- The mismatched ack: the turn panics and with it the session.
              refine ⟨?_, fun h => absurd h.1 hack⟩
              rintro ⟨s, hrun, -⟩
              simp only [not_forall] at hack
              obtain ⟨hcmd, a, rfl, ha⟩ := hack
              unfold fwdOverIpc at hrun
              rw [turn_panics hfwd hpkt hcmd ha] at hrun
              cases hrun
      · have hfwd' : forwarded pkt.payload = false := by simpa using hfwd
        rw [if_neg hfwd]
        obtain ⟨x, hturn, hx, hxack, hproper⟩ := turn_refused self now acks hfwd'
        rw [serves_cons_iff hturn hx (by rw [hxack]; rfl) hproper, hrest]

/-- One byte is written and read back, and the host refuses the read. -/
def readRefused : List (Tick × Packet MemBus) × List AckRecv :=
  let access (uid : Nat) (cmd : Command) (data : Option (List UInt8)) : Packet MemBus :=
    { uid, payload := .new 0 0 cmd (.phys 0x10) (.simple 1) data }
  ([(0, access 0 .write (some [7])), (1, access 1 .read none)],
    [.ok .write, .ok (.error (.addrRange 0x10 1 0x1000 0x2000))])

/-- The same, but the host refuses the write. -/
def writeRefused : List (Tick × Packet MemBus) × List AckRecv :=
  (readRefused.1, readRefused.2.reverse)

/-- A bridge that prints the refusal above as the host's derived `Debug` does. -/
def oneRefusal : S2hBridge :=
  ⟨0, fun _ => "Error(AddrRange \x7b addr: 10, size_b: 1, range_lb: 1000, range_ub: 2000 \x7d)"⟩

theorem readRefused_sized : ∀ r ∈ readRefused.1, r.2.payload.WriteSized := by
  intro r hr
  simp only [readRefused, List.mem_cons, List.not_mem_nil, or_false] at hr
  rcases hr with rfl | rfl
  · intro _ d hd
    cases hd
    rfl
  · intro hcmd
    cases hcmd

theorem serves_iff_readRefused :
    (oneRefusal.Serves readRefused.1 readRefused.2 ↔ WritesAcked readRefused.1 readRefused.2) ∧
      oneRefusal.Serves readRefused.1 readRefused.2 := by
  refine ⟨serves_iff oneRefusal _ _ readRefused_sized, ?_⟩
  refine (serves_iff oneRefusal _ _ readRefused_sized).mpr ⟨?_, ?_, trivial⟩
  · intro _ a ha
    exact (Except.ok.inj ha).symm
  · intro hcmd
    cases hcmd

theorem writeRefused_panics :
    ¬ ((∀ r ∈ writeRefused.1, r.2.payload.WriteSized) →
      oneRefusal.Serves writeRefused.1 writeRefused.2) := by
  intro h
  obtain ⟨s, hrun, -⟩ := h readRefused_sized
  cases hrun

end S2hBridge

end Ra2m
