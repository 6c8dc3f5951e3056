/-
The crossbar (`mem/xbar.rs`).

A request that comes in on an inbound port is routed by the address map to an
outbound port, with its sub-range address taken relative to the range it falls in.
On the way out the XBar pushes the inbound port on the route stack of the request;
the response that comes back on the outbound port is sent where the last entry of
that stack says.  `forwardLayer` and `backwardLayer` are one turn of the two loops,
`addrRangeLookup` is the process that fills the address map at startup.
-/
import Ra2m.Sim.Port

namespace Ra2m

structure XBar where
  uid : Nat
  inboundLen : Nat
  outboundLen : Nat
  addrMap : AddrRangeMap

namespace XBar

/-- The port a turn of the forward loop puts its packet on. -/
inductive Out where
  | inbound (idx : Nat) (pkt : Packet MemBus)
  | outbound (idx : Nat) (pkt : Packet MemBus)

/-- Delay on the forward path. -/
def forwardDelay (t : Timing) (size : Data) : Tick := t.frontend + t.forward + t.transfer size

/-- Delay on the backward path. -/
def backwardDelay (t : Timing) (size : Data) : Tick := t.forward + t.transfer size

/-- What a request takes along on the forward path; `none` for a command that is not routed. -/
def forwardLen (req : MemBus) : Exec (Option Data) :=
  match req.cmd with
  | .write => req.pattern.len.map some
  | .read => .ok (some 0)
  | .addrRange => .ok none

/-- What a response takes along on the backward path. -/
def backwardLen (req : MemBus) : Exec Data :=
  match req.cmd with
  | .read => req.pattern.len
  | .write => .ok 0
  | .addrRange => .error ⟨"Unsupported command"⟩

/-- Take a request of inbound port `idx` to the outbound port of its range, or answer it with an
error. -/
def forwardLayer (t : Timing) (self : XBar) (idx : Nat) (pkt : Packet MemBus) : Exec Out :=
  let req := pkt.payload
  match req.subrangeAddr with
  | .unset =>
      .ok (.inbound idx (pkt.setPayload (req.setMode (.error (.subRange req.subrangeAddr)))))
  | .phys addrOfst => do
      let range ← req.pattern.range
      match ← forwardLen req with
      | none => .ok (.inbound idx (pkt.setPayload (req.setMode (.error (.cmd req.cmd)))))
      | some accLen =>
          -- The stack is pushed before the route is known.
          let req := req.pushPort idx
          match self.addrMap.findPort addrOfst range with
          | .ok (arOfst, dst) =>
              let req := { req with subrangeAddr := .phys (addrOfst - arOfst) }
              let req := req.pushTrace (.switch t.now self.uid (.forward idx dst))
              if dst < self.outboundLen then
                .ok (.outbound dst ((pkt.setPayload req).appendDelay (forwardDelay t accLen)))
              else .error ⟨"index out of bounds"⟩
          | .error err =>
              .ok (.inbound idx (pkt.setPayload (req.setMode (.error (.addrRange err)))))

/-- Send a response of outbound port `idx` to the inbound port on top of its route stack. -/
def backwardLayer (t : Timing) (self : XBar) (idx : Nat) (pkt : Packet MemBus) :
    Exec (Nat × Packet MemBus) :=
  match pkt.payload.popPort with
  | (none, _) => .error ⟨"Incorrect management of Xbar queue, it must contain a value"⟩
  | (some fromPort, req) =>
      if fromPort < self.inboundLen then do
        let accLen ← backwardLen req
        let req := req.pushTrace (.switch t.now self.uid (.backward fromPort idx))
        .ok (fromPort, (pkt.setPayload req).appendDelay (backwardDelay t accLen))
      else .error ⟨"index out of bounds"⟩

/-- Register the ranges one outbound port announces; `none` when it still has to end its list. -/
def lookupPort (port : Nat) : AddrRangeMap → List MemBus → Exec (Option AddrRangeMap)
  | _, [] => .ok none
  | map, req :: rest =>
      match req.cmd with
      | .addrRange =>
          match req.addr with
          | .range addr size =>
              match map.insertRange addr size port with
              | .ok map => lookupPort port map rest
              | .error _ => .error ⟨"AddrMap insertion failed"⟩
          | _ => .ok (some map)
      | _ => .error ⟨"MemoryBus over ReqRespPort must start by AddrRange sequence"⟩

/-- Register the ranges of every outbound port in turn, from port `i` on. -/
def addrRangeLookup : Nat → AddrRangeMap → List (List MemBus) → Exec (Option AddrRangeMap)
  | _, map, [] => .ok (some map)
  | i, map, reqs :: rest => do
      match ← lookupPort i map reqs with
      | none => .ok none
      | some map => addrRangeLookup (i + 1) map rest

/-! ### What a turn of each loop does -/

/-- The address map is asked for a route of this address and range. -/
structure Asks (req : MemBus) (addr : Nat) (range : Data) : Prop where
  subrange : req.subrangeAddr = .phys addr
  pattern : req.pattern.range = .ok range
  cmd : req.cmd ≠ .addrRange

theorem Asks.unique {req : MemBus} {a b : Nat} {m n : Data} (h : Asks req a m) (h' : Asks req b n) :
    a = b ∧ m = n := by
  have ha := h.subrange.symm.trans h'.subrange
  have hm := h.pattern.symm.trans h'.pattern
  simp only [SubRangeAddr.phys.injEq, Except.ok.injEq] at ha hm
  exact ⟨ha, hm⟩

/-- A pattern with a range has a length. -/
theorem len_of_range {p : Pattern} {n : Data} (h : p.range = .ok n) : ∃ m, p.len = .ok m := by
  cases p with
  | unset => cases h
  | simple d => exact ⟨d, rfl⟩
  | stride size stride iter => exact ⟨size * iter, rfl⟩

/-- A request the map is asked about is forwarded to the port of its range, or answered with the
map's error; either way with the push on its stack. -/
theorem forwardLayer_asks (t : Timing) (self : XBar) (idx : Nat) {pkt : Packet MemBus} {addr : Nat}
    {range : Data} (h : Asks pkt.payload addr range) :
    ∃ n, forwardLayer t self idx pkt =
      match self.addrMap.findPort addr range with
      | .ok (ofst, dst) =>
          if dst < self.outboundLen then
            .ok (.outbound dst ((pkt.setPayload
              ({ pkt.payload.pushPort idx with subrangeAddr := .phys (addr - ofst) }.pushTrace
                (.switch t.now self.uid (.forward idx dst)))).appendDelay (forwardDelay t n)))
          else .error ⟨"index out of bounds"⟩
      | .error err =>
          .ok (.inbound idx (pkt.setPayload
            ((pkt.payload.pushPort idx).setMode (.error (.addrRange err))))) := by
  have hlen : ∃ n, forwardLen pkt.payload = .ok (some n) := by
    unfold forwardLen
    cases hcmd : pkt.payload.cmd with
    | read => exact ⟨0, rfl⟩
    | addrRange => exact absurd hcmd h.cmd
    | write =>
        obtain ⟨m, hm⟩ := len_of_range h.pattern
        exact ⟨m, by rw [hm]; rfl⟩
  obtain ⟨n, hn⟩ := hlen
  refine ⟨n, ?_⟩
  unfold forwardLayer
  simp only [h.subrange, h.pattern, hn, bind, Except.bind]

/-- A request the map is not asked about is answered with an error, its stack as it was, or has no
range and makes the loop panic. -/
theorem forwardLayer_not_asks (t : Timing) (self : XBar) (idx : Nat) {pkt : Packet MemBus}
    (hn : ∀ addr range, ¬ Asks pkt.payload addr range) :
    (∃ e, forwardLayer t self idx pkt =
        .ok (.inbound idx (pkt.setPayload (pkt.payload.setMode (.error e))))) ∨
      ∃ p, pkt.payload.pattern.range = .error p ∧ forwardLayer t self idx pkt = .error p := by
  unfold forwardLayer
  cases hsub : pkt.payload.subrangeAddr with
  | unset =>
      refine Or.inl ⟨.subRange .unset, ?_⟩
      simp only [hsub]
  | phys addr =>
      cases hrange : pkt.payload.pattern.range with
      | error p =>
          refine Or.inr ⟨p, rfl, ?_⟩
          simp only [hsub, hrange, bind, Except.bind]
      | ok range =>
          by_cases hcmd : pkt.payload.cmd = .addrRange
          · have hlen : forwardLen pkt.payload = .ok none := by unfold forwardLen; rw [hcmd]
            refine Or.inl ⟨.cmd pkt.payload.cmd, ?_⟩
            simp only [hsub, hrange, hlen, bind, Except.bind]
          · exact absurd ⟨hsub, hrange, hcmd⟩ (hn addr range)

/-- A response goes to the port on top of its stack, without that entry. -/
theorem backwardLayer_spec {t : Timing} {self : XBar} {idx : Nat} {pkt : Packet MemBus}
    {i : Nat} {ans : Packet MemBus} (h : backwardLayer t self idx pkt = .ok (i, ans)) :
    pkt.payload.xbarPort.getLast? = some i ∧
      ans.payload.xbarPort = pkt.payload.xbarPort.dropLast ∧
      ans.payload.mode = pkt.payload.mode ∧ ans.payload.data = pkt.payload.data ∧
      i < self.inboundLen := by
  unfold backwardLayer MemBus.popPort at h
  split at h
  · cases h
  · rename_i fromPort req hpop
    simp only [Prod.mk.injEq] at hpop
    obtain ⟨htop, rfl⟩ := hpop
    split at h
    · rename_i hlt
      simp only [bind, Except.bind] at h
      split at h
      · cases h
      · simp only [Except.ok.injEq, Prod.mk.injEq] at h
        obtain ⟨rfl, rfl⟩ := h
        exact ⟨htop, rfl, rfl, rfl, hlt⟩
    · cases h

/-- A response with its own entry on top goes back to the port it came from. -/
theorem backwardLayer_own (t : Timing) {self : XBar} (dst : Nat) {port : Nat} {stack : List Nat}
    {ans : Packet MemBus} (hown : ans.payload.xbarPort = stack ++ [port])
    (hport : port < self.inboundLen) (hcmd : ans.payload.cmd ≠ .addrRange)
    (hlen : ∃ m, ans.payload.pattern.len = .ok m) :
    ∃ a, backwardLayer t self dst ans = .ok (port, a) ∧
      a.payload.cmd = ans.payload.cmd ∧ a.payload.pattern = ans.payload.pattern := by
  obtain ⟨m, hm⟩ := hlen
  have hback : ∃ n, backwardLen (ans.payload.popPort).2 = .ok n := by
    unfold backwardLen
    show ∃ n, (match ans.payload.cmd with
      | .read => ans.payload.pattern.len
      | .write => .ok 0
      | .addrRange => .error ⟨"Unsupported command"⟩) = .ok n
    cases hc : ans.payload.cmd with
    | read => exact ⟨m, hm⟩
    | write => exact ⟨0, rfl⟩
    | addrRange => exact absurd hc hcmd
  obtain ⟨n, hn⟩ := hback
  have htop : ans.payload.popPort = (some port, (ans.payload.popPort).2) := by
    refine Prod.ext ?_ rfl
    show ans.payload.xbarPort.getLast? = some port
    rw [hown, List.getLast?_concat]
  unfold backwardLayer
  rw [htop]
  simp only [hport, if_true, hn, bind, Except.bind]
  exact ⟨_, rfl, rfl, rfl⟩

end XBar

end Ra2m
