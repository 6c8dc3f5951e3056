/-
What becomes of an access.

A master may build any request with `MemBus.new`, and an XBar with a memory behind
its port answers it: in `Mode::Response` when the memory can serve it, in
`Mode::Error` when it has no route, its command or its pattern is not supported.  One
request is served by neither, a write that is routed with data of another length than
its pattern, which the memory asserts against.

Requests at a physical address whose pattern was never set are left out: the XBar asks
for their range before it looks at anything else of them.
-/
import Ra2m.Cpn.XBar
import Ra2m.Cpn.NpRam

namespace Ra2m

/-! ### The ports of an address map -/

/-- Every range of the map leads to one of the first `n` ports. -/
def AddrRangeMap.PortsBelow (m : AddrRangeMap) (n : Nat) : Prop :=
  ∀ e ∈ m.arMap.entries, e.2.2 < n

theorem AddrRangeMap.PortsBelow.insertRange {m m' : AddrRangeMap} {n ofst size port : Nat}
    (h : m.PortsBelow n) (hport : port < n) (hins : m.insertRange ofst size port = .ok m') :
    m'.PortsBelow n := by
  obtain ⟨rfl, -⟩ := insertRange_eq_ok_iff.mp hins
  intro e he
  rcases (m.arMap.mem_insert).mp he with rfl | ⟨he, -⟩
  · exact hport
  · exact h e he

theorem XBar.lookupPort_portsBelow {port n : Nat} (hport : port < n) {reqs : List MemBus}
    {m m' : AddrRangeMap} (h : m.PortsBelow n) (hok : lookupPort port m reqs = .ok (some m')) :
    m'.PortsBelow n := by
  induction reqs generalizing m with
  | nil => cases hok
  | cons req rest ih =>
      unfold lookupPort at hok
      split at hok
      · split at hok
        · split at hok
          · rename_i hins
            exact ih (h.insertRange hport hins) hok
          · cases hok
        · obtain rfl := Option.some.inj (Except.ok.inj hok)
          exact h
      · cases hok

/-- The process that fills the address map registers outbound ports only. -/
theorem XBar.addrRangeLookup_portsBelow {reqs : List (List MemBus)} {i : Nat} {m m' : AddrRangeMap}
    (h : m.PortsBelow i) (hok : addrRangeLookup i m reqs = .ok (some m')) :
    m'.PortsBelow (i + reqs.length) := by
  induction reqs generalizing i m with
  | nil =>
      obtain rfl := Option.some.inj (Except.ok.inj hok)
      exact h
  | cons req rest ih =>
      unfold addrRangeLookup at hok
      cases hport : lookupPort i m req with
      | error p =>
          rw [hport] at hok
          cases hok
      | ok out =>
          rw [hport] at hok
          cases out with
          | none => cases hok
          | some m₁ =>
              have h₁ := lookupPort_portsBelow (Nat.lt_succ_self i)
                (fun e he => Nat.lt_succ_of_lt (h e he)) hport
              have hrest := ih h₁ hok
              rw [List.length_cons, show i + (rest.length + 1) = i + 1 + rest.length by omega]
              exact hrest

/-! ### A request at the memory -/

namespace NpRam

/-- A write whose data is not as long as its pattern says. -/
def Mismatch (req : MemBus) : Prop :=
  req.cmd = .write ∧ ∃ d, req.pattern = .simple d ∧ req.data.length ≠ d

/-- The assertion on the length of the data. -/
def lengthAssertion : Panic := ⟨"Provided data length didn't match with Pattern"⟩

/-- A request whose window is in the memory is answered, unless the length assertion stops it. -/
theorem handleRequest_returns (t : Timing) {self : NpRam} {req : MemBus} {addr : Nat}
    (hsub : req.subrangeAddr = .phys addr)
    (hin : ∀ d, req.pattern = .simple d → addr + d ≤ self.memory.length) :
    (Mismatch req → handleRequest t self req = .error lengthAssertion) ∧
      (¬ Mismatch req → ∃ delay resp ram, handleRequest t self req = .ok (delay, resp, ram)) := by
  unfold handleRequest
  simp only [MemBus.pushTrace, hsub]
  cases hpat : req.pattern with
  | unset =>
      refine ⟨?_, fun _ => ⟨_, _, _, rfl⟩⟩
      rintro ⟨-, d, hd, -⟩
      rw [hpat] at hd
      cases hd
  | stride size stride iter =>
      refine ⟨?_, fun _ => ⟨_, _, _, rfl⟩⟩
      rintro ⟨-, d, hd, -⟩
      rw [hpat] at hd
      cases hd
  | simple d =>
      have hwin := hin d hpat
      cases hcmd : req.cmd with
      | read =>
          simp only [if_pos hwin]
          refine ⟨?_, fun _ => ⟨_, _, _, rfl⟩⟩
          rintro ⟨hw, -⟩
          rw [hcmd] at hw
          cases hw
      | addrRange =>
          refine ⟨?_, fun _ => ⟨_, _, _, rfl⟩⟩
          rintro ⟨hw, -⟩
          rw [hcmd] at hw
          cases hw
      | write =>
          by_cases hlen : req.data.length = d
          · simp only [if_pos hlen, if_pos hwin]
            refine ⟨?_, fun _ => ⟨_, _, _, rfl⟩⟩
            rintro ⟨-, d', hd', hne⟩
            rw [hpat] at hd'
            obtain rfl := Pattern.simple.inj hd'
            exact absurd hlen hne
          · simp only [if_neg hlen]
            exact ⟨fun _ => rfl, fun hne => absurd ⟨hcmd, d, hpat, hlen⟩ hne⟩

end NpRam

/-! ### A request at the XBar and the memory behind it -/

namespace XBar

/-- One turn of the forward loop, and the memory's answer when it forwards the request. -/
def forwardServe (fwd serve : Timing) (self : XBar) (ram : NpRam) (idx : Nat)
    (pkt : Packet MemBus) : Exec (Packet MemBus) := do
  match ← forwardLayer fwd self idx pkt with
  | .inbound _ pkt => .ok pkt
  | .outbound _ pkt =>
      let (_, resp, _) ← NpRam.handleRequest serve ram pkt.payload
      .ok (pkt.setPayload resp)

/-- The request has a route. -/
def Routed (self : XBar) (req : MemBus) : Prop :=
  ∃ addr range o p, Asks req addr range ∧ self.addrMap.findPort addr range = .ok (o, p)

/-- The request has a route, and is one a memory can serve. -/
def Servable (self : XBar) (req : MemBus) : Prop := self.Routed req ∧ NpRam.Supported req

/-- The memory is as large as the range the request is routed to. -/
def Fits (self : XBar) (ram : NpRam) (req : MemBus) : Prop :=
  ∀ addr e, req.subrangeAddr = .phys addr → self.addrMap.arMap.lastLE addr = some e →
    ram.memory.length = e.2.1

variable {self : XBar} {ram : NpRam} {pkt : Packet MemBus} {fwd serve : Timing} {idx : Nat}

variable (ram fwd serve idx) in
/-- A request without a route comes back with an error, if its range can be asked for. -/
theorem forwardServe_refused
    (hset : ∀ a, pkt.payload.subrangeAddr = .phys a → ∃ n, pkt.payload.pattern.range = .ok n)
    (hroute : ¬ self.Routed pkt.payload) :
    ∃ ans e, forwardServe fwd serve self ram idx pkt = .ok ans ∧ ans.payload.mode = .error e := by
  have hback : ∀ ans e, forwardLayer fwd self idx pkt = .ok (.inbound idx ans) →
      ans.payload.mode = .error e →
      ∃ ans e, forwardServe fwd serve self ram idx pkt = .ok ans ∧
        ans.payload.mode = .error e := by
    intro ans e hfwd hmode
    refine ⟨ans, e, ?_, hmode⟩
    unfold forwardServe
    simp only [hfwd, bind, Except.bind]
  by_cases hasks : ∃ addr range, Asks pkt.payload addr range
  · obtain ⟨addr, range, hasks⟩ := hasks
    obtain ⟨n, hfwd⟩ := forwardLayer_asks fwd self idx hasks
    cases hfind : self.addrMap.findPort addr range with
    | ok out => exact absurd ⟨addr, range, out.1, out.2, hasks, hfind⟩ hroute
    | error err =>
        rw [hfind] at hfwd
        exact hback _ _ hfwd rfl
  · have hnot : ∀ addr range, ¬ Asks pkt.payload addr range :=
      fun addr range h => hasks ⟨addr, range, h⟩
    cases hsub : pkt.payload.subrangeAddr with
    | unset =>
        refine hback (pkt.setPayload (pkt.payload.setMode (.error (.subRange .unset)))) _ ?_ rfl
        unfold forwardLayer
        simp only [hsub]
    | phys a =>
        rcases forwardLayer_not_asks fwd self idx hnot with ⟨e, hfwd⟩ | ⟨p, hrange, -⟩
        · exact hback _ _ hfwd rfl
        · obtain ⟨n, hn⟩ := hset a hsub
          rw [hn] at hrange
          cases hrange

variable (fwd serve idx) in
/-- A request with a route is handed to the memory at its address in the range, its command, pattern
and data as they are. -/
theorem forwardServe_routed (hports : self.addrMap.PortsBelow self.outboundLen)
    (hroute : self.Routed pkt.payload) (hfits : self.Fits ram pkt.payload) :
    ∃ req addr, req.subrangeAddr = .phys addr ∧ req.cmd = pkt.payload.cmd ∧
      req.pattern = pkt.payload.pattern ∧ req.data = pkt.payload.data ∧
      (∀ d, req.pattern = .simple d → addr + d ≤ ram.memory.length) ∧
      (∀ p, NpRam.handleRequest serve ram req = .error p →
        forwardServe fwd serve self ram idx pkt = .error p) ∧
      ∀ delay resp ram', NpRam.handleRequest serve ram req = .ok (delay, resp, ram') →
        ∃ ans, forwardServe fwd serve self ram idx pkt = .ok ans ∧ ans.payload = resp := by
  obtain ⟨addr, range, o, p, hasks, hfind⟩ := hroute
  obtain ⟨n, hfwd⟩ := forwardLayer_asks fwd self idx hasks
  obtain ⟨s, hlast, hend⟩ := AddrRangeMap.findPort_eq_ok_iff.mp hfind
  obtain ⟨he, hlo⟩ := SortedMap.lastLE_mem hlast
  rw [hfind] at hfwd
  simp only [if_pos (hports _ he)] at hfwd
  refine ⟨{ pkt.payload.pushPort idx with subrangeAddr := .phys (addr - o) }.pushTrace
    (.switch fwd.now self.uid (.forward idx p)), addr - o, rfl, rfl, rfl, rfl, ?_, ?_, ?_⟩
  · intro d hd
    have hlen : ram.memory.length = s := hfits addr _ hasks.subrange hlast
    have hrange := hasks.pattern
    rw [show pkt.payload.pattern = .simple d from hd] at hrange
    obtain rfl := Except.ok.inj hrange
    have hlo' : o ≤ addr := hlo
    have hend' : addr + d ≤ o + s := hend
    rw [hlen]
    omega
  · intro p' hserve
    unfold forwardServe
    simp only [hfwd, bind, Except.bind, Packet.appendDelay_payload, Packet.setPayload_payload,
      hserve]
  · intro delay resp ram' hserve
    unfold forwardServe
    simp only [hfwd, bind, Except.bind, Packet.appendDelay_payload, Packet.setPayload_payload,
      hserve]
    exact ⟨_, rfl, rfl⟩

/-- One range of 16 bytes at address 0, on the only outbound port. -/
def oneRange : XBar where
  uid := 0
  inboundLen := 1
  outboundLen := 1
  addrMap := ⟨SortedMap.empty.insert 0 (16, 0)⟩

/-- A write of `data` as 4 bytes at address 8. -/
def writeFour (data : List UInt8) : Packet MemBus :=
  { uid := 0, payload := MemBus.new 0 0 .write (.phys 8) (.simple 4) (some data) }

end XBar

end Ra2m
