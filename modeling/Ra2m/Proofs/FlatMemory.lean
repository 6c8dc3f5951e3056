/-
The memories behind an XBar are one flat memory.

An XBar whose ranges are disjoint, each with a memory of its size behind a port of
its own, behaves as one memory with holes.  `Simulates` relates it to the flat
memory of the checker: every memory is the window its range cuts out of the flat
one.  An access inside a range keeps the relation, because the forward layer makes
its address relative to that window, and it is answered as the checker expects; an
access that no range contains is refused and changes nothing.

`accessInside` and `accessOutside` are the two steps, `runChecked_ok` the induction
over a sequence of accesses.
-/
import Ra2m.Cpn.NpRam
import Ra2m.Cpn.XBar
import Ra2m.Cpn.MemChecker
import Ra2m.Proofs.AddrMap
import Mathlib

namespace Ra2m

/-- An XBar with a memory behind each outbound port. -/
structure MemSystem where
  xbar : XBar
  rams : Nat → NpRam

/-- A request, the inbound port it is sent to and the timings it meets on its way. -/
structure Issue where
  idx : Nat
  pkt : Packet MemBus
  fwd : Timing := {}
  serve : Timing := {}
  bwd : Timing := {}

namespace MemSystem

/-- Send a request, serve it if it is forwarded, and bring its answer back. -/
def access (sys : MemSystem) (r : Issue) : Exec (Packet MemBus × MemSystem) := do
  let pkt := r.pkt.setPayload r.pkt.payload.updateSubrange
  match ← XBar.forwardLayer r.fwd sys.xbar r.idx pkt with
  | .inbound _ ans => .ok (ans, sys)
  | .outbound dst pkt =>
      let (delay, resp, ram) ← NpRam.handleRequest r.serve (sys.rams dst) pkt.payload
      let resp := (pkt.setPayload resp).appendDelay (delay.getD 0)
      let (_, ans) ← XBar.backwardLayer r.bwd sys.xbar dst resp
      .ok (ans, { sys with rams := Function.update sys.rams dst ram })

/-- An access whose answer goes to the checker, unless it failed. -/
def accessChecked (sys : MemSystem) (flat : MemoryChecker) (r : Issue) :
    Exec (Packet MemBus × MemSystem × MemoryChecker) := do
  let (ans, sys) ← sys.access r
  match ans.payload.mode with
  | .response =>
      let flat ← flat.checkRx (.ofAnswer r.pkt.payload ans.payload)
      .ok (ans, sys, flat)
  | _ => .ok (ans, sys, flat)

/-- A sequence of accesses, each completed before the next. -/
def runChecked (sys : MemSystem) (flat : MemoryChecker) :
    List Issue → Exec (MemSystem × MemoryChecker)
  | [] => .ok (sys, flat)
  | r :: rest => do
      let (_, sys, flat) ← sys.accessChecked flat r
      runChecked sys flat rest

/-- The ranges of the XBar. -/
abbrev ranges (sys : MemSystem) : List (Nat × (Nat × Nat)) := sys.xbar.addrMap.arMap.entries

/-- The ranges are non-empty and disjoint, each with an outbound port of its own. -/
structure Partitioned (sys : MemSystem) : Prop where
  nonempty : ∀ e ∈ sys.ranges, 0 < e.2.1
  disjoint : sys.ranges.Pairwise fun a b => Disjoint (AddrRangeMap.span a) (AddrRangeMap.span b)
  ports : (sys.ranges.map fun e => e.2.2).Nodup
  outbound : ∀ e ∈ sys.ranges, e.2.2 < sys.xbar.outboundLen

/-- The access lies wholly inside one range. -/
def Inside (sys : MemSystem) (addr len : Nat) : Prop :=
  ∃ e ∈ sys.ranges, e.1 ≤ addr ∧ addr + len ≤ e.1 + e.2.1

/-- A read without data or a write of as many bytes as its pattern, at a physical address. -/
structure WellFormed (sys : MemSystem) (r : Issue) (addr len : Nat) : Prop where
  inbound : r.idx < sys.xbar.inboundLen
  mode : r.pkt.payload.mode = .request
  phys : r.pkt.payload.addr.phys? = some addr
  pattern : r.pkt.payload.pattern = .simple len
  cmd : (r.pkt.payload.cmd = .read ∧ r.pkt.payload.data = []) ∨
    (r.pkt.payload.cmd = .write ∧ r.pkt.payload.data.length = len)

/-- Every memory is the window of its range in the flat memory. -/
structure Simulates (sys : MemSystem) (flat : MemoryChecker) : Prop where
  partitioned : sys.Partitioned
  offset : flat.offset = 0
  covered : ∀ e ∈ sys.ranges, e.1 + e.2.1 ≤ flat.memory.length
  window : ∀ e ∈ sys.ranges,
    (sys.rams e.2.2).memory = Window.read flat.memory e.1 e.2.1

/-! ### Routing -/

/-- Two ranges are the same or follow each other. -/
theorem Partitioned.apart {sys : MemSystem} (h : sys.Partitioned) {e e' : Nat × (Nat × Nat)}
    (he : e ∈ sys.ranges) (he' : e' ∈ sys.ranges) (hne : e ≠ e') :
    e.1 + e.2.1 ≤ e'.1 ∨ e'.1 + e'.2.1 ≤ e.1 := by
  have : Std.Symm fun a b => Disjoint (AddrRangeMap.span a) (AddrRangeMap.span b) :=
    ⟨fun _ _ h => h.symm⟩
  have hdis := h.disjoint.forall he he' hne
  rw [AddrRangeMap.disjoint_span_iff] at hdis
  have hpos := h.nonempty e he
  have hpos' := h.nonempty e' he'
  omega

/-- Two ranges with one port are the same. -/
theorem Partitioned.port_inj {sys : MemSystem} (h : sys.Partitioned) {e e' : Nat × (Nat × Nat)}
    (he : e ∈ sys.ranges) (he' : e' ∈ sys.ranges) (hport : e.2.2 = e'.2.2) : e = e' :=
  List.inj_on_of_nodup_map h.ports he he' hport

/-- An access inside a range is routed to a range it is inside of. -/
theorem Partitioned.findPort_inside {sys : MemSystem} (h : sys.Partitioned) {addr len : Nat}
    (hin : sys.Inside addr len) :
    ∃ e ∈ sys.ranges, e.1 ≤ addr ∧ addr + len ≤ e.1 + e.2.1 ∧
      sys.xbar.addrMap.findPort addr len = .ok (e.1, e.2.2) := by
  obtain ⟨e, he, hlo, hhi⟩ := hin
  cases hlast : sys.xbar.addrMap.arMap.lastLE addr with
  | none => exact absurd hlo (Nat.not_le.2 ((SortedMap.lastLE_eq_none_iff _).1 hlast e he))
  | some e' =>
      obtain ⟨he', hlo', hmax⟩ := (SortedMap.lastLE_eq_some_iff _).1 hlast
      -- A later range that starts at or below the address starts at the end of an empty access.
      have hhi' : addr + len ≤ e'.1 + e'.2.1 := by
        by_cases hee : e = e'
        · rw [← hee]
          exact hhi
        · have hle := hmax e he hlo
          have hpos := h.nonempty e' he'
          rcases h.apart he he' hee with hap | hap
          · omega
          · omega
      refine ⟨e', he', hlo', hhi', ?_⟩
      rw [AddrRangeMap.findPort_eq_ok_iff]
      exact ⟨e'.2.1, hlast, hhi'⟩

/-- An access that no range contains has no route. -/
theorem findPort_outside {sys : MemSystem} {addr len : Nat} (hout : ¬ sys.Inside addr len) :
    ∃ err, sys.xbar.addrMap.findPort addr len = .error err := by
  cases hfind : sys.xbar.addrMap.findPort addr len with
  | error err => exact ⟨err, rfl⟩
  | ok out =>
      obtain ⟨o, p⟩ := out
      obtain ⟨s, hlast, hhi⟩ := AddrRangeMap.findPort_eq_ok_iff.1 hfind
      obtain ⟨he, hlo, -⟩ := (SortedMap.lastLE_eq_some_iff _).1 hlast
      exact absurd ⟨_, he, hlo, hhi⟩ hout

theorem WellFormed.asks {sys : MemSystem} {r : Issue} {addr len : Nat}
    (h : sys.WellFormed r addr len) : XBar.Asks r.pkt.payload.updateSubrange addr len where
  subrange := MemBus.updateSubrange_phys h.phys
  pattern := by
    show r.pkt.payload.pattern.range = .ok len
    rw [h.pattern]
    rfl
  cmd := by
    show r.pkt.payload.cmd ≠ .addrRange
    rcases h.cmd with ⟨hc, -⟩ | ⟨hc, -⟩
    · rw [hc]
      exact Command.noConfusion
    · rw [hc]
      exact Command.noConfusion

/-- A well-formed access that no range contains is refused and leaves the system as it is. -/
theorem access_outside {sys : MemSystem} {r : Issue} {addr len : Nat}
    (h : sys.WellFormed r addr len) (hout : ¬ sys.Inside addr len) :
    ∃ ans err, sys.access r = .ok (ans, sys) ∧ ans.payload.mode = .error (.addrRange err) := by
  obtain ⟨err, hfind⟩ := findPort_outside hout
  have hasks : XBar.Asks (r.pkt.setPayload r.pkt.payload.updateSubrange).payload addr len := h.asks
  obtain ⟨n, hfwd⟩ := XBar.forwardLayer_asks r.fwd sys.xbar r.idx hasks
  rw [hfind] at hfwd
  refine ⟨(r.pkt.setPayload r.pkt.payload.updateSubrange).setPayload
    ((r.pkt.payload.updateSubrange.pushPort r.idx).setMode (.error (.addrRange err))), err, ?_, rfl⟩
  unfold access
  simp only [hfwd, bind, Except.bind]
  rfl

/-! ### The two steps of the simulation -/

/-- The memory of a range is as large as the range. -/
theorem Simulates.length {sys : MemSystem} {flat : MemoryChecker} (h : sys.Simulates flat)
    {e : Nat × (Nat × Nat)} (he : e ∈ sys.ranges) : (sys.rams e.2.2).memory.length = e.2.1 := by
  rw [h.window e he]
  exact Window.length_read (h.covered e he)

/-- A write inside a range, to its memory and to the flat memory, keeps the relation. -/
theorem Simulates.write {sys : MemSystem} {flat : MemoryChecker} (h : sys.Simulates flat)
    {e : Nat × (Nat × Nat)} (he : e ∈ sys.ranges) {addr : Nat} {xs : List UInt8}
    (hlo : e.1 ≤ addr) (hhi : addr + xs.length ≤ e.1 + e.2.1) {ram : NpRam}
    (hram : ram.memory = Window.write (sys.rams e.2.2).memory (addr - e.1) xs) :
    Simulates { sys with rams := Function.update sys.rams e.2.2 ram }
      { flat with memory := Window.write flat.memory addr xs } := by
  have hcov := h.covered e he
  have hlen : (Window.write flat.memory addr xs).length = flat.memory.length :=
    Window.length_write (by omega)
  refine ⟨⟨h.partitioned.nonempty, h.partitioned.disjoint, h.partitioned.ports,
    h.partitioned.outbound⟩, h.offset, ?_, ?_⟩
  · intro e' he'
    show e'.1 + e'.2.1 ≤ (Window.write flat.memory addr xs).length
    rw [hlen]
    exact h.covered e' he'
  · intro e' he'
    show (Function.update sys.rams e.2.2 ram e'.2.2).memory =
      Window.read (Window.write flat.memory addr xs) e'.1 e'.2.1
    by_cases hee : e' = e
    · have hin : Window.read (Window.write flat.memory (e.1 + (addr - e.1)) xs) e.1 e.2.1 =
          Window.write (Window.read flat.memory e.1 e.2.1) (addr - e.1) xs :=
        Window.read_write_inside flat.memory (by omega) hcov
      rw [Nat.add_sub_cancel' hlo] at hin
      rw [hee, Function.update_self, hram, h.window e he, hin]
    · have hport : e'.2.2 ≠ e.2.2 := fun hp => hee (h.partitioned.port_inj he' he hp)
      rw [Function.update_of_ne hport, h.window e' he', Window.read_write_outside _ (by omega)]
      rcases h.partitioned.apart he' he hee with hap | hap
      · exact Or.inr (by omega)
      · exact Or.inl (by omega)

/-- A forwarded request that is served comes back as served. -/
private theorem access_served {sys : MemSystem} {r : Issue} {dst : Nat} {fwd : Packet MemBus}
    {delay : Option Tick} {resp : MemBus} {ram : NpRam}
    (hfwd : XBar.forwardLayer r.fwd sys.xbar r.idx (r.pkt.setPayload r.pkt.payload.updateSubrange) =
      .ok (.outbound dst fwd))
    (hstack : fwd.payload.xbarPort = r.pkt.payload.xbarPort ++ [r.idx])
    (hserve : NpRam.handleRequest r.serve (sys.rams dst) fwd.payload = .ok (delay, resp, ram))
    (hidx : r.idx < sys.xbar.inboundLen) (hcmd : fwd.payload.cmd ≠ .addrRange)
    (hlen : ∃ m, fwd.payload.pattern.len = .ok m) :
    ∃ ans, sys.access r = .ok (ans, { sys with rams := Function.update sys.rams dst ram }) ∧
      ans.payload.mode = resp.mode ∧ ans.payload.data = resp.data := by
  obtain ⟨hkp, hkc, hkl⟩ := NpRam.handleRequest_keeps hserve
  have hown : ((fwd.setPayload resp).appendDelay (delay.getD 0)).payload.xbarPort =
      r.pkt.payload.xbarPort ++ [r.idx] := hkp.trans hstack
  obtain ⟨ans, hback, -⟩ := XBar.backwardLayer_own r.bwd dst hown hidx
    (fun hc => hcmd (hkc.symm.trans hc))
    (by
      obtain ⟨m, hm⟩ := hlen
      exact ⟨m, (congrArg Pattern.len hkl).trans hm⟩)
  obtain ⟨-, -, hmode, hdata, -⟩ := XBar.backwardLayer_spec hback
  refine ⟨ans, ?_, hmode, hdata⟩
  unfold access
  simp only [hfwd, hserve, hback, bind, Except.bind]

/-- An access inside a range is answered, a read with the bytes of the flat memory, and keeps the
relation to it. -/
theorem access_inside {sys : MemSystem} {flat : MemoryChecker} {r : Issue} {addr len : Nat}
    (hsim : sys.Simulates flat) (h : sys.WellFormed r addr len) (hin : sys.Inside addr len) :
    ∃ ans sys' flat', sys.access r = .ok (ans, sys') ∧ ans.payload.mode = .response ∧
      (r.pkt.payload.cmd = .read → ans.payload.data = Window.read flat.memory addr len) ∧
      flat.checkRx (.ofAnswer r.pkt.payload ans.payload) = .ok flat' ∧
      sys'.xbar = sys.xbar ∧ sys'.Simulates flat' := by
  obtain ⟨e, he, hlo, hhi, hfind⟩ := hsim.partitioned.findPort_inside hin
  have hasks : XBar.Asks (r.pkt.setPayload r.pkt.payload.updateSubrange).payload addr len := h.asks
  obtain ⟨n, hfwd⟩ := XBar.forwardLayer_asks r.fwd sys.xbar r.idx hasks
  rw [hfind] at hfwd
  simp only [if_pos (hsim.partitioned.outbound e he)] at hfwd
  -- What is forwarded is the request at its address in the range, with the port pushed.
  obtain ⟨fwd, hfwd, hfp, hfsub, hfpat, hfcmd, hfdata⟩ : ∃ fwd,
      XBar.forwardLayer r.fwd sys.xbar r.idx (r.pkt.setPayload r.pkt.payload.updateSubrange) =
        .ok (.outbound e.2.2 fwd) ∧
      fwd.payload.xbarPort = r.pkt.payload.xbarPort ++ [r.idx] ∧
      fwd.payload.subrangeAddr = .phys (addr - e.1) ∧
      fwd.payload.pattern = .simple len ∧ fwd.payload.cmd = r.pkt.payload.cmd ∧
      fwd.payload.data = r.pkt.payload.data :=
    ⟨_, hfwd, rfl, rfl, h.pattern, rfl, rfl⟩
  have hlen := hsim.length he
  have hwin : addr - e.1 + len ≤ (sys.rams e.2.2).memory.length := by omega
  have hplen : ∃ m, fwd.payload.pattern.len = .ok m := ⟨len, by rw [hfpat]; rfl⟩
  rcases h.cmd with ⟨hcmd, hdata⟩ | ⟨hcmd, hdata⟩
  · obtain ⟨delay, resp, hserve, hmode, hbytes⟩ := NpRam.handleRequest_read r.serve
      (sys.rams e.2.2) hfsub hfpat (hfcmd.trans hcmd) hwin
    obtain ⟨ans, hacc, hamode, hadata⟩ := access_served hfwd hfp hserve h.inbound
      (by rw [hfcmd, hcmd]; exact Command.noConfusion) hplen
    have hread : ans.payload.data = Window.read flat.memory addr len := by
      rw [hadata, hbytes, hfdata, hdata, List.nil_append, hsim.window e he,
        Window.read_read _ (by omega), Nat.add_sub_cancel' hlo]
    refine ⟨ans, _, flat, hacc, hamode.trans hmode, fun _ => hread, ?_, rfl, ?_⟩
    · have hcov := hsim.covered e he
      rw [MemBusChecker.ofAnswer_read _ hcmd hdata]
      exact MemoryChecker.checkRx_read hsim.offset h.phys h.pattern hcmd (by omega) hread
    · rw [Function.update_eq_self]
      exact hsim
  · obtain ⟨delay, resp, hserve, hmode⟩ := NpRam.handleRequest_write r.serve (sys.rams e.2.2)
      hfsub hfpat (hfcmd.trans hcmd) (by rw [hfdata]; exact hdata) hwin
    obtain ⟨ans, hacc, hamode, -⟩ := access_served hfwd hfp hserve h.inbound
      (by rw [hfcmd, hcmd]; exact Command.noConfusion) hplen
    refine ⟨ans, _, { flat with memory := Window.write flat.memory addr r.pkt.payload.data }, hacc,
      hamode.trans hmode, ?_, ?_, rfl, ?_⟩
    · intro hc
      rw [hcmd] at hc
      cases hc
    · have hcov := hsim.covered e he
      rw [MemBusChecker.ofAnswer_of_ne _ (by rw [hcmd]; exact Command.noConfusion)]
      exact MemoryChecker.checkRx_write hsim.offset h.phys h.pattern hcmd hdata (by omega)
    · refine hsim.write he hlo (by omega) ?_
      rw [hfdata]

/-! ### Sequences of accesses -/

/-- `WellFormed` and `Inside` only look at the XBar. -/
private theorem WellFormed.congr {sys sys' : MemSystem} (h : sys'.xbar = sys.xbar) {r : Issue}
    {addr len : Nat} (hr : sys.WellFormed r addr len) : sys'.WellFormed r addr len :=
  ⟨h ▸ hr.inbound, hr.mode, hr.phys, hr.pattern, hr.cmd⟩

/-- A sequence of well-formed accesses runs to its end, the checker accepts all of them, and the
relation is kept. -/
theorem runChecked_ok {rs : List Issue} {sys : MemSystem} {flat : MemoryChecker}
    (hsim : sys.Simulates flat) (hrs : ∀ r ∈ rs, ∃ addr len, sys.WellFormed r addr len) :
    ∃ sys' flat', sys.runChecked flat rs = .ok (sys', flat') ∧ sys'.xbar = sys.xbar ∧
      sys'.Simulates flat' := by
  induction rs generalizing sys flat with
  | nil => exact ⟨sys, flat, rfl, rfl, hsim⟩
  | cons r rest ih =>
      obtain ⟨addr, len, hr⟩ := hrs r List.mem_cons_self
      obtain ⟨ans, sys₁, flat₁, hstep, hx, hsim₁⟩ : ∃ ans sys₁ flat₁,
          sys.accessChecked flat r = .ok (ans, sys₁, flat₁) ∧ sys₁.xbar = sys.xbar ∧
            sys₁.Simulates flat₁ := by
        unfold accessChecked
        by_cases hin : sys.Inside addr len
        · obtain ⟨ans, sys₁, flat₁, hacc, hmode, -, hchk, hx, hsim₁⟩ := access_inside hsim hr hin
          refine ⟨ans, sys₁, flat₁, ?_, hx, hsim₁⟩
          simp only [hacc, hmode, hchk, bind, Except.bind]
        · obtain ⟨ans, err, hacc, hmode⟩ := access_outside hr hin
          refine ⟨ans, sys, flat, ?_, rfl, hsim⟩
          simp only [hacc, hmode, bind, Except.bind]
      obtain ⟨sys', flat', hrun, hx', hsim'⟩ := ih hsim₁ fun q hq => by
        obtain ⟨a, l, hw⟩ := hrs q (List.mem_cons_of_mem r hq)
        exact ⟨a, l, hw.congr hx⟩
      refine ⟨sys', flat', ?_, hx'.trans hx, hsim'⟩
      unfold runChecked
      simp only [hstep, hrun, bind, Except.bind]

/-- Memories of zeros behind an XBar whose ranges are disjoint: whatever was accessed before, an
access inside one range is answered as the flat memory of the checker answers it, and any other is
refused and leaves every memory as it was. -/
theorem partitioned_memory_is_flat (sys : MemSystem) (size : Data) (hpart : sys.Partitioned)
    (hzero : ∀ e ∈ sys.ranges, (sys.rams e.2.2).memory = List.replicate e.2.1 0)
    (hsize : ∀ e ∈ sys.ranges, e.1 + e.2.1 ≤ size) (rs : List Issue)
    (hrs : ∀ r ∈ rs, ∃ addr len, sys.WellFormed r addr len) :
    ∃ sys' flat', sys.runChecked (MemoryChecker.start 0 size) rs = .ok (sys', flat') ∧
      ∀ r addr len, sys.WellFormed r addr len →
        (sys.Inside addr len → ∃ ans sys'' flat'', sys'.access r = .ok (ans, sys'') ∧
          ans.payload.mode = .response ∧
          (r.pkt.payload.cmd = .read → ans.payload.data = Window.read flat'.memory addr len) ∧
          flat'.checkRx (.ofAnswer r.pkt.payload ans.payload) = .ok flat'') ∧
        (¬ sys.Inside addr len → ∃ ans err, sys'.access r = .ok (ans, sys') ∧
          ans.payload.mode = .error (.addrRange err)) := by
  have hsim : sys.Simulates (MemoryChecker.start 0 size) := by
    refine ⟨hpart, rfl, ?_, ?_⟩
    · intro e he
      rw [MemoryChecker.start, List.length_replicate]
      exact hsize e he
    · intro e he
      rw [MemoryChecker.start, hzero e he, Window.read_replicate _ (hsize e he)]
  obtain ⟨sys', flat', hrun, hx, hsim'⟩ := runChecked_ok hsim hrs
  refine ⟨sys', flat', hrun, fun r addr len hr => ⟨?_, ?_⟩⟩
  · intro hin
    have hin' : sys'.Inside addr len := by
      unfold Inside ranges
      rw [hx]
      exact hin
    obtain ⟨ans, sys'', flat'', hacc, hmode, hread, hchk, -⟩ :=
      access_inside hsim' (hr.congr hx) hin'
    exact ⟨ans, sys'', flat'', hacc, hmode, hread, hchk⟩
  · intro hout
    have hout' : ¬ sys'.Inside addr len := by
      unfold Inside ranges
      rw [hx]
      exact hout
    exact access_outside (hr.congr hx) hout'

/-- Two memories of four bytes side by side, the lower one behind port 1. -/
def twoRams : MemSystem where
  xbar := ⟨0, 1, 2, ⟨⟨[(0, (4, 1)), (4, (4, 0))], by simp⟩⟩⟩
  rams port := NpRam.new port 4

/-- A write of the last byte of the lower memory. -/
def lastByte : Issue where
  idx := 0
  pkt := {
    uid := 0
    payload := { cmd := .write, addr := .phys 3, pattern := .simple 1, data := [7] } }

/-- A read of two bytes of each memory. -/
def crossing : Issue where
  idx := 0
  pkt := { uid := 1, payload := { cmd := .read, addr := .physVirt 2 9, pattern := .simple 4 } }

theorem twoRams_is_flat :
    ∃ sys' flat', twoRams.runChecked (MemoryChecker.start 0 8) [lastByte] = .ok (sys', flat') ∧
      (∃ ans sys'' flat'', sys'.access lastByte = .ok (ans, sys'') ∧ ans.payload.mode = .response ∧
        flat'.checkRx (.ofAnswer lastByte.pkt.payload ans.payload) = .ok flat'') ∧
      ∃ ans err, sys'.access crossing = .ok (ans, sys') ∧
        ans.payload.mode = .error (.addrRange err) := by
  have hpart : twoRams.Partitioned := by
    refine ⟨by decide, ?_, by decide, by decide⟩
    show List.Pairwise _ [(0, (4, 1)), (4, (4, 0))]
    simp [AddrRangeMap.disjoint_span_iff]
  have hlast : twoRams.WellFormed lastByte 3 1 :=
    ⟨by decide, rfl, rfl, rfl, Or.inr ⟨rfl, rfl⟩⟩
  have hcross : twoRams.WellFormed crossing 2 4 :=
    ⟨by decide, rfl, rfl, rfl, Or.inl ⟨rfl, rfl⟩⟩
  obtain ⟨sys', flat', hrun, hall⟩ := partitioned_memory_is_flat twoRams 8 hpart
    (by decide) (by decide) [lastByte] (fun r hr => ⟨3, 1, List.mem_singleton.1 hr ▸ hlast⟩)
  obtain ⟨ans, sys'', flat'', hacc, hmode, -, hchk⟩ :=
    (hall lastByte 3 1 hlast).1 (by unfold Inside; decide)
  exact ⟨sys', flat', hrun, ⟨ans, sys'', flat'', hacc, hmode, hchk⟩,
    (hall crossing 2 4 hcross).2 (by unfold Inside; decide)⟩

end MemSystem

end Ra2m
