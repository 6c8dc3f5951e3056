/-
The route stack through a cascade of XBars.

A request goes down a cascade and its answer comes back up; every XBar it passes
pushes the inbound port on the way down and pops an entry on the way up, and a Dma
in front does the same with the slot of its transfer.  Each of them pops what it
pushed itself as long as the answer comes back with the stack the request left with.

It does, unless some address map on the path has no route.  `forwardLayer` pushes
before it looks the route up, and the error answer of a failed look-up leaves with
the push still on it; the two other error answers leave before the push.
-/
import Ra2m.Cpn.NpRam
import Ra2m.Cpn.XBar
import Ra2m.Cpn.Dma

namespace Ra2m

/-! ### Cascades -/

/-- A component that answers requests with the stack they came with. -/
structure Target where
  serve : Packet MemBus → Option (Packet MemBus)
  keeps : ∀ pkt ans, serve pkt = some ans → ans.payload.xbarPort = pkt.payload.xbarPort

/-- An XBar with, behind each outbound port, a target or the inbound port `entry` of another
XBar. -/
inductive Cascade where
  | target (tgt : Target)
  | xbar (self : XBar) (fwd bwd : Timing) (down : Nat → Cascade) (entry : Nat → Nat)

/-- A pop: the stack as the entry was pushed, and the stack the pop is made on. -/
structure Pop where
  pushed : List Nat
  found : List Nat

/-- What an access leads to: the pops of the XBars on its way back, and the answer, with the
inbound port it leaves on. -/
structure Trip where
  pops : List Pop
  answer : Option (Nat × Packet MemBus)

/-- Send a request into inbound port `port` and follow it down and its answer up. -/
def access : Cascade → Nat → Packet MemBus → Trip
  | .target tgt, port, pkt => ⟨[], (tgt.serve pkt).map (port, ·)⟩
  | .xbar self fwd bwd down entry, port, pkt =>
      match XBar.forwardLayer fwd self port pkt with
      | .error _ => ⟨[], none⟩
      | .ok (.inbound i ans) => ⟨[], some (i, ans)⟩
      | .ok (.outbound dst req) =>
          let trip := access (down dst) (entry dst) req
          match trip.answer with
          | none => trip
          | some (i, ans) =>
              -- An answer on another port is delivered to another component.
              if i = entry dst then
                ⟨trip.pops ++ [⟨req.payload.xbarPort, ans.payload.xbarPort⟩],
                  (XBar.backwardLayer bwd self dst ans).toOption⟩
              else ⟨trip.pops, none⟩

/-- Every XBar pops its own entry, and the answer leaves on the inbound port the request came in
by, with the stack it came in with. -/
structure Trip.Balanced (trip : Trip) (port : Nat) (stack : List Nat) : Prop where
  pops : ∀ p ∈ trip.pops, p.found = p.pushed
  answer : ∀ i ans, trip.answer = some (i, ans) → i = port ∧ ans.payload.xbarPort = stack

/-- Some address map on the path of the access has no route for it. -/
def Cascade.Unrouted : Cascade → Nat → Data → Prop
  | .target _, _, _ => False
  | .xbar self _ _ down _, addr, range =>
      match self.addrMap.findPort addr range with
      | .error _ => True
      | .ok (ofst, dst) => dst < self.outboundLen ∧ (down dst).Unrouted (addr - ofst) range

/-- A request that is looked up and not routed all the way. -/
def Cascade.Rejects (net : Cascade) (req : MemBus) : Prop :=
  ∃ addr range, XBar.Asks req addr range ∧ net.Unrouted addr range

/-- A packet the port puts on its sending side carries the payload its closure left. -/
private theorem forgeResp_tx {T ε σ : Type} [TxStatus T ε] [RxStatus T ε]
    {forge : σ → T → Exec (Option Tick × T × σ)} {s s' : σ} {pkt : Packet T} {res : Except ε Unit}
    {tx : List (Packet T)} (h : forgeResp forge s pkt [] = .ok (res, tx, s')) :
    ∀ ans ∈ tx, ∃ d s'', forge s pkt.payload = .ok (d, ans.payload, s'') := by
  intro ans hans
  rcases forgeResp_eq_ok h with
    ⟨-, -, rfl⟩ | ⟨delay, req, hforge, ⟨-, -, rfl⟩ | ⟨resp, -, rfl, hresp⟩⟩
  · cases hans
  · cases hans
  · rw [List.nil_append, List.mem_singleton] at hans
    rw [hans, hresp]
    exact ⟨delay, s', hforge⟩

/-- A port of a memory, as it answers requests in the state `self`. -/
def NpRam.target (t : Timing) (self : NpRam) : Target where
  serve pkt := match forgeResp (NpRam.handleRequest t) self pkt [] with
    | .ok (_, tx, _) => tx.head?
    | .error _ => none
  keeps := by
    intro pkt ans h
    split at h
    · rename_i res tx s' hforge
      obtain ⟨d, s'', hreq⟩ := forgeResp_tx hforge ans (List.mem_of_mem_head? h)
      exact (NpRam.handleRequest_keeps hreq).1
    · cases h

/-! ### Balance of one access -/

private theorem balanced_lost (port : Nat) (stack : List Nat) :
    (⟨[], none⟩ : Trip).Balanced port stack where
  pops p hp := absurd hp List.not_mem_nil
  answer i ans h := by cases h

private theorem balanced_answered {port : Nat} {stack : List Nat} {ans : Packet MemBus}
    (h : ans.payload.xbarPort = stack) : (⟨[], some (port, ans)⟩ : Trip).Balanced port stack where
  pops p hp := absurd hp List.not_mem_nil
  answer i a ha := by
    obtain ⟨rfl, rfl⟩ := Prod.mk.inj (Option.some.inj ha)
    exact ⟨rfl, h⟩

/-- A request that is not looked up is answered from where it came in, with its stack. -/
private theorem balanced_of_not_asks {self : XBar} {fwd bwd : Timing} {down : Nat → Cascade}
    {entry : Nat → Nat} {port : Nat} {pkt : Packet MemBus}
    (hn : ∀ addr range, ¬ XBar.Asks pkt.payload addr range) :
    (access (.xbar self fwd bwd down entry) port pkt).Balanced port pkt.payload.xbarPort := by
  unfold access
  rcases XBar.forwardLayer_not_asks fwd self port hn with ⟨e, hfwd⟩ | ⟨p, -, hfwd⟩
  · rw [hfwd]
    exact balanced_answered rfl
  · rw [hfwd]
    exact balanced_lost port _

/-- The answer to a request its map rejects has one entry too many. -/
private theorem not_balanced_of_error {self : XBar} {fwd bwd : Timing} {down : Nat → Cascade}
    {entry : Nat → Nat} {port : Nat} {pkt : Packet MemBus} {addr : Nat} {range : Data}
    {err : AddrRangeError} (hasks : XBar.Asks pkt.payload addr range)
    (hfind : self.addrMap.findPort addr range = .error err) :
    ¬ (access (.xbar self fwd bwd down entry) port pkt).Balanced port pkt.payload.xbarPort := by
  intro hb
  obtain ⟨n, hfwd⟩ := XBar.forwardLayer_asks fwd self port hasks
  rw [hfind] at hfwd
  have hans := hb.answer port
    (pkt.setPayload ((pkt.payload.pushPort port).setMode (.error (.addrRange err))))
  unfold access at hans
  rw [hfwd] at hans
  have hlen := congrArg List.length (hans rfl).2
  simp at hlen

/-- An XBar answers a request it does not forward on the port the request came in by. -/
private theorem forwardLayer_inbound {t : Timing} {self : XBar} {port i : Nat}
    {pkt ans : Packet MemBus} (h : XBar.forwardLayer t self port pkt = .ok (.inbound i ans)) :
    i = port := by
  by_cases hasks : ∃ addr range, XBar.Asks pkt.payload addr range
  · obtain ⟨addr, range, hasks⟩ := hasks
    obtain ⟨n, hfwd⟩ := XBar.forwardLayer_asks t self port hasks
    rw [h] at hfwd
    split at hfwd
    · split at hfwd
      · cases hfwd
      · cases hfwd
    · cases hfwd
      rfl
  · have hn : ∀ addr range, ¬ XBar.Asks pkt.payload addr range :=
      fun addr range ha => hasks ⟨addr, range, ha⟩
    rcases XBar.forwardLayer_not_asks t self port hn with ⟨e, hfwd⟩ | ⟨p, -, hfwd⟩
    · rw [hfwd] at h
      cases h
      rfl
    · rw [hfwd] at h
      cases h

/-- A forwarded request carries the inbound port on top of its stack. -/
private theorem forwardLayer_outbound {t : Timing} {self : XBar} {port dst : Nat}
    {pkt req : Packet MemBus} (h : XBar.forwardLayer t self port pkt = .ok (.outbound dst req)) :
    req.payload.xbarPort = pkt.payload.xbarPort ++ [port] := by
  by_cases hasks : ∃ addr range, XBar.Asks pkt.payload addr range
  · obtain ⟨addr, range, hasks⟩ := hasks
    obtain ⟨n, hfwd⟩ := XBar.forwardLayer_asks t self port hasks
    rw [h] at hfwd
    split at hfwd
    · split at hfwd
      · cases hfwd
        rfl
      · cases hfwd
    · cases hfwd
  · have hn : ∀ addr range, ¬ XBar.Asks pkt.payload addr range :=
      fun addr range ha => hasks ⟨addr, range, ha⟩
    rcases XBar.forwardLayer_not_asks t self port hn with ⟨e, hfwd⟩ | ⟨p, -, hfwd⟩
    · rw [hfwd] at h
      cases h
    · rw [hfwd] at h
      cases h

/-- Where every XBar pops its own entry the answer leaves on the port of the request. -/
private theorem access_port (net : Cascade) (port : Nat) (pkt : Packet MemBus)
    (h : ∀ p ∈ (access net port pkt).pops, p.found = p.pushed) :
    ∀ i ans, (access net port pkt).answer = some (i, ans) → i = port := by
  intro i ans hans
  cases net with
  | target tgt =>
      obtain ⟨a, -, hout⟩ := Option.map_eq_some_iff.1 hans
      exact (Prod.mk.inj hout).1.symm
  | xbar self fwd bwd down entry =>
      unfold access at h hans
      cases hfwd : XBar.forwardLayer fwd self port pkt with
      | error p => rw [hfwd] at hans; cases hans
      | ok out =>
          rw [hfwd] at h hans
          cases out with
          | inbound j a =>
              obtain ⟨rfl, rfl⟩ := Prod.mk.inj (Option.some.inj hans)
              exact forwardLayer_inbound hfwd
          | outbound dst req =>
              simp only at h hans
              split at hans
              · rename_i hnone
                rw [hnone] at hans
                cases hans
              · rename_i j a hsome
                simp only [hsome] at h
                split at hans
                · rename_i hj
                  rw [if_pos hj] at h
                  have hown := h _ (List.mem_append_right _ (List.mem_singleton_self _))
                  cases hback : XBar.backwardLayer bwd self dst a with
                  | error p => rw [hback] at hans; cases hans
                  | ok out =>
                      rw [hback] at hans
                      obtain rfl := Option.some.inj hans
                      obtain ⟨htop, -⟩ := XBar.backwardLayer_spec hback
                      rw [show a.payload.xbarPort = _ from hown, forwardLayer_outbound hfwd,
                        List.getLast?_concat] at htop
                      exact (Option.some.inj htop).symm
                · cases hans

/-- One more XBar in front: its pop is its own when the trip behind it is balanced, and then the
answer leaves with the stack the request came with. -/
private theorem balanced_step (self : XBar) (fwd bwd : Timing) (down : Nat → Cascade)
    (entry : Nat → Nat) {port dst : Nat} {pkt req : Packet MemBus}
    (hfwd : XBar.forwardLayer fwd self port pkt = .ok (.outbound dst req)) :
    (access (.xbar self fwd bwd down entry) port pkt).Balanced port pkt.payload.xbarPort ↔
      (access (down dst) (entry dst) req).Balanced (entry dst) req.payload.xbarPort := by
  have hport := access_port (down dst) (entry dst) req
  rw [access, hfwd]
  simp only
  revert hport
  generalize access (down dst) (entry dst) req = trip
  intro hport
  cases hans : trip.answer with
  | none =>
      refine ⟨fun h => ⟨h.pops, ?_⟩, fun h => ⟨h.pops, ?_⟩⟩
      · intro i a ha
        rw [hans] at ha
        cases ha
      · intro i a ha
        rw [hans] at ha
        cases ha
  | some out =>
      obtain ⟨i, ans⟩ := out
      by_cases hi : i = entry dst
      · simp only [if_pos hi]
        constructor
        · intro h
          refine ⟨fun p hp => h.pops p (List.mem_append_left _ hp), ?_⟩
          intro i' a ha
          rw [hans] at ha
          obtain ⟨rfl, rfl⟩ := Prod.mk.inj (Option.some.inj ha)
          exact ⟨hi, h.pops _ (List.mem_append_right _ (List.mem_singleton_self _))⟩
        · intro h
          have hown := (h.answer i ans hans).2
          refine ⟨?_, ?_⟩
          · intro p hp
            rcases List.mem_append.1 hp with hp | hp
            · exact h.pops p hp
            · rw [List.mem_singleton.1 hp]
              exact hown
          · intro j a ha
            have hback : XBar.backwardLayer bwd self dst ans = .ok (j, a) := by
              cases hb : XBar.backwardLayer bwd self dst ans with
              | error p => rw [hb] at ha; cases ha
              | ok out => rw [hb] at ha; exact congrArg _ (Option.some.inj ha)
            obtain ⟨htop, hrest, -⟩ := XBar.backwardLayer_spec hback
            rw [hown, forwardLayer_outbound hfwd] at htop hrest
            rw [List.getLast?_concat, Option.some.injEq] at htop
            rw [List.dropLast_concat] at hrest
            exact ⟨htop.symm, hrest⟩
      · simp only [if_neg hi]
        refine ⟨?_, fun h => absurd (h.answer i ans hans).1 hi⟩
        intro h
        exact absurd (hport h.pops i ans hans) hi

/-- A cascade answers every access in balance exactly when it has a route for it. -/
theorem access_balanced (net : Cascade) (port : Nat) (pkt : Packet MemBus) :
    (access net port pkt).Balanced port pkt.payload.xbarPort ↔ ¬ net.Rejects pkt.payload := by
  induction net generalizing port pkt with
  | target tgt =>
      refine iff_of_true ?_ fun ⟨addr, range, _, hun⟩ => hun
      unfold access
      cases hserve : tgt.serve pkt with
      | none => exact balanced_lost port _
      | some ans => exact balanced_answered (tgt.keeps pkt ans hserve)
  | xbar self fwd bwd down entry ih =>
      by_cases hasks : ∃ addr range, XBar.Asks pkt.payload addr range
      · obtain ⟨addr, range, hasks⟩ := hasks
        have hrej : ∀ net : Cascade, net.Rejects pkt.payload ↔ net.Unrouted addr range := by
          intro net
          refine ⟨fun ⟨a, n, ha, hun⟩ => ?_, fun hun => ⟨addr, range, hasks, hun⟩⟩
          obtain ⟨rfl, rfl⟩ := ha.unique hasks
          exact hun
        rw [hrej, Cascade.Unrouted]
        cases hfind : self.addrMap.findPort addr range with
        | error err =>
            exact iff_of_false (not_balanced_of_error hasks hfind) (not_not_intro trivial)
        | ok out =>
            obtain ⟨ofst, dst⟩ := out
            obtain ⟨n, hfwd⟩ := XBar.forwardLayer_asks fwd self port hasks
            rw [hfind] at hfwd
            by_cases hdst : dst < self.outboundLen
            · simp only [if_pos hdst] at hfwd
              rw [balanced_step self fwd bwd down entry hfwd, ih dst]
              simp only [hdst, true_and]
              refine not_congr ⟨fun ⟨a, m, ha, hun⟩ => ?_, ?_⟩
              · obtain ⟨rfl, rfl⟩ := ha.unique ⟨rfl, hasks.pattern, hasks.cmd⟩
                exact hun
              · intro hun
                exact ⟨addr - ofst, range, ⟨rfl, hasks.pattern, hasks.cmd⟩, hun⟩
            · simp only [if_neg hdst] at hfwd
              refine iff_of_true ?_ fun h => hdst h.1
              unfold access
              rw [hfwd]
              exact balanced_lost port _
      · have hn : ∀ addr range, ¬ XBar.Asks pkt.payload addr range :=
          fun addr range h => hasks ⟨addr, range, h⟩
        exact iff_of_true (balanced_of_not_asks hn) fun ⟨addr, range, h, _⟩ => hn addr range h

/-! ### That an answer comes -/

/-- Every target answers, the maps route to ports that exist, and XBars are entered on ports that
exist. -/
def Cascade.Live : Cascade → Nat → Prop
  | .target tgt, _ => ∀ pkt, ∃ ans, tgt.serve pkt = some ans ∧
      ans.payload.cmd = pkt.payload.cmd ∧ ans.payload.pattern = pkt.payload.pattern
  | .xbar self _ _ down entry, port => port < self.inboundLen ∧
      (∀ addr range ofst dst, self.addrMap.findPort addr range = .ok (ofst, dst) →
        dst < self.outboundLen ∧ (down dst).Live (entry dst))

/-- In a live cascade a request with a pattern that is not rejected is answered. -/
theorem access_answers (net : Cascade) (port : Nat) (pkt : Packet MemBus) (hlive : net.Live port)
    (hpat : pkt.payload.pattern ≠ .unset) (hrouted : ¬ net.Rejects pkt.payload) :
    ∃ ans, (access net port pkt).answer = some (port, ans) ∧
      ans.payload.cmd = pkt.payload.cmd ∧ ans.payload.pattern = pkt.payload.pattern := by
  have hrange : ∃ n, pkt.payload.pattern.range = .ok n := by
    cases hp : pkt.payload.pattern with
    | unset => exact absurd hp hpat
    | simple d => exact ⟨d, rfl⟩
    | stride size stride iter => exact ⟨stride * iter, rfl⟩
  obtain ⟨range, hrange⟩ := hrange
  induction net generalizing port pkt with
  | target tgt =>
      obtain ⟨ans, hserve, hcmd, hpat⟩ := hlive pkt
      refine ⟨ans, ?_, hcmd, hpat⟩
      unfold access
      rw [hserve]
      rfl
  | xbar self fwd bwd down entry ih =>
      obtain ⟨hport, hdown⟩ := hlive
      by_cases hasks : ∃ addr, XBar.Asks pkt.payload addr range
      · obtain ⟨addr, hasks⟩ := hasks
        obtain ⟨n, hfwd⟩ := XBar.forwardLayer_asks fwd self port hasks
        cases hfind : self.addrMap.findPort addr range with
        | error err =>
            refine absurd ⟨addr, range, hasks, ?_⟩ hrouted
            rw [Cascade.Unrouted, hfind]
            trivial
        | ok out =>
            obtain ⟨ofst, dst⟩ := out
            obtain ⟨hdst, hlive⟩ := hdown addr range ofst dst hfind
            simp only [hfind, if_pos hdst] at hfwd
            obtain ⟨req, hfwd, hreqc, hreqp⟩ : ∃ req,
                XBar.forwardLayer fwd self port pkt = .ok (.outbound dst req) ∧
                  req.payload.cmd = pkt.payload.cmd ∧
                  req.payload.pattern = pkt.payload.pattern := ⟨_, hfwd, rfl, rfl⟩
            have hbal := (balanced_step self fwd bwd down entry hfwd).1
              ((access_balanced _ port pkt).2 hrouted)
            obtain ⟨ans, hans, hcmd, hpat'⟩ :=
              ih dst (entry dst) req hlive (by rw [hreqp]; exact hpat)
              ((access_balanced _ _ _).1 hbal) (by rw [hreqp]; exact hrange)
            rw [hreqc] at hcmd
            rw [hreqp] at hpat'
            have hstack := (hbal.answer _ _ hans).2
            rw [forwardLayer_outbound hfwd] at hstack
            obtain ⟨a, hback, hac, hap⟩ := XBar.backwardLayer_own bwd dst hstack hport
              (by rw [hcmd]; exact hasks.cmd)
              (XBar.len_of_range (by rw [hpat']; exact hrange))
            refine ⟨a, ?_, hac.trans hcmd, hap.trans hpat'⟩
            unfold access
            simp only [hfwd, hans, if_true, hback]
            rfl
      · have hn : ∀ addr n, ¬ XBar.Asks pkt.payload addr n := by
          intro addr n h
          have := h.pattern.symm.trans hrange
          cases this
          exact hasks ⟨addr, h⟩
        rcases XBar.forwardLayer_not_asks fwd self port hn with ⟨e, hfwd⟩ | ⟨p, hp, -⟩
        · refine ⟨pkt.setPayload (pkt.payload.setMode (.error e)), ?_, rfl, rfl⟩
          unfold access
          rw [hfwd]
        · rw [hrange] at hp
          cases hp

/-! ### A Dma in front of the cascade -/

/-- The accesses of one transfer, the read and the write if there is one, each with its trip.

`inner'` is the store when the answer of the read arrives: other transfers may have moved it. -/
def Dma.transfer (net : Cascade) (port : Nat) (t t' : Timing) (uid pktUid : Nat)
    (inner inner' : DmaInner) (token : Nat) (dmaPkt : Packet (DmaBus Addr)) :
    List (Packet MemBus × Trip) :=
  match Dma.requestLayer t uid pktUid inner token dmaPkt with
  | .error _ => []
  | .ok (read, _) =>
      let trip := access net port read
      (read, trip) ::
        match trip.answer with
        | none => []
        | some (i, ans) =>
            if i = port then
              match Dma.forwardLayer t' inner' ans with
              | .ok (.outbound write, _) => [(write, access net port write)]
              | _ => []
            else []

/-- The read of a transfer leaves the Dma with the transfer's slot alone on its stack. -/
private theorem requestLayer_stack {t : Timing} {uid pktUid token : Nat} {inner inner' : DmaInner}
    {dmaPkt : Packet (DmaBus Addr)} {read : Packet MemBus}
    (h : Dma.requestLayer t uid pktUid inner token dmaPkt = .ok (read, inner')) :
    read.payload.xbarPort = [token] := by
  unfold Dma.requestLayer at h
  split at h
  · obtain ⟨rfl, -⟩ := Prod.mk.inj (Except.ok.inj h)
    exact Dma.forgeRead_xbarPort t uid pktUid token dmaPkt.payload
  · cases h

/-- After a balanced read the write leaves the Dma with the same stack. -/
private theorem transfer_stack {net : Cascade} {port : Nat} {t t' : Timing} {uid pktUid token : Nat}
    {inner inner' : DmaInner} {dmaPkt : Packet (DmaBus Addr)} {read : Packet MemBus} {trip : Trip}
    {rest : List (Packet MemBus × Trip)}
    (h : Dma.transfer net port t t' uid pktUid inner inner' token dmaPkt = (read, trip) :: rest) :
    read.payload.xbarPort = [token] ∧ trip = access net port read ∧
      (trip.Balanced port [token] → ∀ a ∈ rest,
        a.1.payload.xbarPort = [token] ∧ a.2 = access net port a.1) := by
  unfold Dma.transfer at h
  cases hreq : Dma.requestLayer t uid pktUid inner token dmaPkt with
  | error p => rw [hreq] at h; cases h
  | ok out =>
      obtain ⟨read', st⟩ := out
      rw [hreq] at h
      obtain ⟨hhead, rfl⟩ := List.cons.inj h
      obtain ⟨rfl, rfl⟩ := Prod.mk.inj hhead
      refine ⟨requestLayer_stack hreq, rfl, ?_⟩
      intro hb a ha
      split at ha
      · cases ha
      · rename_i i ans hans
        split at ha
        · split at ha
          · rename_i write st' hfwd
            rw [List.mem_singleton.1 ha]
            refine ⟨?_, rfl⟩
            rw [(Dma.forwardLayer_outbound hfwd).1, (hb.answer i ans hans).2]
          · cases ha
        · cases ha

/-- Over a balanced transfer every access leaves the Dma with the slot alone on its stack. -/
private theorem transfer_pushed {net : Cascade} {port : Nat} {t t' : Timing}
    {uid pktUid token : Nat} {inner inner' : DmaInner} {dmaPkt : Packet (DmaBus Addr)}
    (h : ∀ a ∈ Dma.transfer net port t t' uid pktUid inner inner' token dmaPkt,
      a.2.Balanced port [token]) :
    ∀ a ∈ Dma.transfer net port t t' uid pktUid inner inner' token dmaPkt,
      a.1.payload.xbarPort = [token] := by
  cases htr : Dma.transfer net port t t' uid pktUid inner inner' token dmaPkt with
  | nil =>
      intro a ha
      cases ha
  | cons a rest =>
      obtain ⟨read, trip⟩ := a
      obtain ⟨hread, -, hrest⟩ := transfer_stack htr
      have hhead := h (read, trip) (by rw [htr]; exact List.mem_cons_self)
      exact List.forall_mem_cons.2 ⟨hread, fun b hb => (hrest hhead b hb).1⟩

/-- A Dma and the XBars behind it pop their own entries over a whole transfer exactly when each of
its accesses is routed. -/
theorem transfer_balanced (net : Cascade) (port : Nat) (t t' : Timing) (uid pktUid : Nat)
    (inner inner' : DmaInner) (token : Nat) (dmaPkt : Packet (DmaBus Addr)) :
    (∀ a ∈ Dma.transfer net port t t' uid pktUid inner inner' token dmaPkt,
        a.2.Balanced port [token]) ↔
      ∀ a ∈ Dma.transfer net port t t' uid pktUid inner inner' token dmaPkt,
        ¬ net.Rejects a.1.payload := by
  cases h : Dma.transfer net port t t' uid pktUid inner inner' token dmaPkt with
  | nil =>
      refine iff_of_true ?_ ?_
      · intro a ha
        cases ha
      · intro a ha
        cases ha
  | cons a rest =>
      obtain ⟨read, trip⟩ := a
      obtain ⟨hread, rfl, hrest⟩ := transfer_stack h
      have hhead : (access net port read).Balanced port [token] ↔ ¬ net.Rejects read.payload := by
        rw [← hread]
        exact access_balanced net port read
      rw [List.forall_mem_cons, List.forall_mem_cons]
      show (access net port read).Balanced port [token] ∧ _ ↔ ¬ net.Rejects read.payload ∧ _
      rw [hhead]
      refine and_congr_right ?_
      intro hrouted
      refine forall₂_congr ?_
      intro b hb
      obtain ⟨hstack, htrip⟩ := hrest (hhead.2 hrouted) b hb
      rw [htrip, ← hstack]
      exact access_balanced net port b.1

/-- Over one access of a cascade, and over a whole transfer of a Dma in front of one, every XBar and
the Dma pop their own entries and the answer leaves where its request came in, with its stack,
exactly when the maps on the path have a route. -/
theorem pops_own_iff_routed (net : Cascade) (port : Nat) :
    (∀ pkt : Packet MemBus,
      (access net port pkt).Balanced port pkt.payload.xbarPort ↔ ¬ net.Rejects pkt.payload) ∧
    (∀ pkt : Packet MemBus, net.Live port → pkt.payload.pattern ≠ .unset →
      ¬ net.Rejects pkt.payload →
        ∃ ans, (access net port pkt).answer = some (port, ans) ∧
          ans.payload.xbarPort = pkt.payload.xbarPort) ∧
    ∀ (t t' : Timing) (uid pktUid : Nat) (inner inner' : DmaInner) (token : Nat)
      (dmaPkt : Packet (DmaBus Addr)),
      (∀ a ∈ Dma.transfer net port t t' uid pktUid inner inner' token dmaPkt,
          a.1.payload.xbarPort = [token] ∧ a.2.Balanced port [token]) ↔
        ∀ a ∈ Dma.transfer net port t t' uid pktUid inner inner' token dmaPkt,
          ¬ net.Rejects a.1.payload := by
  refine ⟨access_balanced net port, ?_, ?_⟩
  · intro pkt hlive hpat hrouted
    obtain ⟨ans, hans, -⟩ := access_answers net port pkt hlive hpat hrouted
    exact ⟨ans, hans, (((access_balanced net port pkt).2 hrouted).answer port ans hans).2⟩
  · intro t t' uid pktUid inner inner' token dmaPkt
    rw [← transfer_balanced]
    refine ⟨fun h a ha => (h a ha).2, fun h a ha => ⟨?_, h a ha⟩⟩
    exact transfer_pushed h a ha

/-- The first transfer of a Dma with four slots, from address 0 to address 16. -/
def firstTransfer : Packet (DmaBus Addr) :=
  { uid := 0, payload := DmaBus.new (.phys 0) (.phys 16) (.simple 4) }

/-- An XBar with one inbound port and no range, in front of a memory. -/
def unmappedXBar : Cascade :=
  .xbar ⟨0, 1, 1, AddrRangeMap.new⟩ {} {} (fun _ => .target (NpRam.target {} (NpRam.new 2 16))) id

/-- The read of the transfer is pushed slot 3 and comes back with the XBar's port 0 on top; the Dma
takes it for the answer of slot 0, where there is no transfer. -/
theorem unmapped_read_unbalanced :
    ∃ inner read inner' ans, (DmaInner.new 4).takeToken = some (3, inner) ∧
      Dma.requestLayer {} 1 0 inner 3 firstTransfer = .ok (read, inner') ∧
      (access unmappedXBar 0 read).answer = some (0, ans) ∧
      ans.payload.xbarPort ≠ read.payload.xbarPort ∧
      Dma.forwardLayer {} inner' ans = .error ⟨"Error in pkt_store management"⟩ := by
  refine ⟨_, _, _, _, rfl, rfl, rfl, ?_, rfl⟩
  decide

end Ra2m
