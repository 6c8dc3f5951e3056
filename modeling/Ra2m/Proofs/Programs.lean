/-
Programs on the bus that do not interfere compute what they compute alone.

Each master has one request under way (`OneAtATime`), so the memories serve the accesses
of its program in the order of the program, among those of the others.  What a read finds
is what its own program left there, unless another program has written there
(`Access.result_serve_filter_of_reads`).  So as long as all programs have got the answers
they get alone, what each asks for is what it asks for alone, and if alone no program
writes what another reads, the next answer is again the one it gets alone.
-/
import Ra2m.Cpn.Programs
import Ra2m.Proofs.OneAtATime

namespace Ra2m

namespace MemSystem

/-- The address map has a range for the bytes, or the error it refuses them with. -/
def grants (sys : MemSystem) (addr len : Nat) : Except PortFailure Unit :=
  match sys.xbar.addrMap.findPort addr len with
  | .ok _ => .ok ()
  | .error err => .error (.status (.addrRange err))

def allow (sys : MemSystem) : Access UInt8 → Except PortFailure Unit
  | .read addr len => sys.grants addr len
  | .write addr data => sys.grants addr data.length

variable {sys : MemSystem} {x : Access UInt8}

/-! ### The request for an access -/

/-- The access ends in the address space. -/
def InSpace : Access UInt8 → Prop
  | .read addr len => addr + len < 2 ^ 64
  | .write addr data => addr + data.length < 2 ^ 64

theorem request_ofAccess (sys : MemSystem) (now : Tick) (fromUid : Nat) {x : Access UInt8}
    (hfits : InSpace x) : ∃ addr len, (MemBus.ofAccess now fromUid x).Request addr len ∧
      sys.allow x = sys.grants addr len := by
  cases x with
  | read addr len => exact ⟨addr, len, ⟨rfl, rfl, rfl, Or.inl rfl, hfits⟩, rfl⟩
  | write addr data => exact ⟨addr, data.length, ⟨rfl, rfl, rfl, Or.inr ⟨rfl, rfl⟩, hfits⟩, rfl⟩

/-- The packet asks for the access. -/
structure AsksFor (pkt : Packet MemBus) (x : Access UInt8) : Prop where
  sid : pkt.sid = none
  payload : ∃ now fromUid, pkt.payload = .ofAccess now fromUid x
  fits : InSpace x

namespace AsksFor

variable {pkt : Packet MemBus}

theorem request (h : AsksFor pkt x) (sys : MemSystem) : ∃ addr len, pkt.payload.Request addr len ∧
    sys.allow x = sys.grants addr len := by
  obtain ⟨now, fromUid, hpayload⟩ := h.payload
  rw [hpayload]
  exact request_ofAccess sys now fromUid h.fits

theorem accessOf (h : AsksFor pkt x) : NpRam.accessOf pkt.payload = x := by
  obtain ⟨now, fromUid, hpayload⟩ := h.payload
  rw [hpayload]
  cases x with
  | read addr len => rfl
  | write addr data => rfl

/-- It is routed exactly when the address map has a range for it. -/
theorem route_ok (h : AsksFor pkt x) {dst : Nat}
    (hroute : sys.xbar.route pkt.payload = some (.ok dst)) : sys.allow x = .ok () := by
  obtain ⟨addr, len, hreq, hallow⟩ := h.request sys
  rw [route_eq sys hreq] at hroute
  rw [hallow, grants]
  cases hfind : sys.xbar.addrMap.findPort addr len with
  | ok out => rfl
  | error err =>
      rw [hfind] at hroute
      cases hroute

theorem route_error (h : AsksFor pkt x) {err : AddrRangeError}
    (hroute : sys.xbar.route pkt.payload = some (.error err)) :
    sys.allow x = .error (.status (.addrRange err)) := by
  obtain ⟨addr, len, hreq, hallow⟩ := h.request sys
  rw [route_eq sys hreq] at hroute
  rw [hallow, grants]
  cases hfind : sys.xbar.addrMap.findPort addr len with
  | ok out =>
      rw [hfind] at hroute
      cases hroute
  | error err' =>
      rw [hfind] at hroute
      cases hroute
      rfl

/-- What is returned of the answer is the result of the access. -/
theorem found_eq (h : AsksFor pkt x) {ans : MemBus} {data : List UInt8}
    (hdata : ans.data = pkt.payload.data ++ x.result data) : ans.found x = x.result data := by
  obtain ⟨now, fromUid, hpayload⟩ := h.payload
  cases x with
  | read addr len =>
      rw [hpayload] at hdata
      exact hdata
  | write addr bytes => rfl

/-- Where it takes effect, if it does. -/
theorem map_placeOf (h : AsksFor pkt x) (sys : MemSystem) :
    (sys.xbar.placeOf pkt).map Prod.snd = Program.granted sys.allow [x] := by
  obtain ⟨addr, len, hreq, hallow⟩ := h.request sys
  have hroute := route_eq sys hreq
  cases hfind : sys.xbar.addrMap.findPort addr len with
  | ok out =>
      rw [hfind] at hroute
      rw [XBar.placeOf_of_route hroute, Program.granted_granted (h.route_ok hroute), ← h.accessOf]
      rfl
  | error err =>
      rw [hfind] at hroute
      rw [placeOf_of_refused hroute, Program.granted_refused (h.route_error hroute)]
      rfl

end AsksFor

/-- The packets ask for what they stand for. -/
def AllAsk (l : List (Packet MemBus)) : Prop :=
  ∀ pkt ∈ l, AsksFor pkt (NpRam.accessOf pkt.payload)

theorem AllAsk.map_placeOf {l : List (Packet MemBus)} (h : AllAsk l) (sys : MemSystem) :
    (l.flatMap sys.xbar.placeOf).map Prod.snd =
      Program.granted sys.allow (l.map fun pkt => NpRam.accessOf pkt.payload) := by
  induction l with
  | nil => rfl
  | cons pkt rest ih =>
      have hrest := ih fun p hp => h p (List.mem_cons_of_mem pkt hp)
      rw [List.flatMap_cons, List.map_append, hrest, (h pkt List.mem_cons_self).map_placeOf sys,
        ← Program.granted_append]
      rfl

end MemSystem

/-! ### What holds all along -/

/-- The program a master has come to, and its request under way. -/
inductive MasterStage.At {β : Type} :
    MasterStage β → PortProgram β → List (Packet MemBus) → Prop where
  | running (p : PortProgram β) : At (.running p) p []
  | waiting (x : Access UInt8) (pkt : Packet MemBus)
      (next : Except PortFailure (List UInt8) → PortProgram β)
      (asks : MemSystem.AsksFor pkt x) : At (.waiting x pkt next) (.access x next) [pkt]

namespace MasterStage.At

open MemSystem

variable {β : Type} {stage : MasterStage β} {p p' : PortProgram β} {cur : List (Packet MemBus)}

theorem of_running (h : (MasterStage.running p).At p' cur) : cur = [] ∧ p' = p := by
  cases h with
  | running => exact ⟨rfl, rfl⟩

theorem of_waiting {x : Access UInt8} {pkt : Packet MemBus}
    {next : Except PortFailure (List UInt8) → PortProgram β}
    (h : (MasterStage.waiting x pkt next).At p cur) :
    cur = [pkt] ∧ p = .access x next ∧ AsksFor pkt x := by
  cases h with
  | waiting x pkt next asks => exact ⟨rfl, rfl, asks⟩

/-- The request under way asks for what the program has come to. -/
theorem asked (h : stage.At p cur) : AllAsk cur := by
  cases h with
  | running => exact List.forall_mem_nil _
  | waiting x pkt next asks =>
      intro pkt' hpkt
      rw [List.mem_singleton.mp hpkt, asks.accessOf]
      exact asks

/-- It is one the program also asks for alone. -/
theorem isPrefix (h : stage.At p' cur) {allow : Access UInt8 → Except PortFailure Unit}
    {m : List UInt8} {asked : List (Access UInt8)} (hreaches : Program.Reaches allow m p asked p') :
    asked ++ cur.map (fun pkt => NpRam.accessOf pkt.payload) <+: (p.run allow m).1 := by
  cases h with
  | running =>
      rw [List.map_nil, List.append_nil, hreaches.run_eq]
      exact List.prefix_append _ _
  | waiting x pkt next asks =>
      rw [List.map_singleton, asks.accessOf]
      exact hreaches.isPrefix

end MasterStage.At

namespace ProgramNet

open MemSystem

variable {sys : MemSystem} {β : Type} {progs : Fin sys.xbar.inboundLen → PortProgram β}
  {uids : Fin sys.xbar.inboundLen → Nat} {inflight : sys.xbar.Station → Nat} {flat : List UInt8}
  {s s' : ProgramNet sys.xbar β} {a : ProgramAct sys.xbar} {idx : Fin sys.xbar.inboundLen}

/-- The accesses a program makes alone. -/
def alone (sys : MemSystem) (flat : List UInt8) (p : PortProgram β) : List (Access UInt8) :=
  Program.granted sys.allow (p.run sys.allow flat).1

/-- What a program asks for alone ends in the address space. -/
def StaysInSpace (sys : MemSystem) (flat : List UInt8) (p : PortProgram β) : Prop :=
  ∀ x ∈ (p.run sys.allow flat).1, InSpace x

/-- Alone, no program writes what another reads. -/
def Independent (sys : MemSystem) (flat : List UInt8)
    (progs : Fin sys.xbar.inboundLen → PortProgram β) : Prop :=
  ∀ i j, i ≠ j → ∀ x ∈ alone sys flat (progs i), ∀ y ∈ alone sys flat (progs j),
    ∀ b, x.ReadsAt b → y.writesAt b = none

/-- A master has come as far as its program comes alone. -/
structure Going (sys : MemSystem) (flat : List UInt8) (p : PortProgram β)
    (idx : Fin sys.xbar.inboundLen) (s : ProgramNet sys.xbar β) (done cur : List (Packet MemBus))
    (p' : PortProgram β) : Prop where
  stage : (s.masters idx).At p' cur
  one : OneAtATime sys idx done cur s.net
  asked : AllAsk done
  reaches : Program.Reaches sys.allow flat p (done.map fun pkt => NpRam.accessOf pkt.payload) p'

/-- What holds in every state. -/
structure Undisturbed (sys : MemSystem) (inflight : sys.xbar.Station → Nat) (flat : List UInt8)
    (progs : Fin sys.xbar.inboundLen → PortProgram β) (s : ProgramNet sys.xbar β) : Prop where
  concurrent : Concurrent sys inflight flat s.net
  untagged : Stations.Sound (sys.xbar.net inflight) (fun _ _ pkt => pkt.sid = none) (fun _ => True)
    s.net
  fits : ∀ idx, StaysInSpace sys flat (progs idx)
  going : ∀ idx, ∃ done cur p', Going sys flat (progs idx) idx s done cur p'

theorem Going.asked_all {p p' : PortProgram β} {done cur : List (Packet MemBus)}
    (h : Going sys flat p idx s done cur p') : AllAsk (done ++ cur) := by
  intro pkt hpkt
  rcases List.mem_append.mp hpkt with hdone | hcur
  · exact h.asked pkt hdone
  · exact h.stage.asked pkt hcur

/-- What the memories served is in the flat memory and what the programs ask for alone. -/
theorem Undisturbed.served (h : Undisturbed sys inflight flat progs s) (hpart : sys.Partitioned)
    (hcovered : ∀ e ∈ sys.ranges, e.1 + e.2.1 ≤ flat.length) {y : XBar.Serve}
    (hy : y ∈ XBar.serves s.net.log) : (y.access sys.xbar).InRange flat.length ∧
      ∃ j : Fin sys.xbar.inboundLen, y.master = j ∧
        y.access sys.xbar ∈ alone sys flat (progs j) := by
  obtain ⟨j, dst, hj, hdst, pkt, hpkt, hroute, hacc⟩ := (h.concurrent.linearized hpart).served hy
  obtain ⟨done, cur, p', hgoing⟩ := h.going j
  rw [hgoing.one.requests] at hpkt
  have hasks := hgoing.asked_all pkt hpkt
  obtain ⟨addr, len, hreq, -⟩ := hasks.request sys
  have hstarts := hgoing.stage.isPrefix hgoing.reaches
  rw [← List.map_append] at hstarts
  rw [hacc]
  exact ⟨inRange_of_route hreq hroute hcovered, j, hj, Program.mem_granted.mpr
    ⟨hstarts.subset (List.mem_map_of_mem hpkt), hasks.route_ok hroute⟩⟩

/-! ### The answers -/

/-- **The answer to a program is the one it gets alone.** -/
theorem Undisturbed.answer (h : Undisturbed sys inflight flat progs s) (hpart : sys.Partitioned)
    (hcovered : ∀ e ∈ sys.ranges, e.1 + e.2.1 ≤ flat.length)
    (hind : Independent sys flat progs) {done : List (Packet MemBus)} {pkt ans : Packet MemBus}
    {x : Access UInt8} {next : Except PortFailure (List UInt8) → PortProgram β}
    (hdone : AllAsk done) (hasks : AsksFor pkt x)
    (hreaches : Program.Reaches sys.allow flat (progs idx)
      (done.map fun pkt => NpRam.accessOf pkt.payload) (.access x next))
    (hsid : ans.sid = none) (hanswered : AnsweredAs sys idx flat s.net.log done pkt ans) :
    Program.Reaches sys.allow flat (progs idx)
      ((done ++ [pkt]).map fun pkt => NpRam.accessOf pkt.payload)
      (next ((SlavePort.waitPktEp.accept ans : Except PortFailure _).map
        fun ans => ans.payload.found x)) := by
  rw [List.map_append, List.map_singleton, hasks.accessOf]
  cases hanswered with
  | refused err route mode =>
      have haccept : (SlavePort.waitPktEp.accept ans : Except PortFailure _) =
          .error (.status (.addrRange err)) := SlavePort.accept_of_error mode
      rw [haccept]
      exact hreaches.refused (hasks.route_error route)
  | served dst pre y post route serves master access order mode data =>
      have haccept : (SlavePort.waitPktEp.accept ans : Except PortFailure _) = .ok ans :=
        SlavePort.accept_of_response mode hsid
      have hgrant := hasks.route_ok route
      have hmine : (pre.filter fun y => decide (y.master = (idx : Nat))).map
          (XBar.Serve.access sys.xbar) =
            Program.granted sys.allow (done.map fun pkt => NpRam.accessOf pkt.payload) := by
        rw [← hdone.map_placeOf sys, ← order, List.map_map]
        rfl
      have hpre : ∀ y ∈ pre, y ∈ XBar.serves s.net.log := by
        intro y hy
        rw [serves]
        exact List.mem_append_left _ hy
      have hsame : x.result (sys.xbar.memoryAfter flat pre) = x.result
          (Program.memoryAfter sys.allow flat
            (done.map fun pkt => NpRam.accessOf pkt.payload)) := by
        rw [Program.memoryAfter, ← hmine]
        refine (Access.result_serve_filter_of_reads (fun y hy =>
          (h.served hpart hcovered (hpre y hy)).1) ?_).symm
        intro y hy hne b hb
        obtain ⟨-, j, hj, hmade⟩ := h.served hpart hcovered (hpre y hy)
        have hji : idx ≠ j := by
          rintro rfl
          simp [hj] at hne
        refine hind idx j hji x (Program.mem_granted.mpr ⟨?_, hgrant⟩) _ hmade b hb
        exact hreaches.isPrefix.subset (by simp)
      rw [hasks.accessOf] at data
      rw [haccept, Except.map, hasks.found_eq data, hsame]
      exact hreaches.granted hgrant

/-! ### Every step -/

/-- What each step does, and when it can. -/
inductive Moved (inflight : sys.xbar.Station → Nat) (uids : Fin sys.xbar.inboundLen → Nat)
    (s : ProgramNet sys.xbar β) : ProgramAct sys.xbar → ProgramNet sys.xbar β → Prop where
  | issue (idx : Fin sys.xbar.inboundLen) (now : Tick) (uid : Nat) (x : Access UInt8)
      (next : Except PortFailure (List UInt8) → PortProgram β) (pkt : Packet MemBus)
      (net : sys.xbar.NetState) (stage : s.masters idx = .running (.access x next))
      (sid : pkt.sid = none) (payload : ∃ now fromUid, pkt.payload = .ofAccess now fromUid x)
      (step : (sys.xbar.net inflight).step s.net (.arrive (.inbound idx) pkt) = some net) :
      Moved inflight uids s (.issue idx now uid)
        ⟨net, Function.update s.masters idx (.waiting x pkt next)⟩
  | recv (idx : Fin sys.xbar.inboundLen) (x : Access UInt8) (pkt : Packet MemBus)
      (next : Except PortFailure (List UInt8) → PortProgram β) (net : sys.xbar.NetState)
      (resp : Except PortFailure (Packet MemBus)) (rx : List (Packet MemBus))
      (stage : s.masters idx = .waiting x pkt next)
      (wait : SlavePort.waitPktEp (some pkt.uid) ((s.net.queue (.master idx)).map Prod.snd) =
        some (resp, rx))
      (step : (sys.xbar.net inflight).step s.net (.take (.master idx) {}) = some net) :
      Moved inflight uids s (.recv idx) ({ s with net }.answered idx x next resp)
  | work (b : sys.xbar.NetAct) (net : sys.xbar.NetState) (layer : XBar.ofLayer b = true)
      (step : (sys.xbar.net inflight).step s.net b = some net) :
      Moved inflight uids s (.work b) { s with net }

/-- A request of a program passes the check of the port. -/
theorem txCheck_ofAccess (now : Tick) (fromUid : Nat) (x : Access UInt8) :
    TxStatus.txCheck (MemBus.ofAccess now fromUid x) = .ok () := by
  cases x with
  | read addr len => rfl
  | write addr data => rfl

theorem moved_of_step (h : s.step inflight uids a = some s') : Moved inflight uids s a s' := by
  cases a with
  | issue idx now uid =>
      simp only [step] at h
      split at h
      · rename_i x next hstage
        rw [txCheck_ofAccess] at h
        simp only [Option.map_eq_some_iff] at h
        obtain ⟨net, hnet, rfl⟩ := h
        exact .issue idx now uid x next _ net hstage rfl ⟨now, _, rfl⟩ hnet
      · cases h
  | recv idx =>
      simp only [step] at h
      split at h
      · rename_i x pkt next hstage
        split at h
        · cases h
        · rename_i resp rx hwait
          simp only [Option.map_eq_some_iff] at h
          obtain ⟨net, hnet, rfl⟩ := h
          exact .recv idx x pkt next net resp rx hstage hwait hnet
      · cases h
  | work b =>
      simp only [step, Option.ite_none_right_eq_some, Option.map_eq_some_iff] at h
      obtain ⟨hlayer, net, hnet, rfl⟩ := h
      exact .work b net hlayer hnet

/-- The programs at the start. -/
theorem Undisturbed.init {flat : MemoryChecker} (hsim : sys.Simulates flat)
    (hfits : ∀ idx, StaysInSpace sys flat.memory (progs idx)) :
    Undisturbed sys inflight flat.memory progs (ProgramNet.init sys.rams progs) where
  concurrent := Concurrent.init hsim
  untagged := Stations.Sound.init trivial
  fits := hfits
  going := fun idx =>
    ⟨[], [], progs idx, .running _, OneAtATime.init sys idx sys.rams, List.forall_mem_nil _, .start⟩

/-- Steps of the others change nothing for a program. -/
theorem Going.other (hpart : sys.Partitioned) {p p' : PortProgram β}
    {done cur : List (Packet MemBus)}
    (h : Going sys flat p idx s done cur p') (hs : Concurrent sys inflight flat s.net)
    (hs' : Concurrent sys inflight flat s'.net) {b : sys.xbar.NetAct}
    (hstep : (sys.xbar.net inflight).step s.net b = some s'.net)
    (hsend : ∀ req, b ≠ .arrive (.inbound idx) req) (htake : ∀ t, b ≠ .take (.master idx) t)
    (hstage : s'.masters idx = s.masters idx) : Going sys flat p idx s' done cur p' := by
  refine ⟨?_, h.one.other hpart hs hs' hstep hsend htake, h.asked, h.reaches⟩
  rw [hstage]
  exact h.stage

/-- A program that has come to an access asks for it alone too. -/
theorem Undisturbed.inSpace (h : Undisturbed sys inflight flat progs s) {x : Access UInt8}
    {next : Except PortFailure (List UInt8) → PortProgram β}
    (hstage : s.masters idx = .running (.access x next)) : InSpace x := by
  obtain ⟨done, cur, p', hgoing⟩ := h.going idx
  obtain ⟨-, rfl⟩ := MasterStage.At.of_running (hstage ▸ hgoing.stage)
  exact h.fits idx x (hgoing.reaches.isPrefix.subset (by simp))

theorem Undisturbed.issue (h : Undisturbed sys inflight flat progs s) (hpart : sys.Partitioned)
    (hcovered : ∀ e ∈ sys.ranges, e.1 + e.2.1 ≤ flat.length) {x : Access UInt8}
    {next : Except PortFailure (List UInt8) → PortProgram β} {pkt : Packet MemBus}
    {net : sys.xbar.NetState} (hstage : s.masters idx = .running (.access x next))
    (hsid : pkt.sid = none) (hpayload : ∃ now fromUid, pkt.payload = .ofAccess now fromUid x)
    (hstep : (sys.xbar.net inflight).step s.net (.arrive (.inbound idx) pkt) = some net) :
    Undisturbed sys inflight flat progs
      ⟨net, Function.update s.masters idx (.waiting x pkt next)⟩ := by
  have hasks : AsksFor pkt x := ⟨hsid, hpayload, h.inSpace hstage⟩
  have hplain : (Stations.Act.arrive (.inbound idx) pkt : sys.xbar.NetAct).Brings
      (fun _ _ pkt => pkt.sid = none) := hasks.sid
  have hbrings : (Stations.Act.arrive (.inbound idx) pkt : sys.xbar.NetAct).Brings sys.Kind := by
    obtain ⟨addr, len, hreq, -⟩ := hasks.request sys
    exact ⟨addr, len, hreq⟩
  have hnet := h.concurrent.step hpart hcovered hbrings hstep
  refine ⟨hnet, h.untagged.step (XBar.keeps_untagged inflight) hplain hstep, h.fits, fun i => ?_⟩
  obtain ⟨done, cur, p', hgoing⟩ := h.going i
  by_cases hi : i = idx
  · subst hi
    have hat := hgoing.stage
    rw [hstage] at hat
    cases hat with
    | running =>
        refine ⟨done, [pkt], _, ?_, hgoing.one.send hstep, hgoing.asked, hgoing.reaches⟩
        simp only [Function.update_self]
        exact .waiting x pkt next hasks
  · refine ⟨done, cur, p', hgoing.other hpart h.concurrent hnet hstep ?_ (by intro t heq; cases heq)
      (Function.update_of_ne hi _ _)⟩
    rintro req heq
    cases heq
    exact hi rfl

/-- The master that receives its answer goes on as it does alone. -/
theorem Undisturbed.going_answered (h : Undisturbed sys inflight flat progs s)
    (hpart : sys.Partitioned) (hcovered : ∀ e ∈ sys.ranges, e.1 + e.2.1 ≤ flat.length)
    (hind : Independent sys flat progs) {x : Access UInt8} {pkt : Packet MemBus}
    {next : Except PortFailure (List UInt8) → PortProgram β} {net : sys.xbar.NetState}
    {resp : Except PortFailure (Packet MemBus)} {rx : List (Packet MemBus)}
    (hstage : s.masters idx = .waiting x pkt next)
    (hwait : SlavePort.waitPktEp (some pkt.uid) ((s.net.queue (.master idx)).map Prod.snd) =
      some (resp, rx))
    (hstep : (sys.xbar.net inflight).step s.net (.take (.master idx) {}) = some net)
    (hnet : Concurrent sys inflight flat net) :
    ∃ done cur p', Going sys flat (progs idx) idx ({ s with net }.answered idx x next resp)
      done cur p' := by
  obtain ⟨done, cur, p', hgoing⟩ := h.going idx
  obtain ⟨src, ans, rest, hqueue⟩ := Stations.exists_of_take hstep
  obtain ⟨rfl, rfl, hasks⟩ := MasterStage.At.of_waiting (hstage ▸ hgoing.stage)
  obtain ⟨pkt', hcur, hone, huid, hanswered⟩ :=
    hgoing.one.recv hpart h.concurrent hnet hqueue hstep
  obtain rfl : pkt = pkt' := (List.cons.inj hcur).1
  have hsid : ans.sid = none :=
    h.untagged.queue _ (src, ans) (by rw [hqueue]; exact List.mem_cons_self)
  obtain rfl : resp = SlavePort.waitPktEp.accept ans := by
    rw [SlavePort.waitPktEp_head hqueue huid] at hwait
    exact (Prod.mk.inj (Option.some.inj hwait)).1.symm
  have hserves : XBar.serves net.log = XBar.serves s.net.log := by
    cases Stations.step_iff.mp hstep with
    | take q t src m rest outs shared hand queue work => simp [XBar.serves]
  have hanswered' : AnsweredAs sys idx flat s.net.log done pkt ans := by
    cases hanswered with
    | refused err route mode => exact .refused err route mode
    | served dst pre y post route serves master access order mode data =>
        exact .served dst pre y post route (hserves ▸ serves) master access order mode data
  have hreaches := h.answer hpart hcovered hind hgoing.asked hasks hgoing.reaches hsid hanswered'
  refine ⟨done ++ [pkt], [], _, ?_, hone, ?_, hreaches⟩
  · simp only [answered, Function.update_self]
    exact .running _
  · intro pkt' hpkt
    rcases List.mem_append.mp hpkt with hdone | hlast
    · exact hgoing.asked pkt' hdone
    · rw [List.mem_singleton.mp hlast, hasks.accessOf]
      exact hasks

theorem Undisturbed.recv (h : Undisturbed sys inflight flat progs s) (hpart : sys.Partitioned)
    (hcovered : ∀ e ∈ sys.ranges, e.1 + e.2.1 ≤ flat.length)
    (hind : Independent sys flat progs) {x : Access UInt8} {pkt : Packet MemBus}
    {next : Except PortFailure (List UInt8) → PortProgram β} {net : sys.xbar.NetState}
    {resp : Except PortFailure (Packet MemBus)} {rx : List (Packet MemBus)}
    (hstage : s.masters idx = .waiting x pkt next)
    (hwait : SlavePort.waitPktEp (some pkt.uid) ((s.net.queue (.master idx)).map Prod.snd) =
      some (resp, rx))
    (hstep : (sys.xbar.net inflight).step s.net (.take (.master idx) {}) = some net) :
    Undisturbed sys inflight flat progs ({ s with net }.answered idx x next resp) := by
  have hinner : (Stations.Act.take (.master idx) {} : sys.xbar.NetAct).Inner :=
    Stations.Act.inner_take _ _
  have hnet := h.concurrent.step hpart hcovered hinner.brings hstep
  refine ⟨hnet, h.untagged.step (XBar.keeps_untagged inflight) hinner.brings hstep, h.fits,
    fun i => ?_⟩
  by_cases hi : i = idx
  · subst hi
    exact h.going_answered hpart hcovered hind hstage hwait hstep hnet
  · obtain ⟨done, cur, p', hgoing⟩ := h.going i
    refine ⟨done, cur, p', hgoing.other hpart h.concurrent hnet hstep (by intro req heq; cases heq)
      ?_ (Function.update_of_ne hi _ _)⟩
    intro t heq
    cases heq
    exact hi rfl

theorem Undisturbed.work (h : Undisturbed sys inflight flat progs s) (hpart : sys.Partitioned)
    (hcovered : ∀ e ∈ sys.ranges, e.1 + e.2.1 ≤ flat.length) {b : sys.xbar.NetAct}
    {net : sys.xbar.NetState} (hlayer : XBar.ofLayer b = true)
    (hstep : (sys.xbar.net inflight).step s.net b = some net) :
    Undisturbed sys inflight flat progs { s with net } := by
  have hinner := XBar.inner_of_layer hlayer
  have hnet := h.concurrent.step hpart hcovered hinner.brings hstep
  refine ⟨hnet, h.untagged.step (XBar.keeps_untagged inflight) hinner.brings hstep, h.fits,
    fun i => ?_⟩
  obtain ⟨done, cur, p', hgoing⟩ := h.going i
  refine ⟨done, cur, p', hgoing.other hpart h.concurrent hnet hstep (hinner _) ?_ rfl⟩
  rintro t rfl
  cases hlayer

/-- **Every step keeps it.** -/
theorem Undisturbed.step (h : Undisturbed sys inflight flat progs s) (hpart : sys.Partitioned)
    (hcovered : ∀ e ∈ sys.ranges, e.1 + e.2.1 ≤ flat.length)
    (hind : Independent sys flat progs) (hstep : s.step inflight uids a = some s') :
    Undisturbed sys inflight flat progs s' := by
  cases moved_of_step hstep with
  | issue idx now uid x next pkt net hstage hsid hpayload hnet =>
      exact h.issue hpart hcovered hstage hsid hpayload hnet
  | recv idx x pkt next net resp rx hstage hwait hnet =>
      exact h.recv hpart hcovered hind hstage hwait hnet
  | work b net hlayer hnet => exact h.work hpart hcovered hlayer hnet

theorem Undisturbed.run (h : Undisturbed sys inflight flat progs s) (hpart : sys.Partitioned)
    (hcovered : ∀ e ∈ sys.ranges, e.1 + e.2.1 ≤ flat.length)
    (hind : Independent sys flat progs) {acts : List (ProgramAct sys.xbar)}
    (hrun : Runs.run (ProgramNet.step inflight uids) s acts = some s') :
    Undisturbed sys inflight flat progs s' :=
  Runs.run_inv (I := Undisturbed sys inflight flat progs)
    (fun _ _ _ h hstep => h.step hpart hcovered hind hstep) h hrun

/-! ### Until all programs are done -/

/-- How many accesses a master has still to ask for, when it comes as far as alone. -/
def unasked (sys : MemSystem) (flat : List UInt8) (progs : Fin sys.xbar.inboundLen → PortProgram β)
    (s : ProgramNet sys.xbar β) (idx : Fin sys.xbar.inboundLen) : Nat :=
  ((progs idx).run sys.allow flat).1.length - (XBar.requests idx s.net.log).length

/-- What is left to do: an access not asked for is worth more than its packet on the way. -/
def left (sys : MemSystem) (flat : List UInt8) (progs : Fin sys.xbar.inboundLen → PortProgram β)
    (s : ProgramNet sys.xbar β) : Nat :=
  Stations.load MemSystem.weight s.net + 9 * ∑ idx, unasked sys flat progs s idx

/-- The masters, the layers or the memories can go on, and come closer to the end. -/
def GoesOn (sys : MemSystem) (inflight : sys.xbar.Station → Nat)
    (uids : Fin sys.xbar.inboundLen → Nat) (flat : List UInt8)
    (progs : Fin sys.xbar.inboundLen → PortProgram β) (s : ProgramNet sys.xbar β) : Prop :=
  ∃ a s', s.step inflight uids a = some s' ∧ left sys flat progs s' < left sys flat progs s

/-- All programs are done. -/
def Finished (s : ProgramNet sys.xbar β) : Prop := ∀ idx, ∃ b, s.masters idx = .running (.done b)

/-- Steps of the processes bring it closer. -/
theorem left_lt (hpart : sys.Partitioned) (hs : Concurrent sys inflight flat s.net)
    (hs' : Concurrent sys inflight flat s'.net) {b : sys.xbar.NetAct} (hb : b.Inner)
    (hstep : (sys.xbar.net inflight).step s.net b = some s'.net) :
    left sys flat progs s' < left sys flat progs s := by
  have hlt := Stations.load_lt (descends hpart) hs.regular.sound hb hstep
  have hsame : ∀ idx, unasked sys flat progs s' idx = unasked sys flat progs s idx := by
    intro idx
    rw [unasked, unasked, requests_of_inner hb hs hs' hstep]
  simp only [left, hsame]
  omega

/-- Something is on its way: it can move, and an answer at a port can be received. -/
theorem Undisturbed.exists_inner (h : Undisturbed sys inflight flat progs s)
    (hpart : sys.Partitioned)
    (hcovered : ∀ e ∈ sys.ranges, e.1 + e.2.1 ≤ flat.length) (hroom : ∀ q, 0 < inflight q)
    (hbusy : ¬ s.net.Quiet) : GoesOn sys inflight uids flat progs s := by
  obtain ⟨b, net, hinner, hb⟩ : ∃ b net, b.Inner ∧
      (sys.xbar.net inflight).step s.net b = some net :=
    Stations.exists_step (descends hpart) hroom h.concurrent.regular hbusy
  have hnet := h.concurrent.step hpart hcovered hinner.brings hb
  by_cases hlayer : XBar.ofLayer b = true
  · have hstep : s.step inflight uids (.work b) = some { s with net } := by
      simp only [ProgramNet.step, if_pos hlayer, hb, Option.map_some]
    exact ⟨.work b, _, hstep, left_lt hpart h.concurrent hnet hinner hb⟩
  · obtain ⟨idx, t, rfl⟩ := XBar.exists_take_of_inner hinner hlayer
    obtain ⟨src, ans, rest, hqueue, net', hb'⟩ := XBar.exists_take hb
    have hinner' : (Stations.Act.take (.master idx) {} : sys.xbar.NetAct).Inner :=
      Stations.Act.inner_take _ _
    have hnet' := h.concurrent.step hpart hcovered hinner'.brings hb'
    obtain ⟨done, cur, p', hgoing⟩ := h.going idx
    obtain ⟨pkt, rfl, -, huid, -⟩ := hgoing.one.recv hpart h.concurrent hnet' hqueue hb'
    obtain ⟨x, next, hstage⟩ : ∃ x next, s.masters idx = .waiting x pkt next := by
      have hat := hgoing.stage
      generalize s.masters idx = stage at hat
      cases hat with
      | waiting x pkt next asks => exact ⟨x, next, rfl⟩
    have hwait : (SlavePort.waitPktEp (some pkt.uid) ((s.net.queue (.master idx)).map Prod.snd) :
        Option (Except PortFailure _ × _)) =
          some (SlavePort.waitPktEp.accept ans, rest.map Prod.snd) :=
      SlavePort.waitPktEp_head hqueue huid
    have hstep : s.step inflight uids (.recv idx) = some
        ({ s with net := net' }.answered idx x next (SlavePort.waitPktEp.accept ans)) := by
      simp only [ProgramNet.step, hstage, hwait, hb', Option.map_some]
    exact ⟨.recv idx, _, hstep, left_lt hpart h.concurrent hnet' hinner' hb'⟩

/-- A program that issues an access has one less to ask for. -/
theorem unasked_issue {pkt : Packet MemBus} {net : sys.xbar.NetState} {stage : MasterStage β}
    (hnet : (sys.xbar.net inflight).step s.net (.arrive (.inbound idx) pkt) = some net) :
    unasked sys flat progs ⟨net, Function.update s.masters idx stage⟩ =
      Function.update (unasked sys flat progs s) idx (unasked sys flat progs s idx - 1) := by
  funext i
  by_cases hi : i = idx
  · subst hi
    rw [Function.update_self, unasked, unasked, requests_of_send hnet, if_pos rfl,
      List.length_append, List.length_singleton]
    omega
  · rw [Function.update_of_ne hi, unasked, unasked, requests_of_send hnet,
      if_neg (Ne.symm hi), List.append_nil]

/-- A program that has come to an access still has to ask for one. -/
theorem Undisturbed.unasked_pos (h : Undisturbed sys inflight flat progs s) {x : Access UInt8}
    {next : Except PortFailure (List UInt8) → PortProgram β}
    (hstage : s.masters idx = .running (.access x next)) : 0 < unasked sys flat progs s idx := by
  obtain ⟨done, cur, p', hgoing⟩ := h.going idx
  obtain ⟨rfl, rfl⟩ := MasterStage.At.of_running (hstage ▸ hgoing.stage)
  -- It asks for one more of what it asks for alone.
  have hlen := hgoing.reaches.isPrefix.length_le
  have hreqs := hgoing.one.requests
  rw [List.append_nil] at hreqs
  rw [List.length_append, List.length_map, List.length_singleton, ← hreqs] at hlen
  rw [unasked]
  omega

/-- With room at its port, it issues the access. -/
theorem Undisturbed.exists_issue (h : Undisturbed sys inflight flat progs s) {x : Access UInt8}
    {next : Except PortFailure (List UInt8) → PortProgram β}
    (hstage : s.masters idx = .running (.access x next))
    (hroom : (s.net.queue (.inbound idx)).length < inflight (.inbound idx)) :
    GoesOn sys inflight uids flat progs s := by
  let pkt : Packet MemBus := { uid := 0, payload := .ofAccess 0 (uids idx) x }
  obtain ⟨net, hnet⟩ : ∃ net,
      (sys.xbar.net inflight).step s.net (.arrive (.inbound idx) pkt) = some net :=
    ⟨_, Stations.step_iff.mpr (.arrive _ pkt hroom)⟩
  have hstep : s.step inflight uids (.issue idx 0 0) =
      some ⟨net, Function.update s.masters idx (.waiting x pkt next)⟩ := by
    simp only [ProgramNet.step, hstage, txCheck_ofAccess, pkt, hnet, Option.map_some]
  have hsum := Stations.sum_update (unasked sys flat progs s) idx
    (unasked sys flat progs s idx - 1)
  have hload : Stations.load MemSystem.weight net = _ := Stations.load_arrive hnet
  have hpos := h.unasked_pos hstage
  refine ⟨.issue idx 0 0, _, hstep, ?_⟩
  simp only [left, unasked_issue hnet, hload, MemSystem.weight]
  omega

/-- As long as a program is not done, some step brings it closer. -/
theorem Undisturbed.goesOn (h : Undisturbed sys inflight flat progs s) (hpart : sys.Partitioned)
    (hcovered : ∀ e ∈ sys.ranges, e.1 + e.2.1 ≤ flat.length) (hroom : ∀ q, 0 < inflight q)
    (hbusy : ¬ Finished s) : GoesOn sys inflight uids flat progs s := by
  obtain ⟨idx, hidx⟩ := not_forall.mp hbusy
  obtain ⟨done, cur, p', hgoing⟩ := h.going idx
  cases hstage : s.masters idx with
  | waiting x pkt next =>
      refine h.exists_inner hpart hcovered hroom fun hquiet => ?_
      have hnil := hgoing.one.cur_eq_nil hpart (h.concurrent.linearized hpart) hquiet ?_
      · have hat := hgoing.stage
        rw [hstage, hnil] at hat
        cases hat
      · intro pkt hpkt
        obtain ⟨addr, len, hreq, -⟩ := (hgoing.stage.asked pkt hpkt).request sys
        exact ⟨addr, len, hreq⟩
  | running p =>
      cases p with
      | done b => exact absurd ⟨b, hstage⟩ hidx
      | access x next =>
          by_cases hfull : (s.net.queue (.inbound idx)).length < inflight (.inbound idx)
          · exact h.exists_issue hstage hfull
          · refine h.exists_inner hpart hcovered hroom fun hquiet => hfull ?_
            rw [(hquiet _).1]
            exact hroom _

/-- A program that is done returns what it returns alone, and its accesses are those it makes
alone. -/
theorem Undisturbed.done (h : Undisturbed sys inflight flat progs s) {b : β}
    (hdone : s.masters idx = .running (.done b)) : b = ((progs idx).run sys.allow flat).2 ∧
      (XBar.servedOf idx s.net.log).map (XBar.Serve.access sys.xbar) =
        alone sys flat (progs idx) := by
  obtain ⟨done, cur, p', hgoing⟩ := h.going idx
  obtain ⟨rfl, rfl⟩ := MasterStage.At.of_running (hdone ▸ hgoing.stage)
  have hrun := hgoing.reaches.run_of_done
  have horder : (XBar.servedOf idx s.net.log).map (XBar.Serve.place sys.xbar) =
      done.flatMap sys.xbar.placeOf := by simpa using hgoing.one.order
  refine ⟨by rw [hrun], ?_⟩
  rw [alone, hrun, ← hgoing.asked.map_placeOf sys, ← horder, List.map_map]
  rfl

/-- A byte that only one program writes holds what that program leaves there alone. -/
theorem Undisturbed.memory (h : Undisturbed sys inflight flat progs s) (hpart : sys.Partitioned)
    (hcovered : ∀ e ∈ sys.ranges, e.1 + e.2.1 ≤ flat.length) {out : β}
    (hdone : s.masters idx = .running (.done out)) {b : Nat}
    (hown : ∀ j, j ≠ idx → ∀ y ∈ alone sys flat (progs j), y.writesAt b = none)
    {e : Nat × (Nat × Nat)} (he : e ∈ sys.ranges) (hlo : e.1 ≤ b) (hhi : b < e.1 + e.2.1) :
    (s.net.shared e.2.2).memory[b - e.1]? =
      (Program.memoryAfter sys.allow flat ((progs idx).run sys.allow flat).1)[b]? := by
  obtain ⟨-, hmade⟩ := h.done hdone
  have hlin := h.concurrent.linearized hpart
  rw [hlin.memories e he, Window.getElem?_read, if_pos (by omega), Nat.add_sub_cancel' hlo,
    XBar.memoryAfter, Program.memoryAfter]
  have hpart' : Program.granted sys.allow ((progs idx).run sys.allow flat).1 =
      (XBar.servedOf idx s.net.log).map (XBar.Serve.access sys.xbar) := hmade.symm
  rw [hpart', XBar.servedOf]
  refine (Access.getElem?_serve_filter (fun y hy => (h.served hpart hcovered hy).1) ?_).symm
  intro y hy hne
  obtain ⟨-, j, hj, hy'⟩ := h.served hpart hcovered hy
  refine hown j ?_ _ hy'
  rintro rfl
  simp [hj] at hne

/-- **Programs that do not interfere run as if each were alone.**  If alone on the flat memory each
program stays in the address space and none writes what another reads, then however the masters, the
layers and the memories interleave, every program that is done has returned what it returns alone;
all programs can always be brought to their end, and a byte that one of them alone writes then holds
what it leaves there alone. -/
theorem programs_run_alone (sys : MemSystem) (inflight : sys.xbar.Station → Nat)
    (uids : Fin sys.xbar.inboundLen → Nat) (flat : MemoryChecker) (hsim : sys.Simulates flat)
    (progs : Fin sys.xbar.inboundLen → PortProgram β)
    (hfits : ∀ idx, StaysInSpace sys flat.memory (progs idx))
    (hind : Independent sys flat.memory progs)
    (acts : List (ProgramAct sys.xbar)) (s : ProgramNet sys.xbar β)
    (hrun : Runs.run (step inflight uids) (ProgramNet.init sys.rams progs) acts = some s) :
    (∀ idx b, s.masters idx = .running (.done b) →
        b = ((progs idx).run sys.allow flat.memory).2) ∧
      ((∀ q, 0 < inflight q) → ∃ acts' s', Runs.run (step inflight uids) s acts' = some s' ∧
        ∀ idx, s'.masters idx = .running (.done ((progs idx).run sys.allow flat.memory).2) ∧
          ∀ e ∈ sys.ranges, ∀ b, e.1 ≤ b → b < e.1 + e.2.1 →
            (∀ j, j ≠ idx → ∀ y ∈ alone sys flat.memory (progs j), y.writesAt b = none) →
            (s'.net.shared e.2.2).memory[b - e.1]? = (Program.memoryAfter sys.allow flat.memory
              ((progs idx).run sys.allow flat.memory).1)[b]?) := by
  have hpart := hsim.partitioned
  have hcovered := hsim.covered
  have hinit : Undisturbed sys inflight flat.memory progs (ProgramNet.init sys.rams progs) :=
    Undisturbed.init hsim hfits
  have hs := hinit.run hpart hcovered hind hrun
  refine ⟨fun idx b hdone => (hs.done hdone).1, fun hroom => ?_⟩
  have hcloser : ∀ t, Undisturbed sys inflight flat.memory progs t → ¬ Finished t →
      ∃ a t', step inflight uids t a = some t' ∧ Undisturbed sys inflight flat.memory progs t' ∧
        left sys flat.memory progs t' < left sys flat.memory progs t := by
    intro t ht hbusy
    obtain ⟨a, t', hstep, hlt⟩ := ht.goesOn hpart hcovered hroom hbusy
    exact ⟨a, t', hstep, ht.step hpart hcovered hind hstep, hlt⟩
  obtain ⟨acts', s', hrun', hs', hfinished⟩ := Runs.exists_run_of_closer _ hcloser hs
  refine ⟨acts', s', hrun', fun idx => ?_⟩
  obtain ⟨b, hdone⟩ := hfinished idx
  refine ⟨by rw [hdone, (hs'.done hdone).1], ?_⟩
  intro e he b hlo hhi hown
  exact hs'.memory hpart hcovered hdone hown he hlo hhi

end ProgramNet

/-! ### Plain data -/

namespace ReqRespPort

variable {T : Type} {sys : MemSystem} {pod : Pod T} {addr : Nat} {m : List UInt8}

theorem run_write (hgrant : sys.grants addr pod.size = .ok ()) (data : T) :
    (write pod addr data).run sys.allow m =
      ([.write addr (pod.toBytes data)], .ok ()) := by
  have hallow : sys.allow (.write addr (pod.toBytes data)) = .ok () := by
    rw [MemSystem.allow, pod.length_toBytes, hgrant]
  rw [write, writeBytes, Program.run_granted hallow]
  rfl

/-- A read of bytes that are there does not panic. -/
theorem run_read (hgrant : sys.grants addr pod.size = .ok ()) (hin : addr + pod.size ≤ m.length) :
    (read pod addr).run sys.allow m =
      ([.read addr pod.size], .ok (.ok (pod.ofBytes (Window.read m addr pod.size)))) := by
  have hlen : ((Access.read addr pod.size).result m).length = pod.size := Window.length_read hin
  rw [read, readBytes, Program.andThen, Program.run_granted hgrant]
  simp only [Program.andThen, if_pos hlen, Program.run_done]
  rfl

/-- **What a program has written it reads back**, when it runs alone. -/
theorem run_read_of_write (hgrant : sys.grants addr pod.size = .ok ())
    (hin : addr + pod.size ≤ m.length) (data : T) :
    ((write pod addr data).andThen fun _ => read pod addr).run sys.allow m =
      ([.write addr (pod.toBytes data), .read addr pod.size], .ok (.ok data)) := by
  have hallow : sys.allow (.write addr (pod.toBytes data)) = .ok () := by
    rw [MemSystem.allow, pod.length_toBytes, hgrant]
  have hbytes : addr + (pod.toBytes data).length ≤ m.length := by
    rw [pod.length_toBytes]
    exact hin
  have hafter : Program.memoryAfter sys.allow m [.write addr (pod.toBytes data)] =
      Window.write m addr (pod.toBytes data) := by
    rw [Program.memoryAfter, Program.granted_granted hallow]
    rfl
  have hback : Window.read (Window.write m addr (pod.toBytes data)) addr pod.size =
      pod.toBytes data := by
    rw [← pod.length_toBytes data]
    exact Window.read_write m hbytes
  have hin' : addr + pod.size ≤ (Window.write m addr (pod.toBytes data)).length := by
    rw [Window.length_write hbytes]
    exact hin
  rw [Program.run_andThen, run_write hgrant]
  simp only [hafter, run_read hgrant hin', hback, pod.ofBytes_toBytes]
  rfl

end ReqRespPort

namespace ProgramNet

open MemSystem

def bytePod : Pod UInt8 where
  size := 1
  toBytes data := [data]
  ofBytes bytes := bytes.headD 0
  length_toBytes _ := rfl
  ofBytes_toBytes _ := rfl

/-- Each of two masters writes a byte of its own and reads it back, one in each memory. -/
def writeBack (idx : Fin twoMasters.xbar.inboundLen) :
    PortProgram (Exec (Except PortFailure UInt8)) :=
  (ReqRespPort.write bytePod (3 + idx) 7).andThen fun _ => ReqRespPort.read bytePod (3 + idx)

theorem run_writeBack (idx : Fin twoMasters.xbar.inboundLen) :
    (writeBack idx).run twoMasters.allow (MemoryChecker.start 0 8).memory =
      ([.write (3 + idx) [7], .read (3 + idx) 1], .ok (.ok 7)) := by
  have hidx : (idx : Nat) < 2 := idx.isLt
  have hgrant : ∀ k : Nat, k < 2 → twoMasters.grants (3 + k) 1 = .ok () := by
    intro k hk
    obtain rfl | rfl : k = 0 ∨ k = 1 := by omega
    · rfl
    · rfl
  refine ReqRespPort.run_read_of_write (hgrant idx hidx) ?_ 7
  show 3 + (idx : Nat) + 1 ≤ 8
  omega

theorem writeBack_independent :
    Independent twoMasters (MemoryChecker.start 0 8).memory writeBack := by
  intro i j hij x hx y hy b hb
  have hx' := (Program.mem_granted.mp hx).1
  have hy' := (Program.mem_granted.mp hy).1
  rw [run_writeBack] at hx' hy'
  simp only [List.mem_cons, List.not_mem_nil, or_false] at hx' hy'
  have hne : (i : Nat) ≠ j := fun heq => hij (Fin.ext heq)
  rcases hx' with rfl | rfl
  · exact hb.elim
  · rcases hy' with rfl | rfl
    · simp only [Access.ReadsAt] at hb
      by_cases hle : 3 + (j : Nat) ≤ b
      · have hout : ([7] : List UInt8)[b - (3 + (j : Nat))]? = none :=
          List.getElem?_eq_none (by simp only [List.length_singleton]; omega)
        rw [Access.writesAt, if_pos hle, hout]
      · rw [Access.writesAt, if_neg hle]
    · rfl

theorem writeBack_staysInSpace (idx : Fin twoMasters.xbar.inboundLen) :
    StaysInSpace twoMasters (MemoryChecker.start 0 8).memory (writeBack idx) := by
  have hidx : (idx : Nat) < 2 := idx.isLt
  have hend : 3 + (idx : Nat) + 1 < 2 ^ 64 := by omega
  intro x hx
  rw [run_writeBack] at hx
  simp only [List.mem_cons, List.not_mem_nil, or_false] at hx
  rcases hx with rfl | rfl
  · exact hend
  · exact hend

/-- Both have sent their writes. -/
def bothIssue : List (ProgramAct twoMasters.xbar) :=
  [.issue ⟨1, Nat.one_lt_two⟩ 0 0, .issue ⟨0, Nat.zero_lt_two⟩ 0 1]

theorem programs_run_alone_bothIssue : ∃ s,
    Runs.run (step (fun _ => 1) Fin.val) (ProgramNet.init twoMasters.rams writeBack) bothIssue =
      some s ∧ ∃ acts' s', Runs.run (step (fun _ => 1) Fin.val) s acts' = some s' ∧
        ∀ idx, s'.masters idx = .running (.done (.ok (.ok 7))) := by
  obtain ⟨s, hs⟩ : ∃ s, Runs.run (step (fun _ => 1) Fin.val)
      (ProgramNet.init twoMasters.rams writeBack) bothIssue = some s :=
    Option.isSome_iff_exists.mp (by decide)
  obtain ⟨-, hend⟩ := programs_run_alone twoMasters (fun _ => 1) Fin.val _ twoMasters_simulates
    writeBack writeBack_staysInSpace writeBack_independent bothIssue s hs
  obtain ⟨acts', s', hrun, hdone⟩ := hend fun _ => Nat.one_pos
  refine ⟨s, hs, acts', s', hrun, fun idx => ?_⟩
  rw [(hdone idx).1, run_writeBack]

end ProgramNet

end Ra2m
