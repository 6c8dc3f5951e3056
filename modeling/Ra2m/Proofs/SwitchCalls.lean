/-
Calls between the nodes of a switch.

Every node may ask every other, all at once.  What the switch promises is that a node
need not know it is there: node `dst` answers the requests of node `idx` in the order
they were sent, each once, and `idx` gets its answers in that order (`Delivered`).
Between different nodes there is no order, and none is needed: each node is what its
service makes of the requests it answered, in the order it answered them.

What a packet can be at each station (`Kind`) is the whole argument: a message keeps what
it says on its way, and its sender is registered where it came from, so the answer finds
its way back by the same table.
-/
import Ra2m.Cpn.SwitchNet

namespace Ra2m

namespace SwitchNet

open Stations (UpTo)
open Packet (said)

variable {σ T P : Type} [DecidableEq T]

/-- Whatever is registered is registered on an interface of the switch. -/
def Wired (self : SwitchNet σ T P) : Prop :=
  ∀ node port, self.switch.getPort node = .ok port → port < self.ports

/-- The nodes do what they are for: they answer every request, to the node it is from. -/
def Implements (self : SwitchNet σ T P) (serve : Service σ T P) : Prop :=
  ∀ t (idx : Fin self.ports) node (req : Network T P), req.mode = .request →
    ∃ delay resp, self.forge t idx node req = .ok (delay, resp, (serve idx node req).2) ∧
      resp.mode = .response ∧ resp.fromNode = req.fromNode ∧ resp.toNode = req.toNode ∧
      resp.payload = (serve idx node req).1

/-- A request of the node on interface `idx`. -/
def Asks (self : SwitchNet σ T P) (idx : Fin self.ports) (pkt : Packet (Network T P)) : Prop :=
  pkt.payload.mode = .request ∧ self.switch.getPort pkt.payload.fromNode = .ok (idx : Nat)

/-- What a node sees of an answer, if it is for it. -/
def answerFor (self : SwitchNet σ T P) (idx : Nat) (resp : Packet (Network T P)) :
    List (Nat × Mode NetworkError × T × T × P) :=
  if self.switch.getPort resp.payload.fromNode = .ok idx then [said resp] else []

/-- Each node answers the requests of each other node in order and once, from what the requests
before left it with, and the answers come back in order and once; a request for a node that is not
registered comes back with the error of the table. -/
structure Delivered (sw : SwitchNet σ T P) (serve : Service σ T P) (nodes : Nat → σ)
    (s : sw.NetState) : Prop where
  requests : ∀ idx dst, UpTo s.Quiet ((callsOf idx dst s.log).map fun x => said x.req)
    ((requests idx s.log).flatMap (sw.askFor dst))
  answered : ∀ pre x post, calls s.log = pre ++ x :: post → said x.ans =
    (x.req.uid, .response, x.req.payload.fromNode, x.req.payload.toNode,
      (serve x.dst (nodesAfter serve nodes pre x.dst) x.req.payload).1)
  nodes : s.shared = nodesAfter serve nodes (calls s.log)
  answers : ∀ idx dst, UpTo s.Quiet ((answers idx dst s.log).map said)
    ((callsOf idx dst s.log).map fun x => said x.ans)
  refusals : ∀ idx, UpTo s.Quiet
    ((refusals idx s.log).map fun ans => (ans.uid, ans.payload.mode))
    ((SwitchNet.requests idx s.log).flatMap sw.refusalOf)
  received : ∀ idx, ∀ e ∈ Stations.taken (.master idx) s.log,
    e.1 = some (.ingress idx) ∨ ∃ dst, e.1 = some (.egress dst)

variable {self : SwitchNet σ T P} {serve : Service σ T P}

/-- Registering a node on an interface there is keeps the table so. -/
theorem Wired.registerPort (h : self.Wired) {switch : Switch T} {node : T} {port : Nat}
    (hport : port < self.ports) (hreg : self.switch.registerPort node port = .ok switch) :
    Wired { self with switch } := by
  intro node' port' hget
  rw [Switch.getPort_registerPort hreg] at hget
  split at hget
  · obtain rfl := Except.ok.inj hget
    exact hport
  · exact h node' port' hget

/-! ### What each process makes of its packet -/

/-- A forward layer sends a request to the node it is for, and back if there is none. -/
theorem turn_ingress (hwired : self.Wired) (idx : Fin self.ports) (t : Timing) (nodes : Nat → σ)
    (pkt : Packet (Network T P)) :
    (∃ (dst : Fin self.ports) (fwd : Packet (Network T P)),
      self.switch.getPort pkt.payload.toNode = .ok (dst : Nat) ∧ said fwd = said pkt ∧
        self.turn (.ingress idx) t nodes pkt = some ([(.slave dst, fwd)], nodes)) ∨
    ∃ (err : NetworkError) (ans : Packet (Network T P)),
      self.switch.getPort pkt.payload.toNode = .error err ∧ ans.uid = pkt.uid ∧
        ans.payload.mode = .error err ∧
        self.turn (.ingress idx) t nodes pkt = some ([(.master idx, ans)], nodes) := by
  cases hreg : self.switch.getPort pkt.payload.toNode with
  | ok port =>
      have hport : port < self.ports := hwired _ _ hreg
      obtain ⟨fwd, hfwd, hsaid⟩ : ∃ fwd,
          self.switch.forwardLayer t idx pkt = .egress port fwd ∧ said fwd = said pkt := by
        unfold Switch.forwardLayer
        rw [hreg]
        exact ⟨_, rfl, rfl⟩
      refine Or.inl ⟨⟨port, hport⟩, fwd, rfl, hsaid, ?_⟩
      simp only [turn, hfwd, leave, dif_pos hport, Option.map_some]
  | error err =>
      obtain ⟨ans, hans, huid, hmode⟩ : ∃ ans,
          self.switch.forwardLayer t idx pkt = .ingress idx ans ∧ ans.uid = pkt.uid ∧
            ans.payload.mode = .error err := by
        unfold Switch.forwardLayer
        rw [hreg]
        exact ⟨_, rfl, rfl, rfl⟩
      refine Or.inr ⟨err, ans, rfl, huid, hmode, ?_⟩
      simp only [turn, hans, leave, dif_pos idx.isLt, Option.map_some]

/-- A backward layer sends an answer to the node that asked. -/
theorem turn_egress (dst idx : Fin self.ports) (t : Timing) (nodes : Nat → σ)
    {resp : Packet (Network T P)}
    (hreg : self.switch.getPort resp.payload.fromNode = .ok (idx : Nat)) :
    ∃ ans, self.turn (.egress dst) t nodes resp = some ([(.master idx, ans)], nodes) ∧
      said ans = said resp := by
  obtain ⟨ans, hans, hsaid⟩ : ∃ ans,
      self.switch.backwardLayer t dst resp = .ingress idx ans ∧ said ans = said resp := by
    unfold Switch.backwardLayer
    rw [hreg]
    exact ⟨_, rfl, rfl⟩
  refine ⟨ans, ?_, hsaid⟩
  simp only [turn, hans, leave, dif_pos idx.isLt, Option.map_some]

/-- A node answers a request in one step. -/
theorem turn_slave (himp : self.Implements serve) (dst : Fin self.ports) (t : Timing)
    (nodes : Nat → σ) {req : Packet (Network T P)} (hmode : req.payload.mode = .request) :
    ∃ resp, self.turn (.slave dst) t nodes req = some ([(.egress dst, resp)],
        Function.update nodes dst (serve dst (nodes dst) req.payload).2) ∧
      said resp = (req.uid, .response, req.payload.fromNode, req.payload.toNode,
        (serve dst (nodes dst) req.payload).1) := by
  obtain ⟨delay, resp, hforge, hresp, hfrom, hto, hpay⟩ := himp t dst (nodes dst) req.payload hmode
  have htx : TxStatus.txCheck req.payload = (.ok () : Except NetworkError Unit) := by
    unfold TxStatus.txCheck Network.instTxStatusNetworkError
    simp [hmode]
  have hrx : RxStatus.rxCheck resp = (.ok () : Except NetworkError Unit) :=
    Network.rxCheck_eq_ok_iff.mpr hresp
  have hfinish : ∀ ans : Packet (Network T P), ans.uid = req.uid → ans.payload = resp →
      said ans = (req.uid, .response, req.payload.fromNode, req.payload.toNode,
        (serve dst (nodes dst) req.payload).1) := by
    intro ans huid hpayload
    simp only [Packet.said, huid, hpayload, hresp, hfrom, hto, hpay]
  cases delay with
  | none =>
      refine ⟨req.setPayload resp, ?_, hfinish _ rfl rfl⟩
      simp only [turn, forgeResp, htx, hforge, bind, Except.bind, hrx]
      rfl
  | some dly =>
      refine ⟨(req.setPayload resp).appendDelay dly, ?_, hfinish _ rfl rfl⟩
      simp only [turn, forgeResp, htx, hforge, bind, Except.bind, hrx]
      rfl

/-! ### The packets on their way -/

/-- What holds of a packet, by where it is and who put it there. -/
def Kind (self : SwitchNet σ T P) : self.Station → Option self.Station → Packet (Network T P) → Prop
  | .ingress idx, none, pkt => self.Asks idx pkt
  | .slave _, some (.ingress idx), pkt => self.Asks idx pkt
  | .egress dst, some (.slave dst'), pkt =>
      dst' = dst ∧ ∃ idx : Fin self.ports,
        self.switch.getPort pkt.payload.fromNode = .ok (idx : Nat)
  | .master _, some (.egress _), _ => True
  | .master idx, some (.ingress idx'), _ => idx' = idx
  | _, _, _ => False

/-- What a turn makes of a packet, and of the nodes. -/
inductive Turned (self : SwitchNet σ T P) (serve : Service σ T P) (nodes : Nat → σ) :
    self.Station → Option self.Station → Packet (Network T P) →
      List (self.Station × Packet (Network T P)) → (Nat → σ) → Prop where
  | forward (idx dst : Fin self.ports) (pkt fwd : Packet (Network T P)) (asks : self.Asks idx pkt)
      (reg : self.switch.getPort pkt.payload.toNode = .ok (dst : Nat))
      (same : said fwd = said pkt) :
      Turned self serve nodes (.ingress idx) none pkt [(.slave dst, fwd)] nodes
  | refuse (idx : Fin self.ports) (pkt ans : Packet (Network T P)) (err : NetworkError)
      (reg : self.switch.getPort pkt.payload.toNode = .error err) (uid : ans.uid = pkt.uid)
      (mode : ans.payload.mode = .error err) :
      Turned self serve nodes (.ingress idx) none pkt [(.master idx, ans)] nodes
  | answer (idx dst : Fin self.ports) (req resp : Packet (Network T P))
      (reg : self.switch.getPort resp.payload.fromNode = .ok (idx : Nat))
      (told : said resp = (req.uid, .response, req.payload.fromNode, req.payload.toNode,
        (serve dst (nodes dst) req.payload).1)) :
      Turned self serve nodes (.slave dst) (some (.ingress idx)) req [(.egress dst, resp)]
        (Function.update nodes dst (serve dst (nodes dst) req.payload).2)
  | deliver (idx dst : Fin self.ports) (resp ans : Packet (Network T P))
      (reg : self.switch.getPort resp.payload.fromNode = .ok (idx : Nat))
      (same : said ans = said resp) :
      Turned self serve nodes (.egress dst) (some (.slave dst)) resp [(.master idx, ans)] nodes
  | receive (idx : Fin self.ports) (src : Option self.Station) (ans : Packet (Network T P))
      (sent : src = some (.ingress idx) ∨ ∃ dst, src = some (.egress dst)) :
      Turned self serve nodes (.master idx) src ans [] nodes

/-- No process panics on a packet of its kind. -/
theorem turn_turned (hwired : self.Wired) (himp : self.Implements serve) (nodes : Nat → σ)
    {q : self.Station} {src : Option self.Station} {pkt : Packet (Network T P)}
    (hk : self.Kind q src pkt) (t : Timing) :
    ∃ outs nodes', self.turn q t nodes pkt = some (outs, nodes') ∧
      Turned self serve nodes q src pkt outs nodes' := by
  cases q with
  | ingress idx =>
      cases src with
      | some src => exact hk.elim
      | none =>
          rcases turn_ingress hwired idx t nodes pkt with
            ⟨dst, fwd, hreg, hsame, hturn⟩ | ⟨err, ans, hreg, huid, hmode, hturn⟩
          · exact ⟨_, _, hturn, .forward idx dst pkt fwd hk hreg hsame⟩
          · exact ⟨_, _, hturn, .refuse idx pkt ans err hreg huid hmode⟩
  | slave dst =>
      rcases src with - | src
      · exact hk.elim
      · cases src with
        | egress i => exact hk.elim
        | slave i => exact hk.elim
        | master i => exact hk.elim
        | ingress idx =>
            obtain ⟨hmode, hreg⟩ := hk
            obtain ⟨resp, hturn, hsays⟩ := turn_slave himp dst t nodes hmode
            have hfrom : resp.payload.fromNode = pkt.payload.fromNode :=
              congrArg (fun x => x.2.2.1) hsays
            exact ⟨_, _, hturn, .answer idx dst pkt resp (hfrom ▸ hreg) hsays⟩
  | egress dst =>
      rcases src with - | src
      · exact hk.elim
      · cases src with
        | ingress i => exact hk.elim
        | egress i => exact hk.elim
        | master i => exact hk.elim
        | slave dst' =>
            obtain ⟨rfl, idx, hreg⟩ := hk
            obtain ⟨ans, hturn, hsame⟩ := turn_egress dst' idx t nodes hreg
            exact ⟨_, _, hturn, .deliver idx dst' pkt ans hreg hsame⟩
  | master idx =>
      rcases src with - | src
      · exact hk.elim
      · cases src with
        | slave i => exact hk.elim
        | master i => exact hk.elim
        | egress dst => exact ⟨_, _, rfl, .receive idx _ pkt (Or.inr ⟨dst, rfl⟩)⟩
        | ingress idx' =>
            obtain rfl : idx' = idx := hk
            exact ⟨_, _, rfl, .receive idx' _ pkt (Or.inl rfl)⟩

variable {inflight : self.Station → Nat}

/-- What a process makes of a packet of its kind is what its turn makes. -/
theorem turned_of_turn (hwired : self.Wired) (himp : self.Implements serve) {nodes nodes' : Nat → σ}
    {q : self.Station} {src : Option self.Station} {pkt : Packet (Network T P)}
    (hk : self.Kind q src pkt) {t : Timing} {outs : List (self.Station × Packet (Network T P))}
    (hturn : self.turn q t nodes pkt = some (outs, nodes')) :
    Turned self serve nodes q src pkt outs nodes' := by
  obtain ⟨outs₁, nodes₁, hturn₁, hturned⟩ := turn_turned hwired himp nodes hk t
  rw [hturn, Option.some.injEq, Prod.mk.injEq] at hturn₁
  obtain ⟨rfl, rfl⟩ := hturn₁
  exact hturned

/-- A message that says the same is asked by the same node. -/
theorem Asks.of_said {idx : Fin self.ports} {pkt fwd : Packet (Network T P)} (h : self.Asks idx pkt)
    (hsame : said fwd = said pkt) : self.Asks idx fwd := by
  have hmode : fwd.payload.mode = pkt.payload.mode := congrArg (fun x => x.2.1) hsame
  have hfrom : fwd.payload.fromNode = pkt.payload.fromNode := congrArg (fun x => x.2.2.1) hsame
  exact ⟨hmode.trans h.1, hfrom ▸ h.2⟩

theorem keeps (hwired : self.Wired) (himp : self.Implements serve) :
    Stations.Keeps (self.net inflight) self.Kind fun _ => True := by
  refine ⟨fun q t nodes src pkt outs nodes' hk _ hturn => ⟨trivial, ?_⟩⟩
  cases turned_of_turn hwired himp hk hturn with
  | forward idx dst pkt fwd asks reg same => exact List.forall_mem_singleton.mpr (asks.of_said same)
  | refuse idx pkt ans err reg uid mode => exact List.forall_mem_singleton.mpr rfl
  | answer idx dst req resp reg told => exact List.forall_mem_singleton.mpr ⟨rfl, idx, reg⟩
  | deliver idx dst resp ans reg same => exact List.forall_mem_singleton.mpr trivial
  | receive idx src ans => exact List.forall_mem_nil _

/-- How many steps a packet is from the node that gets it last, at most. -/
def weight : self.Station → Nat
  | .ingress _ => 7
  | .slave _ => 5
  | .egress _ => 3
  | .master _ => 1

theorem descends (hwired : self.Wired) (himp : self.Implements serve) :
    Stations.Descends (self.net inflight) self.Kind (fun _ => True) weight where
  works q nodes src pkt hk _ := by
    obtain ⟨outs, nodes', hturn, -⟩ := turn_turned hwired himp nodes hk {}
    exact ⟨{}, _, hturn⟩
  lighter q t nodes src pkt outs nodes' hk _ hturn := by
    cases turned_of_turn hwired himp hk hturn <;> simp [weight]

/-! ### In order and once -/

/-- Every entry of the log is a turn of a process. -/
def Turns (self : SwitchNet σ T P) (serve : Service σ T P) (log : self.NetLog) : Prop :=
  ∀ q src pkt outs, .worked q src pkt outs ∈ log →
    ∃ nodes nodes', Turned self serve nodes q src pkt outs nodes'

theorem Turns.of_sound (hwired : self.Wired) (himp : self.Implements serve) {s : self.NetState}
    (hs : Stations.Sound (self.net inflight) self.Kind (fun _ => True) s) :
    Turns self serve s.log := by
  intro q src pkt outs hmem
  obtain ⟨hk, t, nodes, nodes', -, hturn⟩ := hs.worked q src pkt outs hmem
  exact ⟨nodes, nodes', turned_of_turn hwired himp hk hturn⟩

theorem Turns.tail {e : Stations.Event self.Station (Packet (Network T P))} {log : self.NetLog}
    (h : Turns self serve (e :: log)) : Turns self serve log :=
  fun q src pkt outs hmem => h q src pkt outs (List.mem_cons_of_mem e hmem)

/-- The requests of a node that another answered are those it took from the forward layer of that
node. -/
theorem map_req_callsOf {log : self.NetLog} (h : Turns self serve log) (idx dst : Fin self.ports) :
    (callsOf idx dst log).map Call.req =
      Stations.bySrc (some (.ingress idx)) (Stations.taken (.slave dst) log) := by
  induction log with
  | nil => rfl
  | cons e rest ih =>
      have hrest := ih h.tail
      cases e with
      | arrived q m => simpa [callsOf, calls, Stations.taken] using hrest
      | passed p q m => simpa [callsOf, calls, Stations.taken] using hrest
      | worked q src m outs =>
          obtain ⟨nodes, nodes', hturned⟩ := h q src m outs List.mem_cons_self
          cases hturned with
          | forward => simpa [callsOf, calls, Stations.taken] using hrest
          | refuse => simpa [callsOf, calls, Stations.taken] using hrest
          | deliver => simpa [callsOf, calls, Stations.taken] using hrest
          | receive => simpa [callsOf, calls, Stations.taken] using hrest
          | answer idx' dst' =>
              by_cases hi : idx' = idx <;> by_cases hd : dst' = dst <;>
                simpa [callsOf, calls, Stations.taken, Stations.bySrc, Fin.val_inj, hi, hd]
                  using hrest

/-- The answers to them are those it made for that node. -/
theorem map_ans_callsOf {log : self.NetLog} (h : Turns self serve log) (idx dst : Fin self.ports) :
    (callsOf idx dst log).map (fun x => said x.ans) =
      (Stations.toDst (.egress dst) (Stations.made (.slave dst) log)).flatMap
        (self.answerFor idx) := by
  induction log with
  | nil => rfl
  | cons e rest ih =>
      have hrest := ih h.tail
      cases e with
      | arrived q m => simpa [callsOf, calls, Stations.made] using hrest
      | passed p q m => simpa [callsOf, calls, Stations.made] using hrest
      | worked q src m outs =>
          obtain ⟨nodes, nodes', hturned⟩ := h q src m outs List.mem_cons_self
          cases hturned with
          | forward => simpa [callsOf, calls, Stations.made] using hrest
          | refuse => simpa [callsOf, calls, Stations.made] using hrest
          | deliver => simpa [callsOf, calls, Stations.made] using hrest
          | receive => simpa [callsOf, calls, Stations.made] using hrest
          | answer idx' dst' req resp reg =>
              by_cases hi : idx' = idx <;> by_cases hd : dst' = dst <;>
                simpa [callsOf, calls, Stations.made, Stations.toDst, Fin.val_inj, hi, hd,
                  answerFor, reg] using hrest

/-- What a forward layer sends to a node are the requests its own node has for it. -/
theorem map_made_slave {log : self.NetLog} (h : Turns self serve log) (idx dst : Fin self.ports) :
    (Stations.toDst (.slave dst) (Stations.made (.ingress idx) log)).map said =
      ((Stations.taken (.ingress idx) log).map Prod.snd).flatMap (self.askFor dst) := by
  refine Stations.map_made_eq fun src pkt outs hmem => ?_
  obtain ⟨nodes, nodes', hturned⟩ := h _ _ _ _ hmem
  cases hturned with
  | forward idx dst' pkt fwd asks reg same =>
      by_cases hd : dst' = dst <;> simp [Stations.toDst, askFor, reg, same, Fin.val_inj, hd]
  | refuse idx pkt ans err reg => simp [Stations.toDst, askFor, reg]

/-- What it sends back to its node are the requests for no one. -/
theorem map_made_master {log : self.NetLog} (h : Turns self serve log) (idx : Fin self.ports) :
    (Stations.toDst (.master idx) (Stations.made (.ingress idx) log)).map
        (fun ans => (ans.uid, ans.payload.mode)) =
      ((Stations.taken (.ingress idx) log).map Prod.snd).flatMap self.refusalOf := by
  refine Stations.map_made_eq fun src pkt outs hmem => ?_
  obtain ⟨nodes, nodes', hturned⟩ := h _ _ _ _ hmem
  cases hturned with
  | forward idx dst pkt fwd asks reg => simp [Stations.toDst, refusalOf, reg]
  | refuse idx pkt ans err reg uid mode => simp [Stations.toDst, refusalOf, reg, uid, mode]

/-- A backward layer takes its packets from its node alone. -/
theorem bySrc_taken_egress {log : self.NetLog} (h : Turns self serve log) (dst : Fin self.ports) :
    Stations.bySrc (some (.slave dst)) (Stations.taken (.egress dst) log) =
      (Stations.taken (.egress dst) log).map Prod.snd := by
  refine Stations.bySrc_eq_map fun e he => ?_
  obtain ⟨outs, hmem⟩ := Stations.exists_worked_of_mem_taken he
  obtain ⟨nodes, nodes', hturned⟩ := h _ _ _ _ hmem
  generalize hsrc : e.1 = src at hturned
  cases hturned
  rfl

/-- What it sends to a node are the answers for it. -/
theorem map_made_answers {log : self.NetLog} (h : Turns self serve log) (idx dst : Fin self.ports) :
    (Stations.toDst (.master idx) (Stations.made (.egress dst) log)).map said =
      (Stations.bySrc (some (.slave dst)) (Stations.taken (.egress dst) log)).flatMap
        (self.answerFor idx) := by
  rw [bySrc_taken_egress h]
  refine Stations.map_made_eq fun src resp outs hmem => ?_
  obtain ⟨nodes, nodes', hturned⟩ := h _ _ _ _ hmem
  cases hturned with
  | deliver idx' dst resp ans reg same =>
      by_cases hi : idx' = idx <;> simp [Stations.toDst, answerFor, Fin.val_inj, reg, same, hi]

/-! ### The nodes -/

/-- Each node is what its service made of the requests it answered, and each was answered from what
the requests before had left. -/
structure Kept (sw : SwitchNet σ T P) (serve : Service σ T P) (nodes : Nat → σ)
    (s : sw.NetState) : Prop where
  answered : ∀ pre x post, calls s.log = pre ++ x :: post → said x.ans =
    (x.req.uid, .response, x.req.payload.fromNode, x.req.payload.toNode,
      (serve x.dst (nodesAfter serve nodes pre x.dst) x.req.payload).1)
  nodes : s.shared = nodesAfter serve nodes (calls s.log)

omit [DecidableEq T] in
theorem nodesAfter_snoc (serve : Service σ T P) (nodes : Nat → σ) (xs : List (Call T P))
    (x : Call T P) : nodesAfter serve nodes (xs ++ [x]) =
      Function.update (nodesAfter serve nodes xs) x.dst
        (serve x.dst (nodesAfter serve nodes xs x.dst) x.req.payload).2 := by
  unfold nodesAfter
  rw [List.foldl_append]
  rfl

variable {nodes : Nat → σ} {s s' : self.NetState}

omit [DecidableEq T] in
/-- A step that answers nothing keeps it. -/
theorem Kept.of_eq (h : Kept self serve nodes s) (hcalls : calls s'.log = calls s.log)
    (hshared : s'.shared = s.shared) : Kept self serve nodes s' := by
  refine ⟨?_, ?_⟩
  · rw [hcalls]
    exact h.answered
  · rw [hcalls, hshared]
    exact h.nodes

omit [DecidableEq T] in
/-- Answering a request keeps it. -/
theorem Kept.answer (h : Kept self serve nodes s) {idx dst : Fin self.ports}
    {req resp : Packet (Network T P)} (htold : said resp = (req.uid, .response,
      req.payload.fromNode, req.payload.toNode, (serve dst (s.shared dst) req.payload).1))
    (hcalls : calls s'.log = calls s.log ++ [⟨idx, dst, req, resp⟩])
    (hshared : s'.shared =
      Function.update s.shared dst (serve dst (s.shared dst) req.payload).2) :
    Kept self serve nodes s' := by
  refine ⟨?_, ?_⟩
  · intro pre x post hsplit
    rw [hcalls] at hsplit
    rcases Stations.snoc_eq_append_cons hsplit with ⟨rfl, rfl⟩ | ⟨post', hsplit⟩
    · rw [← h.nodes]
      exact htold
    · exact h.answered pre x post' hsplit
  · rw [hcalls, nodesAfter_snoc, hshared, h.nodes]

/-- **Every step keeps it.** -/
theorem Kept.step (hwired : self.Wired) (himp : self.Implements serve) {a : self.NetAct}
    (hs : Stations.Sound (self.net inflight) self.Kind (fun _ => True) s)
    (h : Kept self serve nodes s) (hstep : (self.net inflight).step s a = some s') :
    Kept self serve nodes s' := by
  cases Stations.step_iff.mp hstep with
  | arrive q m room => exact h.of_eq (by simp [calls]) rfl
  | pass p q m rest hand room => exact h.of_eq (by simp [calls]) rfl
  | take q t src m rest outs shared hand queue work =>
      have hk : self.Kind q src m := hs.queue q (src, m) (queue ▸ List.mem_cons_self)
      cases turned_of_turn hwired himp hk work with
      | forward => exact h.of_eq (by simp [calls]) rfl
      | refuse => exact h.of_eq (by simp [calls]) rfl
      | deliver => exact h.of_eq (by simp [calls]) rfl
      | receive => exact h.of_eq (by simp [calls]) rfl
      | answer idx dst req resp reg told => exact h.answer told (List.flatMap_append ..) rfl

/-! ### Every interleaving -/

/-- What holds in every state of a run. -/
structure Calling (sw : SwitchNet σ T P) (inflight : sw.Station → Nat) (serve : Service σ T P)
    (nodes : Nat → σ) (s : sw.NetState) : Prop where
  regular : Stations.Regular (sw.net inflight) sw.Kind (fun _ => True) weight s
  kept : Kept sw serve nodes s

/-- The nodes send requests, each to the ingress port it is registered at; nothing else comes in
from outside. -/
def Sends (self : SwitchNet σ T P) : self.NetAct → Prop
  | .arrive (.ingress idx) pkt => self.Asks idx pkt
  | .arrive _ _ => False
  | _ => True

theorem Sends.brings {a : self.NetAct} (h : self.Sends a) : a.Brings self.Kind := by
  cases a with
  | arrive q pkt =>
      cases q with
      | ingress idx => exact h
      | egress dst => exact h.elim
      | slave dst => exact h.elim
      | master idx => exact h.elim
  | take q t => trivial
  | pass p => trivial

/-- The nodes at the start, and nothing under way. -/
theorem Calling.init (nodes : Nat → σ) :
    Calling self inflight serve nodes (Stations.State.init nodes) := by
  refine ⟨Stations.Regular.init trivial, ⟨?_, rfl⟩⟩
  intro pre x post hsplit
  exact absurd hsplit (by simp [calls, Stations.State.init])

theorem Calling.run (hwired : self.Wired) (himp : self.Implements serve)
    (hs : Calling self inflight serve nodes s) {acts : List self.NetAct}
    (hacts : ∀ a ∈ acts, a.Brings self.Kind)
    (hrun : Runs.run (self.net inflight).step s acts = some s') :
    Calling self inflight serve nodes s' := by
  refine Runs.run_inv_along (I := Calling self inflight serve nodes)
    (P := fun _ a => a.Brings self.Kind) ?_ hs (Runs.along_of_forall hacts) hrun
  intro s a s' hs ha hstep
  exact ⟨hs.regular.step (keeps hwired himp) (descends hwired himp) ha hstep,
    hs.kept.step hwired himp hs.regular.sound hstep⟩

/-- The requests of a node are what came to its ingress port from outside. -/
theorem Calling.requests_eq (hs : Calling self inflight serve nodes s) (idx : Fin self.ports) :
    requests idx s.log = Stations.bySrc none (Stations.arrivals (.ingress idx) s.log) := by
  refine (Stations.bySrc_eq_map fun e he => ?_).symm
  have hk := hs.regular.arrivals_ok he
  generalize e.1 = src at hk
  cases src with
  | none => rfl
  | some src => exact hk.elim

/-- In such a state the calls are delivered. -/
theorem Calling.delivered (hwired : self.Wired) (himp : self.Implements serve)
    (hs : Calling self inflight serve nodes s) : Delivered self serve nodes s := by
  have hacc := hs.regular.accounted
  have ht := Turns.of_sound hwired himp hs.regular.sound
  have hreqs : ∀ idx, UpTo s.Quiet ((Stations.taken (.ingress idx) s.log).map Prod.snd)
      (requests idx s.log) := fun idx => (hacc.taken_arrivals (.ingress idx)).map Prod.snd
  refine ⟨?_, hs.kept.answered, hs.kept.nodes, ?_, ?_, ?_⟩
  · intro idx dst
    have hmade := (hacc.taken_made (.ingress idx) (.slave dst)).map said
    rw [map_made_slave ht, ← map_req_callsOf ht, List.map_map] at hmade
    exact hmade.trans ((hreqs idx).flatMap _)
  · intro idx dst
    have hback := (hacc.taken_made (.egress dst) (.master idx)).map said
    rw [map_made_answers ht] at hback
    rw [map_ans_callsOf ht]
    exact hback.trans ((hacc.taken_made (.slave dst) (.egress dst)).flatMap _)
  · intro idx
    have hback := (hacc.taken_made (.ingress idx) (.master idx)).map
      fun ans : Packet (Network T P) => (ans.uid, ans.payload.mode)
    rw [map_made_master ht] at hback
    exact hback.trans ((hreqs idx).flatMap _)
  · intro idx e he
    obtain ⟨outs, hmem⟩ := Stations.exists_worked_of_mem_taken he
    obtain ⟨nodes', nodes'', hturned⟩ := ht _ _ _ _ hmem
    generalize e.1 = src at hturned
    cases hturned with
    | receive idx src ans sent => exact sent

/-- **A switch is a procedure call.** Nodes that ask one another through a switch, all at once and
through channels of any size, are answered each by the node it asked, in order and once; and from
any state the switch and the nodes can go on until nothing is under way, and then every request of
every node was answered or came back with the error of the table. -/
theorem switch_delivers (self : SwitchNet σ T P) (serve : Service σ T P) (hwired : self.Wired)
    (himp : self.Implements serve) (inflight : self.Station → Nat) (hroom : ∀ q, 0 < inflight q)
    (nodes : Nat → σ) (acts : List self.NetAct) (hacts : ∀ a ∈ acts, self.Sends a)
    (s : self.NetState)
    (hrun : Runs.run (self.net inflight).step (Stations.State.init nodes) acts = some s) :
    Delivered self serve nodes s ∧ ∃ acts' s', (∀ a ∈ acts', a.Inner) ∧
      Runs.run (self.net inflight).step s acts' = some s' ∧ s'.Quiet ∧
      Delivered self serve nodes s' ∧
      (∀ idx dst, (answers idx dst s'.log).map Packet.uid =
        ((requests idx s.log).flatMap (self.askFor dst)).map Prod.fst) ∧
      ∀ idx, (refusals idx s'.log).map (fun ans => (ans.uid, ans.payload.mode)) =
        (requests idx s.log).flatMap self.refusalOf := by
  have hs : Calling self inflight serve nodes s :=
    (Calling.init nodes).run hwired himp (fun a ha => (hacts a ha).brings) hrun
  obtain ⟨acts', s', hrun', hinner, hquiet⟩ :=
    Stations.exists_quiet (keeps hwired himp) (descends hwired himp) hroom hs.regular
  have hs' := hs.run hwired himp (fun a ha => (hinner a ha).brings) hrun'
  have hdel := hs'.delivered hwired himp
  have hsame : ∀ idx, requests idx s'.log = requests idx s.log := by
    intro idx
    rw [hs'.requests_eq, hs.requests_eq]
    exact Stations.bySrc_none_run hinner hrun' _
  refine ⟨hs.delivered hwired himp, acts', s', hinner, hrun', hquiet, hdel, ?_, ?_⟩
  · intro idx dst
    have hans := congrArg (List.map Prod.fst) ((hdel.answers idx dst).eq hquiet)
    have hreq := congrArg (List.map Prod.fst) ((hdel.requests idx dst).eq hquiet)
    rw [List.map_map, List.map_map] at hans
    rw [hsame idx, List.map_map] at hreq
    rw [← hreq]
    refine hans.trans (List.map_congr_left fun x hx => ?_)
    obtain ⟨pre, post, hsplit⟩ := List.append_of_mem (List.mem_of_mem_filter hx)
    show x.ans.uid = x.req.uid
    exact congrArg Prod.fst (hdel.answered pre x post hsplit)
  · intro idx
    rw [← hsame idx]
    exact (hdel.refusals idx).eq hquiet

/-- Two nodes that each keep a sum, add what they are sent and answer with the sum. -/
def twoSums : SwitchNet Nat Nat Nat where
  switch := { uid := 0, portMap := [(10, 0), (11, 1)] }
  ports := 2
  forge t _ node req :=
    .ok (some t.frontend, { req with mode := .response, payload := node + req.payload },
      node + req.payload)

def addTo : Service Nat Nat Nat := fun _ node req => (node + req.payload, node + req.payload)

/-- Each node asks the other, before either answers; the first asks a node no one knows, too. -/
def bothAsk : List twoSums.NetAct :=
  [.arrive (.ingress ⟨0, Nat.two_pos⟩) { uid := 0, payload := Network.new 10 11 5 },
    .arrive (.ingress ⟨1, Nat.one_lt_two⟩) { uid := 1, payload := Network.new 11 10 6 },
    .take (.ingress ⟨0, Nat.two_pos⟩) {}, .take (.ingress ⟨1, Nat.one_lt_two⟩) {},
    .arrive (.ingress ⟨0, Nat.two_pos⟩) { uid := 2, payload := Network.new 10 12 7 },
    .pass (.ingress ⟨1, Nat.one_lt_two⟩), .take (.slave ⟨0, Nat.two_pos⟩) {}]

theorem switch_delivers_bothAsk : ∃ s,
    Runs.run (twoSums.net fun _ => 1).step (Stations.State.init fun _ => 0) bothAsk = some s ∧
      Delivered twoSums addTo (fun _ => 0) s := by
  have hwired : twoSums.Wired := by
    intro node port hreg
    have hmem := Switch.mem_of_getPort hreg
    simp only [twoSums, List.mem_cons, List.not_mem_nil, or_false, Prod.mk.injEq] at hmem
    show port < 2
    omega
  have himp : twoSums.Implements addTo := fun t idx node req _ => ⟨_, _, rfl, rfl, rfl, rfl, rfl⟩
  have hsends : ∀ a ∈ bothAsk, twoSums.Sends a := by
    simp only [bothAsk, List.forall_mem_cons]
    exact ⟨⟨rfl, rfl⟩, ⟨rfl, rfl⟩, trivial, trivial, ⟨rfl, rfl⟩, trivial, trivial,
      List.forall_mem_nil _⟩
  obtain ⟨s, hs⟩ : ∃ s, Runs.run (twoSums.net fun _ => 1).step
      (Stations.State.init fun _ => 0) bothAsk = some s :=
    Option.isSome_iff_exists.mp (by decide)
  exact ⟨s, hs, (switch_delivers twoSums addTo hwired himp (fun _ => 1) (fun _ => Nat.one_pos) _
    bothAsk hsends s hs).1⟩

end SwitchNet

end Ra2m
