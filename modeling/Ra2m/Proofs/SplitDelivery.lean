/-
What the switch of one-way channels delivers.

Any node may send to any other, all at once, and what arrives is what was sent: nothing is
lost, doubled or made up, and the messages of one node to another stay in order.  Messages
of different nodes to the same one arrive in any order, which is what the source warns of:
an answer can come in before the answer to an earlier request to someone else.

A layer does the same with every message, so no packet has a kind here, and the only thing
that can go wrong is a table that names a port that is not there (`Wired`).
-/
import Ra2m.Cpn.SplitSwitch

namespace Ra2m

namespace SplitSwitch

open Stations (UpTo)
open Packet (said)

variable {T P : Type} [DecidableEq T]

/-- Whatever is registered is registered on a port of the switch. -/
def Wired (self : SplitSwitch T) : Prop :=
  ∀ node port, self.getPort node = .ok port → port < self.ports

/-- What each node sent to each other arrives there in order and once, and nothing else does; a
message for a node that is not registered comes back with the error of the table. -/
structure Delivered {P : Type} (sw : SplitSwitch T) (s : sw.NetState P) : Prop where
  order : ∀ idx dst : Fin sw.ports, UpTo s.Quiet ((received idx dst s.log).map said)
    ((sent idx s.log).flatMap (sw.saidAt idx dst))
  layers : ∀ dst : Fin sw.ports, ∀ e ∈ Stations.taken (.node dst) s.log,
    ∃ idx : Fin sw.ports, e.1 = some (.layer idx)

variable {self : SplitSwitch T} {inflight : self.Station → Nat}

/-- Registering a node on a port there is keeps the table so. -/
theorem Wired.registerPort (h : self.Wired) {self' : SplitSwitch T} {node : T} {port : Nat}
    (hport : port < self.ports) (hreg : self.registerPort node port = .ok self') : self'.Wired := by
  obtain ⟨table, htable, rfl⟩ : ∃ table,
      Switch.registerPort ⟨self.uid, self.portMap⟩ node port = .ok table ∧
        self' = { self with portMap := table.portMap } := by
    unfold SplitSwitch.registerPort at hreg
    cases htable : Switch.registerPort ⟨self.uid, self.portMap⟩ node port with
    | error err =>
        rw [htable] at hreg
        cases hreg
    | ok table =>
        rw [htable] at hreg
        exact ⟨table, rfl, (Except.ok.inj hreg).symm⟩
  intro node' port' hget
  have htable' : table.getPort node' = .ok port' := hget
  rw [Switch.getPort_registerPort htable] at htable'
  split at htable'
  · obtain rfl := Except.ok.inj htable'
    exact hport
  · exact h node' port' htable'

/-! ### One layer -/

/-- A layer sends every message on, to the node it is for or back. -/
theorem forwardLayer_saidAt (t : Timing) (idx : Nat) (pkt : Packet (Network T P)) (dst : Nat) :
    self.saidAt idx dst pkt = if (self.forwardLayer t idx pkt).1 = dst
      then [said (self.forwardLayer t idx pkt).2] else [] := by
  have hto : (pkt.payload.setMode .response).toNode = pkt.payload.toNode := rfl
  unfold saidAt forwardLayer
  simp only [hto]
  cases self.getPort pkt.payload.toNode with
  | ok port => rfl
  | error err => rfl

/-- It leaves on a port there is. -/
theorem forwardLayer_lt (hwired : self.Wired) (t : Timing) (idx : Fin self.ports)
    (pkt : Packet (Network T P)) : (self.forwardLayer t idx pkt).1 < self.ports := by
  have hto : (pkt.payload.setMode .response).toNode = pkt.payload.toNode := rfl
  unfold forwardLayer
  simp only [hto]
  cases hreg : self.getPort pkt.payload.toNode with
  | ok port => exact hwired _ _ hreg
  | error err => exact idx.isLt

/-! ### The packets on their way -/

/-- The layers take what comes from outside, and the nodes what comes from a layer. -/
def Kind (P : Type) (self : SplitSwitch T) :
    self.Station → Option self.Station → Packet (Network T P) → Prop
  | .layer _, none, _ => True
  | .node _, some (.layer _), _ => True
  | _, _, _ => False

/-- What a turn makes of a packet. -/
inductive Turned {P : Type} (sw : SplitSwitch T) :
    sw.Station → Option sw.Station → Packet (Network T P) →
      List (sw.Station × Packet (Network T P)) → Prop where
  | forward (idx port : Fin sw.ports) (t : Timing) (pkt : Packet (Network T P))
      (leaves : (sw.forwardLayer t idx pkt).1 = port) :
      Turned sw (.layer idx) none pkt [(.node port, (sw.forwardLayer t idx pkt).2)]
  | receive (idx dst : Fin sw.ports) (pkt : Packet (Network T P)) :
      Turned sw (.node dst) (some (.layer idx)) pkt []

/-- No process panics on a packet of its kind. -/
theorem turn_turned (hwired : self.Wired) {q : self.Station} {src : Option self.Station}
    {pkt : Packet (Network T P)} (hk : self.Kind P q src pkt) (t : Timing) :
    ∃ outs, self.turn P q t () pkt = some (outs, ()) ∧ Turned self q src pkt outs := by
  cases q with
  | layer idx =>
      cases src with
      | some src => exact hk.elim
      | none =>
          have hport := forwardLayer_lt hwired t idx pkt
          refine ⟨_, ?_, .forward idx ⟨_, hport⟩ t pkt rfl⟩
          simp only [turn, dif_pos hport]
  | node dst =>
      rcases src with - | src
      · exact hk.elim
      · cases src with
        | node i => exact hk.elim
        | layer idx => exact ⟨_, rfl, .receive idx dst pkt⟩

/-- What a process makes of a packet of its kind is what its turn makes. -/
theorem turned_of_turn (hwired : self.Wired) {q : self.Station} {src : Option self.Station}
    {pkt : Packet (Network T P)} (hk : self.Kind P q src pkt) {t : Timing}
    {outs : List (self.Station × Packet (Network T P))}
    (hturn : self.turn P q t () pkt = some (outs, ())) : Turned self q src pkt outs := by
  obtain ⟨outs', hturn', hturned⟩ := turn_turned hwired hk t
  rw [hturn, Option.some.injEq, Prod.mk.injEq] at hturn'
  rw [hturn'.1]
  exact hturned

theorem keeps (hwired : self.Wired) :
    Stations.Keeps (self.net P inflight) (self.Kind P) fun _ => True := by
  refine ⟨fun q t _ src pkt outs _ hk _ hturn => ⟨trivial, ?_⟩⟩
  cases turned_of_turn hwired hk hturn with
  | forward idx port t pkt leaves => exact List.forall_mem_singleton.mpr trivial
  | receive idx dst pkt => exact List.forall_mem_nil _

/-- How many steps a packet is from its node, at most. -/
def weight : self.Station → Nat
  | .layer _ => 3
  | .node _ => 1

theorem descends (hwired : self.Wired) :
    Stations.Descends (self.net P inflight) (self.Kind P) (fun _ => True) weight where
  works q _ src pkt hk _ := by
    obtain ⟨outs, hturn, -⟩ := turn_turned hwired hk {}
    exact ⟨{}, _, hturn⟩
  lighter q t _ src pkt outs _ hk _ hturn := by
    cases turned_of_turn hwired hk hturn <;> simp [weight]

/-! ### Every interleaving -/

/-- What holds in every state of a run. -/
abbrev Going (self : SplitSwitch T) (inflight : self.Station → Nat) (s : self.NetState P) : Prop :=
  Stations.Regular (self.net P inflight) (self.Kind P) (fun _ => True) weight s

variable {s s' : self.NetState P}

/-- Every entry of the log is a turn of a process. -/
theorem turned_of_mem (hwired : self.Wired) (hs : self.Going inflight s) {q : self.Station}
    {src : Option self.Station} {pkt : Packet (Network T P)}
    {outs : List (self.Station × Packet (Network T P))} (hmem : .worked q src pkt outs ∈ s.log) :
    Turned self q src pkt outs := by
  obtain ⟨hk, t, _, _, -, hturn⟩ := hs.sound.worked q src pkt outs hmem
  exact turned_of_turn hwired hk hturn

/-- What a layer sends to a node is what its own node has for it. -/
theorem map_made_node (hwired : self.Wired) (hs : self.Going inflight s)
    (idx dst : Fin self.ports) :
    (Stations.toDst (.node dst) (Stations.made (.layer idx) s.log)).map said =
      ((Stations.taken (.layer idx) s.log).map Prod.snd).flatMap (self.saidAt idx dst) := by
  refine Stations.map_made_eq fun src pkt outs hmem => ?_
  cases turned_of_mem hwired hs hmem with
  | forward idx port t pkt leaves =>
      rw [forwardLayer_saidAt t, leaves]
      by_cases hport : port = dst <;> simp [Stations.toDst, Fin.val_inj, hport]

/-- In such a state the messages are delivered. -/
theorem Going.delivered (hwired : self.Wired) (hs : self.Going inflight s) : Delivered self s := by
  refine ⟨?_, ?_⟩
  · intro idx dst
    have hmade := (hs.accounted.taken_made (.layer idx) (.node dst)).map said
    rw [map_made_node hwired hs] at hmade
    exact hmade.trans (((hs.accounted.taken_arrivals (.layer idx)).map Prod.snd).flatMap _)
  · intro dst e he
    obtain ⟨outs, hmem⟩ := Stations.exists_worked_of_mem_taken he
    have hturned := turned_of_mem hwired hs hmem
    generalize e.1 = src at hturned
    cases hturned with
    | receive idx dst pkt => exact ⟨idx, rfl⟩

/-- The nodes send messages, each to its own port; nothing else comes in from outside. -/
def Sends (self : SplitSwitch T) : self.NetAct P → Prop
  | .arrive (.layer _) _ => True
  | .arrive _ _ => False
  | _ => True

omit [DecidableEq T] in
theorem Sends.brings {a : self.NetAct P} (h : self.Sends a) : a.Brings (self.Kind P) := by
  cases a with
  | arrive q pkt =>
      cases q with
      | layer idx => trivial
      | node dst => exact h.elim
  | take q t => trivial
  | pass p => trivial

/-- What a node sent is what came to its port from outside. -/
theorem Going.sent_eq (hs : self.Going inflight s) (idx : Fin self.ports) :
    sent idx s.log = Stations.bySrc none (Stations.arrivals (.layer idx) s.log) := by
  refine (Stations.bySrc_eq_map fun e he => ?_).symm
  have hk := hs.arrivals_ok he
  generalize e.1 = src at hk
  cases src with
  | none => rfl
  | some src => exact hk.elim

/-- **Nothing is lost, doubled or made up.** Whatever the nodes send one another through the switch,
all at once and through channels of any size, arrives in the order of its sender and once; and from
any state the switch and the nodes can go on until nothing is under way, and then each node has
exactly what each other sent it. -/
theorem split_delivers (self : SplitSwitch T) (hwired : self.Wired) (inflight : self.Station → Nat)
    (hroom : ∀ q, 0 < inflight q) (acts : List (self.NetAct P)) (hacts : ∀ a ∈ acts, self.Sends a)
    (s : self.NetState P)
    (hrun : Runs.run (self.net P inflight).step (Stations.State.init ()) acts = some s) :
    Delivered self s ∧ ∃ acts' s', (∀ a ∈ acts', a.Inner) ∧
      Runs.run (self.net P inflight).step s acts' = some s' ∧ s'.Quiet ∧ Delivered self s' ∧
      ∀ idx dst, (received idx dst s'.log).map said =
        (sent idx s.log).flatMap (self.saidAt idx dst) := by
  have hs : self.Going inflight s := (Stations.Regular.init trivial).run (keeps hwired)
    (descends hwired) (fun a ha => (hacts a ha).brings) hrun
  obtain ⟨acts', s', hrun', hinner, hquiet⟩ :=
    Stations.exists_quiet (keeps hwired) (descends hwired) hroom hs
  have hs' : self.Going inflight s' :=
    hs.run (keeps hwired) (descends hwired) (fun a ha => (hinner a ha).brings) hrun'
  have hdel := hs'.delivered hwired
  refine ⟨hs.delivered hwired, acts', s', hinner, hrun', hquiet, hdel, fun idx dst => ?_⟩
  have hsame : sent idx s'.log = sent idx s.log := by
    rw [hs'.sent_eq, hs.sent_eq]
    exact Stations.bySrc_none_run hinner hrun' _
  rw [← hsame]
  exact (hdel.order idx dst).eq hquiet

/-- Three nodes, each on a port of its own. -/
def threeNodes : SplitSwitch Nat := { uid := 0, ports := 3, portMap := [(10, 0), (11, 1), (12, 2)] }

/-- The message that is sent last to the third node is there first, and one is for no one. -/
def overtakes : List (threeNodes.NetAct Nat) :=
  let first : Fin threeNodes.ports := ⟨0, Nat.zero_lt_succ 2⟩
  let second : Fin threeNodes.ports := ⟨1, Nat.one_lt_succ_succ 1⟩
  let third : Fin threeNodes.ports := ⟨2, Nat.lt_succ_self 2⟩
  [.arrive (.layer first) { uid := 0, payload := Network.new 10 12 5 }, .take (.layer first) {},
    .arrive (.layer second) { uid := 1, payload := Network.new 11 12 6 }, .take (.layer second) {},
    .pass (.layer second), .take (.node third) {},
    .arrive (.layer second) { uid := 2, payload := Network.new 11 13 7 }]

theorem split_delivers_overtakes : ∃ s acts' s',
    Runs.run (threeNodes.net Nat fun _ => 1).step (Stations.State.init ()) overtakes = some s ∧
      (received (0 : Fin 3) (2 : Fin 3) s.log).map said = [] ∧
      (received (1 : Fin 3) (2 : Fin 3) s.log).map said = [(1, .response, 11, 12, 6)] ∧
      Runs.run (threeNodes.net Nat fun _ => 1).step s acts' = some s' ∧ s'.Quiet ∧
      Delivered threeNodes s' ∧
      (received (0 : Fin 3) (2 : Fin 3) s'.log).map said = [(0, .response, 10, 12, 5)] := by
  have hwired : threeNodes.Wired := by
    intro node port hreg
    have hmem := Switch.mem_of_getPort hreg
    simp only [threeNodes, List.mem_cons, List.not_mem_nil, or_false, Prod.mk.injEq] at hmem
    show port < 3
    omega
  have hsends : ∀ a ∈ overtakes, threeNodes.Sends a := by
    simp only [overtakes, List.forall_mem_cons]
    exact ⟨trivial, trivial, trivial, trivial, trivial, trivial, trivial, List.forall_mem_nil _⟩
  obtain ⟨s, hs⟩ : ∃ s, Runs.run (threeNodes.net Nat fun _ => 1).step
      (Stations.State.init ()) overtakes = some s := Option.isSome_iff_exists.mp (by decide)
  have hfirst : (Runs.run (threeNodes.net Nat fun _ => 1).step (Stations.State.init ())
      overtakes).map (fun s => (received (0 : Fin 3) (2 : Fin 3) s.log).map said) = some [] := by
    decide
  have hsecond : (Runs.run (threeNodes.net Nat fun _ => 1).step (Stations.State.init ())
      overtakes).map (fun s => (received (1 : Fin 3) (2 : Fin 3) s.log).map said) =
        some [(1, .response, 11, 12, 6)] := by decide
  have hsaid : (Runs.run (threeNodes.net Nat fun _ => 1).step (Stations.State.init ())
      overtakes).map (fun s => (sent (0 : Fin 3) s.log).flatMap (threeNodes.saidAt 0 2)) =
        some [(0, .response, 10, 12, 5)] := by decide
  rw [hs, Option.map_some, Option.some.injEq] at hfirst hsecond hsaid
  obtain ⟨-, acts', s', -, hrun, hquiet, hdel, hall⟩ := split_delivers threeNodes hwired
    (fun _ => 1) (fun _ => Nat.one_pos) overtakes hsends s hs
  exact ⟨s, acts', s', hs, hfirst, hsecond, hrun, hquiet, hdel,
    (hall (0 : Fin 3) (2 : Fin 3)).trans hsaid⟩

end SplitSwitch

end Ra2m
