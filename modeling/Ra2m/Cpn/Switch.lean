/-
The switch between the nodes of a network (`net/switch.rs`).

Every interface of a switch is an ingress and an egress port of the same number.  A
request leaves on the egress port its destination is registered at, and its answer
on the ingress port its sender is registered at; what cannot be routed goes back
with an error.  A layer's turn is what it does with one message.
-/
import Ra2m.Sim.Port
import Ra2m.Sim.Network

namespace Ra2m

structure Switch (T : Type) where
  uid : Nat
  portMap : List (T × Nat) := []

namespace Switch

/-- The side and the interface a message leaves on. -/
inductive Out (T P : Type) where
  | egress (port : Nat) (pkt : Packet (Network T P))
  | ingress (port : Nat) (pkt : Packet (Network T P))

variable {T P : Type} [DecidableEq T]

/-- Look a node up. -/
def getPort (self : Switch T) (descr : T) : Except NetworkError Nat :=
  match self.portMap.find? fun e => e.1 = descr with
  | some (_, port) => .ok port
  | none => .error .unreachable

/-- Register a node on an interface, unless it is registered already. -/
def registerPort (self : Switch T) (trgt : T) (port : Nat) : Except NetworkError (Switch T) :=
  match self.portMap.find? fun e => e.1 = trgt with
  | some _ => .error .alreadyUsed
  | none => .ok { self with portMap := self.portMap ++ [(trgt, port)] }

def switchDelay (t : Timing) (size : Data) : Tick := t.frontend + t.transfer size

/-- Forward a request received on interface `idx`. -/
def forwardLayer (t : Timing) (self : Switch T) (idx : Nat) (pkt : Packet (Network T P)) :
    Out T P :=
  match self.getPort pkt.payload.toNode with
  | .ok dst =>
      let req := pkt.payload.pushTrace (.switch t.now self.uid (.forward idx dst))
      .egress dst ((pkt.setPayload req).appendDelay (switchDelay t 0))
  | .error err => .ingress idx (pkt.setPayload (pkt.payload.setMode (.error err)))

/-- Hand back an answer received on interface `idx`. -/
def backwardLayer (t : Timing) (self : Switch T) (idx : Nat) (pkt : Packet (Network T P)) :
    Out T P :=
  match self.getPort pkt.payload.fromNode with
  | .ok src =>
      let resp := pkt.payload.pushTrace (.switch t.now self.uid (.backward idx src))
      .ingress src ((pkt.setPayload resp).appendDelay (switchDelay t 0))
  | .error err => .egress idx (pkt.setPayload (pkt.payload.setMode (.error err)))

/-- Index the port the message leaves on; there are `n` of each side. -/
def Out.index (n : Nat) : Out T P → Exec (Out T P)
  | .egress port pkt => if port < n then .ok (.egress port pkt) else .error (outOfBounds n port)
  | .ingress port pkt => if port < n then .ok (.ingress port pkt) else .error (outOfBounds n port)
where
  outOfBounds (n port : Nat) : Panic :=
    ⟨s!"index out of bounds: the len is {n} but the index is {port}"⟩

end Switch

/-- What a message says, apart from its way. -/
def Packet.said {T P : Type} (pkt : Packet (Network T P)) : Nat × Mode NetworkError × T × T × P :=
  (pkt.uid, pkt.payload.mode, pkt.payload.fromNode, pkt.payload.toNode, pkt.payload.payload)

/-- A message as it arrives: what it says is unchanged, and so is the session of its packet. -/
def Carried {T P : Type} (pkt pkt' : Packet (Network T P)) : Prop :=
  pkt'.payload.mode = pkt.payload.mode ∧ pkt'.payload.fromNode = pkt.payload.fromNode ∧
    pkt'.payload.toNode = pkt.payload.toNode ∧ pkt'.payload.payload = pkt.payload.payload ∧
    pkt'.sid = pkt.sid

instance {T P : Type} [DecidableEq T] [DecidableEq P] (pkt pkt' : Packet (Network T P)) :
    Decidable (Carried pkt pkt') := inferInstanceAs (Decidable (_ ∧ _ ∧ _ ∧ _ ∧ _))

namespace Switch

variable {T P : Type} [DecidableEq T] {self : Switch T} {port : T → Nat}

/-- A request leaves, unchanged, on the interface its destination is registered at. -/
theorem forwardLayer_carries {pkt : Packet (Network T P)} {dst : Nat}
    (hreg : self.getPort pkt.payload.toNode = .ok dst) (t : Timing) (idx : Nat) :
    ∃ pkt', self.forwardLayer t idx pkt = .egress dst pkt' ∧ Carried pkt pkt' := by
  unfold forwardLayer
  rw [hreg]
  exact ⟨_, rfl, rfl, rfl, rfl, rfl, rfl⟩

/-- An answer leaves, unchanged, on the interface of the node that asked. -/
theorem backwardLayer_carries {pkt : Packet (Network T P)} {src : Nat}
    (hreg : self.getPort pkt.payload.fromNode = .ok src) (t : Timing) (idx : Nat) :
    ∃ pkt', self.backwardLayer t idx pkt = .ingress src pkt' ∧ Carried pkt pkt' := by
  unfold backwardLayer
  rw [hreg]
  exact ⟨_, rfl, rfl, rfl, rfl, rfl, rfl⟩

/-- With every node registered on an interface of its own, a request reaches the node it is for, and
an answer the node that asked. -/
theorem carries_both_ways (hport : Function.Injective port)
    (hreg : ∀ node, self.getPort node = .ok (port node)) (t : Timing) (idx : Nat)
    (pkt : Packet (Network T P)) :
    (∃ pkt' dst, self.forwardLayer t idx pkt = .egress dst pkt' ∧ Carried pkt pkt' ∧
        ∀ node, port node = dst ↔ node = pkt.payload.toNode) ∧
      ∃ pkt' src, self.backwardLayer t idx pkt = .ingress src pkt' ∧ Carried pkt pkt' ∧
        ∀ node, port node = src ↔ node = pkt.payload.fromNode := by
  obtain ⟨req, hreq, hcarried⟩ := forwardLayer_carries (hreg pkt.payload.toNode) t idx
  obtain ⟨resp, hresp, hcarried'⟩ := backwardLayer_carries (hreg pkt.payload.fromNode) t idx
  exact ⟨⟨req, _, hreq, hcarried, fun node => hport.eq_iff⟩,
    ⟨resp, _, hresp, hcarried', fun node => hport.eq_iff⟩⟩

/-- What is found is in the table. -/
theorem mem_of_getPort {descr : T} {p : Nat} (h : self.getPort descr = .ok p) :
    (descr, p) ∈ self.portMap := by
  unfold getPort at h
  split at h
  · rename_i node q hfind
    have hnode : node = descr := by simpa using List.find?_some hfind
    obtain rfl := Except.ok.inj h
    rw [← hnode]
    exact List.mem_of_find?_eq_some hfind
  · cases h

/-- A node can be found once it is registered, where it was registered. -/
theorem getPort_registerPort {self' : Switch T} {trgt : T} {p : Nat}
    (h : self.registerPort trgt p = .ok self') (node : T) :
    self'.getPort node = if node = trgt then .ok p else self.getPort node := by
  unfold registerPort at h
  split at h
  · cases h
  · rename_i hnone
    obtain rfl := Except.ok.inj h
    unfold getPort
    rw [List.find?_append]
    by_cases hnode : node = trgt
    · rw [if_pos hnode, hnode, hnone]
      simp
    · rw [if_neg hnode]
      simp [Ne.symm hnode]

end Switch

end Ra2m
