/-
Where the answer to a request leaves a switch.

A request is routed by the node it is for and its answer by the node it is from, both
through the one map of registered nodes; that the node is registered on the interface
its request came in by is nowhere checked, and neither is that an interface of that
number exists.  An answer that cannot be routed goes back to the node that gave it.
`answeredAtSource_iff` collects what it takes for the answer to leave where the request
came in.
-/
import Ra2m.Cpn.Switch

namespace Ra2m

namespace Switch

variable {T P : Type} [DecidableEq T]

/-- Between the same two nodes. -/
def SameHeader (pkt pkt' : Packet (Network T P)) : Prop :=
  pkt'.payload.fromNode = pkt.payload.fromNode ∧ pkt'.payload.toNode = pkt.payload.toNode

/-- What answers a request of interface `idx` leaves on ingress `idx`, and no layer panics: either
an error, at once, or any answer that comes in on the egress port the request left by. -/
def AnsweredAtSource (n : Nat) (self : Switch T) (t : Timing) (idx : Nat)
    (pkt : Packet (Network T P)) : Prop :=
  match (self.forwardLayer t idx pkt).index n with
  | .error _ => False
  | .ok (.ingress port reply) => port = idx ∧ ∃ e, reply.payload.mode = .error e
  | .ok (.egress dst req) =>
      ∀ t' resp, SameHeader req resp →
        ∃ resp', (self.backwardLayer t' dst resp).index n = .ok (.ingress idx resp')

/-- The destination is unknown, or it is on an interface the switch has and the sender is
registered on the interface its request came in by. -/
def RegisteredAtSource (n : Nat) (self : Switch T) (idx : Nat) (fromNode toNode : T) : Prop :=
  self.getPort toNode = .error .unreachable ∨
    (∃ dst < n, self.getPort toNode = .ok dst) ∧ self.getPort fromNode = .ok idx

variable {n : Nat} {self : Switch T} {idx : Nat}

theorem getPort_cases (self : Switch T) (node : T) :
    (∃ port, self.getPort node = .ok port) ∨ self.getPort node = .error .unreachable := by
  unfold getPort
  split
  · exact Or.inl ⟨_, rfl⟩
  · exact Or.inr rfl

/-- A request for an unknown node is answered with the error, where it came in. -/
theorem forwardLayer_unknown (t : Timing) {pkt : Packet (Network T P)} {err : NetworkError}
    (h : self.getPort pkt.payload.toNode = .error err) :
    self.forwardLayer t idx pkt =
      .ingress idx (pkt.setPayload (pkt.payload.setMode (.error err))) := by
  unfold forwardLayer
  rw [h]

/-- An answer leaves where the request came in exactly when the node it is from is registered
there. -/
theorem backwardLayer_index_iff (hidx : idx < n) (t : Timing) (dst : Nat)
    (resp : Packet (Network T P)) :
    (∃ resp', (self.backwardLayer t dst resp).index n = .ok (.ingress idx resp')) ↔
      self.getPort resp.payload.fromNode = .ok idx := by
  unfold backwardLayer
  cases hget : self.getPort resp.payload.fromNode with
  | error err =>
      unfold Out.index
      by_cases hdst : dst < n
      · simp [hdst]
      · simp [hdst]
  | ok src =>
      unfold Out.index
      by_cases hsrc : src < n
      · simp [hsrc]
      · have hne : src ≠ idx := fun h => hsrc (h ▸ hidx)
        simp [hsrc, hne]

/-- **The answer to a request leaves where the request came in exactly when the switch knows the
requester there.** -/
theorem answeredAtSource_iff (n : Nat) (self : Switch T) (t : Timing) {idx : Nat} (hidx : idx < n)
    (pkt : Packet (Network T P)) :
    AnsweredAtSource n self t idx pkt ↔
      RegisteredAtSource n self idx pkt.payload.fromNode pkt.payload.toNode := by
  unfold AnsweredAtSource RegisteredAtSource
  rcases getPort_cases self pkt.payload.toNode with ⟨dst, hto⟩ | hto
  · obtain ⟨req, hreq, hcarried⟩ := forwardLayer_carries hto t idx
    obtain ⟨-, hfrom, hto', -⟩ := hcarried
    rw [hreq, hto]
    by_cases hdst : dst < n
    · simp only [Out.index, reduceCtorEq, false_or, Except.ok.injEq, exists_eq_right',
        hdst, true_and]
      constructor
      · intro h
        have hback := (backwardLayer_index_iff hidx t dst req).mp (h t req ⟨rfl, rfl⟩)
        rwa [hfrom] at hback
      · intro hget t' resp hsame
        refine (backwardLayer_index_iff hidx t' dst resp).mpr ?_
        rw [hsame.1, hfrom, hget]
    · simp [Out.index, hdst]
  · rw [forwardLayer_unknown t hto, hto]
    simp only [Out.index, if_pos hidx, true_or, iff_true]
    exact ⟨trivial, _, rfl⟩

/-- Two interfaces, with a node `7` on the second one. -/
def oneNode : Switch Nat := { uid := 0, portMap := [(7, 1)] }

/-- The same with a node `5` on the first one. -/
def twoNodes : Switch Nat := { uid := 0, portMap := [(7, 1), (5, 0)] }

/-- A request of node `5` to node `7`. -/
def fiveToSeven : Packet (Network Nat Unit) := { uid := 0, payload := .new 5 7 () }

example : oneNode.registerPort 5 0 = .ok twoNodes := rfl

theorem answeredAtSource_iff_twoNodes :
    (0 < 2) ∧ (AnsweredAtSource 2 twoNodes {} 0 fiveToSeven ↔ RegisteredAtSource 2 twoNodes 0 5 7) ∧
      AnsweredAtSource 2 twoNodes {} 0 fiveToSeven := by
  refine ⟨by decide, answeredAtSource_iff 2 twoNodes {} (by decide) fiveToSeven, ?_⟩
  exact (answeredAtSource_iff 2 twoNodes {} (by decide) fiveToSeven).mpr
    (Or.inr ⟨⟨1, by decide, rfl⟩, rfl⟩)

/-- The answer to a node that is not registered goes back to the node that gave it. -/
theorem oneNode_answers_responder :
    ¬ (0 < 2 → AnsweredAtSource 2 oneNode {} 0 fiveToSeven) := by
  intro h
  obtain ⟨resp', hresp⟩ := h (by decide) {} fiveToSeven ⟨rfl, rfl⟩
  cases hresp

end Switch

end Ra2m
