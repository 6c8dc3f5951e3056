/-
What becomes of a failed access in an NDma.

`forward_error` frees the slot of a failed access and reports the failure to who the
access was made for, on either kind of slot.  It is never called: both layers receive
their responses with `wait_pkt_ep`, whose `rx_check` refuses a response that carries
a failure, and the `expect` behind it panics before the mode is looked at.
-/
import Ra2m.Cpn.NDma

namespace Ra2m

namespace NDma

variable {T : Type} {t : Timing} {pktUid token : Nat} {inner : NDmaInner T}

/-- The slot is freed, and one packet that carries a failure goes to who the slot was used for. -/
def FailureHandled (inner : NDmaInner T) (token : Nat) (res : Exec (Out T × NDmaInner T)) : Prop :=
  ∃ out inner', res = .ok (out, inner') ∧ inner'.availId = inner.availId ++ [token] ∧
    inner'.pktStore = inner.pktStore.set token .none ∧
    match inner.pktStore[token]? with
    | some (.dma dmaPkt) =>
        ∃ e, out = .inbound (dmaPkt.setPayload (dmaPkt.payload.setMode (.error e)))
    | some (.net fromNode toNode) => ∃ pkt e, out = .netInbound pkt ∧
        pkt.payload.mode = .error e ∧ pkt.payload.fromNode = fromNode ∧ pkt.payload.toNode = toNode
    | _ => False

/-- `forward_error` handles every failure of an access whose slot is in use. -/
theorem forwardError_handled {memPkt : Packet MemBus} {slot : NDmaSlot T} (error : AccessError)
    (htop : memPkt.payload.xbarPort.getLast? = some token)
    (hslot : inner.pktStore[token]? = some slot) (hused : slot ≠ .none) :
    FailureHandled inner token (forwardError t pktUid inner memPkt error) := by
  unfold FailureHandled forwardError MemBus.popPort
  rw [htop, hslot]
  simp only [removeSlotAt_eq hslot, bind, Except.bind]
  cases slot with
  | none => exact absurd rfl hused
  | dma dmaPkt => exact ⟨_, _, rfl, rfl, rfl, _, rfl⟩
  | net fromNode toNode => exact ⟨_, _, rfl, rfl, rfl, _, _, rfl, rfl, rfl, rfl⟩

theorem not_handled_of_panic {p : Panic} {res : Exec (Out T × NDmaInner T)} (h : res = .error p) :
    ¬ FailureHandled inner token res := by
  rintro ⟨out, inner', hok, -⟩
  rw [h] at hok
  cases hok

variable [DecidableEq T] {nodeId : T}

/-- A memory response that carries a failure does not get past its check. -/
theorem memLayer_error {memPkt : Packet MemBus} {e : MemBusError}
    (hmode : memPkt.payload.mode = .error e) :
    memLayer t pktUid nodeId inner memPkt = .error ⟨"Error invalid packet"⟩ := by
  have haccept : SlavePort.waitPktEp.accept memPkt = .error (.status e) := by
    unfold SlavePort.waitPktEp.accept
    rw [MemBus.rxCheck_of_error hmode]
  unfold memLayer
  rw [haccept]

/-- Nor does an answer from the network. -/
theorem egressLayer_error {netPkt : Packet (Network T MemBus)} {e : NetworkError}
    (hmode : netPkt.payload.mode = .error e) :
    egressLayer t pktUid nodeId inner netPkt = .error ⟨"Error invalid packet"⟩ := by
  have haccept : SlavePort.waitPktEp.accept netPkt = .error (.status e) := by
    unfold SlavePort.waitPktEp.accept
    rw [Network.rxCheck_of_error hmode]
  unfold egressLayer
  rw [haccept]

/-- Whatever slot a failed access has, its failure is not handled, whether it comes from the memory
or from the network. -/
theorem failure_never_handled {memPkt : Packet MemBus} {netPkt : Packet (Network T MemBus)}
    {e : MemBusError} {e' : NetworkError} (hmem : memPkt.payload.mode = .error e)
    (hnet : netPkt.payload.mode = .error e') :
    ¬ FailureHandled inner token (memLayer t pktUid nodeId inner memPkt) ∧
      ¬ FailureHandled inner token (egressLayer t pktUid nodeId inner netPkt) :=
  ⟨not_handled_of_panic (memLayer_error hmem), not_handled_of_panic (egressLayer_error hnet)⟩

/-- A node whose only slot is used by a transfer of its own. -/
def oneSlotUsed : NDmaInner Bool :=
  ⟨[], [.dma { uid := 0, payload := .new (false, .phys 0) (false, .phys 8) (.simple 1) }]⟩

/-- The answer of its read, with the failure of a stride. -/
def failedRead : Packet MemBus :=
  { uid := 1
    payload :=
      { mode := .error (.pattern (.stride 1 2 3)), cmd := .read, addr := .phys 0
        pattern := .stride 1 2 3, xbarPort := [0] } }

/-- The same failure as an answer from the network. -/
def failedAnswer : Packet (Network Bool MemBus) :=
  { uid := 1
    payload :=
      { mode := .error (.inner (.pattern (.stride 1 2 3))), fromNode := false, toNode := true
        payload := failedRead.payload } }

theorem failure_never_handled_oneSlotUsed :
    ¬ FailureHandled oneSlotUsed 0 (memLayer {} 2 false oneSlotUsed failedRead) ∧
      ¬ FailureHandled oneSlotUsed 0 (egressLayer {} 2 false oneSlotUsed failedAnswer) :=
  failure_never_handled rfl rfl

/-- The token of a slot in use is on top of both stacks, and neither layer handles the failure. -/
theorem failedRead_not_handled :
    (∃ dmaPkt, oneSlotUsed.pktStore[0]? = some (.dma dmaPkt)) ∧
      failedRead.payload.xbarPort.getLast? = some 0 ∧
      failedAnswer.payload.payload.xbarPort.getLast? = some 0 ∧
      ¬ FailureHandled oneSlotUsed 0 (memLayer {} 2 false oneSlotUsed failedRead) ∧
      ¬ FailureHandled oneSlotUsed 0 (egressLayer {} 2 false oneSlotUsed failedAnswer) :=
  ⟨⟨_, rfl⟩, rfl, rfl, not_handled_of_panic (memLayer_error rfl),
    not_handled_of_panic (egressLayer_error rfl)⟩

end NDma

end Ra2m
