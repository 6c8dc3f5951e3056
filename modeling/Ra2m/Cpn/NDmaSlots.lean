/-
The slots of a networked Dma between its layers (`net/dma.rs`).

`request_layer` and `ingress_layer` both take slots with `wait_slot`, the layers that
handle answers give them back with `remove_slot_at`.  All of them reach the pool
through one mutex, and each section that holds it is one step here.  `wait_slot` has
two of them: the first looks whether a slot is free, the second takes one and panics
if there is none.

When a wait on `slot_freed` ends is left open: a layer may look again at any time.
A panic happens with the mutex held, which fails every later section.
-/
import Ra2m.Cpn.NDma
import Ra2m.Lib.Runs

namespace Ra2m

/-- The two layers that take slots. -/
inductive SlotLayer where
  | request
  | ingress
  deriving DecidableEq, Repr

def SlotLayer.other : SlotLayer → SlotLayer
  | request => ingress
  | ingress => request

theorem SlotLayer.eq_or_other (l l' : SlotLayer) : l' = l ∨ l' = l.other := by
  cases l <;> cases l' <;> simp [SlotLayer.other]

theorem SlotLayer.other_ne (l : SlotLayer) : l.other ≠ l := by
  cases l <;> simp [SlotLayer.other]

/-- Where a layer is between two slots it takes. -/
inductive SlotStage where
  /-- In the loop of `wait_slot`, about to look. -/
  | look
  /-- In the loop, on `slot_freed`. -/
  | waiting
  /-- Out of the loop, about to take a slot. -/
  | seen
  /-- Out of `wait_slot`, with nothing stored in the slot yet. -/
  | held (token : Nat)
  deriving DecidableEq, Repr

structure NDmaSlots (T : Type) where
  inner : NDmaInner T
  stage : SlotLayer → SlotStage := fun _ => .look
  panic : Option Panic := none

inductive SlotAct (T : Type) where
  | look (l : SlotLayer)
  | wake (l : SlotLayer)
  | take (l : SlotLayer)
  /-- `dma_to_inner_req` stores the transfer `request_layer` waited for. -/
  | storeDma (pkt : Packet (DmaBus (T × Addr)))
  /-- `ingress_layer` stores where its message is from. -/
  | storeNet (fromNode toNode : T)
  | release (pos : Nat)

namespace NDmaSlots

variable {T : Type}

def init (inflightReq : Nat) : NDmaSlots T := { inner := .new inflightReq }

def setStage (s : NDmaSlots T) (l : SlotLayer) (stage : SlotStage) : NDmaSlots T :=
  { s with stage := Function.update s.stage l stage }

/-- The panic of `wait_slot`. -/
def slotError : Panic := ⟨"Error with slot management"⟩

/-- A layer stores a value in the slot it took. -/
def store (s : NDmaSlots T) (l : SlotLayer) (slot : NDmaSlot T) : Option (NDmaSlots T) :=
  match s.stage l with
  | .held token =>
      match s.inner.setSlot token slot with
      | .error p => some { s with panic := some p }
      | .ok inner => some { s.setStage l .look with inner }
  | _ => none

/-- One section under the mutex, or the end of a wait. -/
def act (s : NDmaSlots T) : SlotAct T → Option (NDmaSlots T)
  | .look l =>
      if s.stage l = .look then
        some (s.setStage l (if s.inner.availId.length = 0 then .waiting else .seen))
      else none
  | .wake l => if s.stage l = .waiting then some (s.setStage l .look) else none
  | .take l =>
      if s.stage l = .seen then
        match s.inner.waitSlot with
        | none => some { s with panic := some slotError }
        | some (token, inner) => some { s.setStage l (.held token) with inner }
      else none
  | .storeDma pkt => s.store .request (.dma pkt)
  | .storeNet fromNode toNode => s.store .ingress (.net fromNode toNode)
  | .release pos =>
      match s.inner.removeSlotAt pos with
      | .error p => some { s with panic := some p }
      | .ok (_, inner) => some { s with inner }

def step (s : NDmaSlots T) (a : SlotAct T) : Option (NDmaSlots T) :=
  if s.panic.isSome then none else s.act a

/-! ### What the sections do -/

@[simp] theorem setStage_inner (s : NDmaSlots T) (l : SlotLayer) (st : SlotStage) :
    (s.setStage l st).inner = s.inner := rfl

@[simp] theorem setStage_panic (s : NDmaSlots T) (l : SlotLayer) (st : SlotStage) :
    (s.setStage l st).panic = s.panic := rfl

@[simp] theorem setStage_stage_self (s : NDmaSlots T) (l : SlotLayer) (st : SlotStage) :
    (s.setStage l st).stage l = st := by
  unfold setStage
  exact Function.update_self l st s.stage

theorem setStage_stage_of_ne (s : NDmaSlots T) {l l' : SlotLayer} (st : SlotStage) (h : l' ≠ l) :
    (s.setStage l st).stage l' = s.stage l' := by
  unfold setStage
  exact Function.update_of_ne h st s.stage

end NDmaSlots

end Ra2m
