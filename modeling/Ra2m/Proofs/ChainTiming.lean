/-
A lone packet is due at the same tick in both timing modes.

The tick a packet counts as delivered from is never behind the clock: a process that
waits for it wakes exactly then, and on the way of a packet nothing else moves the clock.
Adding what the stages ahead will append gives the same sum at every point of the way, and
the endpoint waits for the rest of it.  Whether the stages before it have waited makes no
difference.
-/
import Ra2m.Sim.Transit

namespace Ra2m

variable {T : Type}

namespace PktOp

/-- The delays that are still to be appended. -/
def added : List PktOp → Tick
  | [] => 0
  | .appendDelay delay :: todo => delay + added todo
  | _ :: todo => added todo

theorem added_append (ops ops' : List PktOp) : added (ops ++ ops') = added ops + added ops' := by
  induction ops with
  | nil => rw [List.nil_append, added, Nat.zero_add]
  | cons op rest ih =>
      cases op with
      | appendDelay delay =>
          rw [List.cons_append, added, added, ih, Nat.add_assoc]
      | lock => exact ih
      | send => exact ih
      | recv => exact ih
      | accountDelay => exact ih
      | handleDelay => exact ih

theorem added_stages (delays : List Tick) :
    added (delays.map stage).flatten = delays.sum := by
  induction delays with
  | nil => rfl
  | cons d rest ih =>
      rw [List.map_cons, List.flatten_cons, added_append, ih, List.sum_cons]
      rfl

theorem chain_eq (delays : List Tick) :
    chain delays = fwdPkt ++ ((delays.map stage).flatten ++ waitPktEp) := by
  rw [chain, segments, List.flatten_cons, List.flatten_append, List.flatten_singleton]

theorem added_chain (delays : List Tick) : added (chain delays) = delays.sum := by
  have hfwd : added fwdPkt = 0 := rfl
  have hep : added waitPktEp = 0 := rfl
  rw [chain_eq, added_append, added_append, added_stages, hfwd, hep, Nat.zero_add, Nat.add_zero]

/-- The way ends with the wait of the endpoint. -/
theorem getLast?_chain (delays : List Tick) : (chain delays).getLast? = some handleDelay := by
  rw [chain_eq, List.getLast?_append_of_ne_nil _ (by simp [waitPktEp]),
    List.getLast?_append_of_ne_nil _ (by simp [waitPktEp])]
  rfl

end PktOp

namespace Packet

/-- A process that waits for a timed packet is woken when it is ready. -/
theorem wakeTick_handleDelay {pkt : Packet T} {now : Tick} (htimed : pkt.timed = true)
    (hnow : now ≤ pkt.readyAt) :
    (pkt.handleDelay now).map (wakeTick now) =
      if now = pkt.readyAt then none else some pkt.readyAt := by
  unfold handleDelay
  rw [htimed, Bool.true_and]
  by_cases heq : now = pkt.readyAt
  · rw [if_pos heq, if_neg (by simp [heq])]
    rfl
  · have hlt : now < pkt.readyAt := Nat.lt_of_le_of_ne hnow heq
    have hwake : wakeTick now pkt.readyAt = pkt.readyAt := Nat.max_eq_right hlt
    rw [if_neg heq, if_pos (by simpa using hlt), Option.map_some, hwake]

end Packet

namespace Transit

/-- What holds of a packet on its way, with the tick it is due at. -/
structure OnTime (due : Tick) (s : Transit T) : Prop where
  timed : s.pkt.timed = true
  /-- The packet is not late. -/
  ahead : s.now ≤ s.pkt.readyAt
  total : s.pkt.readyAt + PktOp.added s.todo = due
  wake : ∀ w, s.wake = some w → w = s.pkt.readyAt
  /-- The endpoint is ahead, or its wait is over when the packet is ready. -/
  last : s.todo.getLast? = some .handleDelay ∨
    s.todo = [] ∧ (s.wake = none → s.now = s.pkt.readyAt)

namespace OnTime

variable {due : Tick} {s s' : Transit T}

theorem start {mode : TimingMode} {now : Tick} {uid : Nat} {payload : T} {options : PacketOptions}
    {delays : List Tick} (htimed : options.timed = true) :
    (Transit.start mode now uid payload options delays).OnTime
      (now + options.delay + delays.sum) where
  timed := htimed
  ahead := Nat.le_add_right now options.delay
  total := by
    change now + options.delay + PktOp.added (PktOp.chain delays) = _
    rw [PktOp.added_chain]
  wake := by
    intro w hw
    cases hw
  last := .inl (PktOp.getLast?_chain delays)

/-- Of what is left after an operation, the wait of the endpoint is the last. -/
theorem rest_getLast? {op : PktOp} {todo : List PktOp} (h : s.OnTime due)
    (htodo : s.todo = op :: todo)
    (hop : op ≠ .handleDelay) : todo.getLast? = some .handleDelay := by
  rcases h.last with hlast | ⟨hnil, -⟩
  · rw [htodo] at hlast
    cases todo with
    | nil => exact absurd (Option.some.inj hlast) hop
    | cons op' rest =>
        rw [List.getLast?_cons_cons] at hlast
        exact hlast
  · rw [htodo] at hnil
    cases hnil

/-- An operation before the last, that makes the packet no earlier and waits for nothing else. -/
theorem next {op : PktOp} {todo : List PktOp} {pkt : Packet T} {tick : Option Tick}
    (h : s.OnTime due) (htodo : s.todo = op :: todo) (hop : op ≠ .handleDelay)
    (htimed : pkt.timed = true) (hready : s.pkt.readyAt ≤ pkt.readyAt)
    (htotal : pkt.readyAt + PktOp.added todo = due)
    (hwake : ∀ w, tick.map (wakeTick s.now) = some w → w = pkt.readyAt) :
    (s.await pkt todo tick).OnTime due :=
  ⟨htimed, h.ahead.trans hready, htotal, hwake, .inl (h.rest_getLast? htodo hop)⟩

/-- A wait for the packet is a wait until it is ready. -/
theorem wake_handleDelay (h : s.OnTime due) (w : Tick)
    (hw : (s.pkt.handleDelay s.now).map (wakeTick s.now) = some w) : w = s.pkt.readyAt := by
  rw [Packet.wakeTick_handleDelay h.timed h.ahead] at hw
  split at hw
  · cases hw
  · exact (Option.some.inj hw).symm

theorem poll (h : s.OnTime due) (hs : s.poll = some s') : s'.OnTime due := by
  have htotal := h.total
  unfold Transit.poll at hs
  split at hs
  · cases hs
  · rename_i todo htodo
    rw [htodo] at htotal
    obtain rfl := Option.some.inj hs
    exact h.next htodo (by decide) h.timed (Nat.le_refl _) htotal (by intro _ hw; cases hw)
  · rename_i todo htodo
    rw [htodo] at htotal
    obtain rfl := Option.some.inj hs
    exact h.next htodo (by decide) h.timed (Nat.le_refl _) htotal (by intro _ hw; cases hw)
  · rename_i todo htodo
    rw [htodo] at htotal
    obtain rfl := Option.some.inj hs
    exact h.next htodo (by decide) h.timed (Nat.le_refl _) htotal (by intro _ hw; cases hw)
  · rename_i delay todo htodo
    rw [htodo, PktOp.added, ← Nat.add_assoc] at htotal
    obtain rfl := Option.some.inj hs
    exact h.next htodo (by simp) h.timed (Nat.le_add_right _ delay) htotal
      (by intro _ hw; cases hw)
  · rename_i todo htodo
    rw [htodo] at htotal
    obtain rfl := Option.some.inj hs
    cases hmode : s.mode with
    | lt =>
        exact h.next htodo (by decide) h.timed (Nat.le_refl _) htotal (by intro _ hw; cases hw)
    | «at» => exact h.next htodo (by decide) h.timed (Nat.le_refl _) htotal h.wake_handleDelay
  · rename_i todo htodo
    rw [htodo] at htotal
    obtain rfl := Option.some.inj hs
    refine ⟨h.timed, h.ahead, htotal, h.wake_handleDelay, ?_⟩
    rcases h.last with hlast | ⟨hnil, -⟩
    · rw [htodo] at hlast
      cases todo with
      | nil =>
          refine .inr ⟨rfl, fun hnone => ?_⟩
          change (s.pkt.handleDelay s.now).map (wakeTick s.now) = none at hnone
          rw [Packet.wakeTick_handleDelay h.timed h.ahead] at hnone
          split at hnone
          · rename_i heq
            exact heq
          · cases hnone
      | cons op rest =>
          rw [List.getLast?_cons_cons] at hlast
          exact .inl hlast
    · rw [htodo] at hnil
      cases hnil

theorem step (h : s.OnTime due) {a : TransitAct} (hs : s.step a = some s') : s'.OnTime due := by
  cases a with
  | poll =>
      simp only [Transit.step] at hs
      split at hs
      · exact h.poll hs
      · cases hs
  | wake =>
      simp only [Transit.step] at hs
      split at hs
      · rename_i w hw
        split at hs
        · rename_i hdue
          obtain rfl := Option.some.inj hs
          refine ⟨h.timed, h.ahead, h.total, (by intro _ hnone; cases hnone), ?_⟩
          rcases h.last with hlast | ⟨hnil, -⟩
          · exact .inl hlast
          · refine .inr ⟨hnil, fun _ => ?_⟩
            exact Nat.le_antisymm h.ahead ((h.wake w hw) ▸ hdue)
        · cases hs
      · cases hs
  | advance t =>
      simp only [Transit.step] at hs
      split at hs
      · rename_i w hw
        split at hs
        · rename_i ht
          obtain rfl := Option.some.inj hs
          refine ⟨h.timed, (h.wake w hw) ▸ ht.2, h.total, h.wake, ?_⟩
          rcases h.last with hlast | ⟨hnil, -⟩
          · exact .inl hlast
          · exact .inr ⟨hnil, fun hnone => absurd (hw.symm.trans hnone) (by simp)⟩
        · cases hs
      · cases hs

/-- Once the endpoint has returned the packet, it is the tick it was due at. -/
theorem now_eq (h : s.OnTime due) (hret : s.Returned) : s.now = due := by
  obtain ⟨htodo, hwake⟩ := hret
  have htotal := h.total
  rw [htodo, PktOp.added, Nat.add_zero] at htotal
  rcases h.last with hlast | ⟨-, hready⟩
  · rw [htodo] at hlast
    cases hlast
  · rw [hready hwake, htotal]

end OnTime

end Transit

end Ra2m
