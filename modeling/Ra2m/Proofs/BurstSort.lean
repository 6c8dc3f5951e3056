/-
Which entry of a burst answers which request.

The list of a burst is sorted by uid whatever the order of the arrivals: it is the one
permutation of them in which the uids increase, and each packet keeps its own status.
An entry answers the request at its place when the requests come in the order of their
uids too.  Requests made one after another do, unless the counter the uids come from
has wrapped around between two of them.
-/
import Mathlib.Data.List.Pairwise
import Ra2m.Sim.WaitBurst

namespace Ra2m

variable {T ε E : Type}

/-! ### Any order of arrival -/

/-- What a wait for a burst of `n` packets returns: the packets with what is kept of each, sorted by
uid and the same for every order of arrival. -/
def ReturnsSorted (wait : Nat → List (Packet T) → Option (List E × List (Packet T)))
    (pair : Packet T → E) (key : E → Nat) : Prop :=
  ∀ n rx, n ≤ rx.length → ((rx.take n).map Packet.uid).Nodup →
    ∃ l, wait n rx = some (l, rx.drop n) ∧ l.Perm ((rx.take n).map pair) ∧
      (l.Pairwise fun a b => key a < key b) ∧
      ∀ rx', n ≤ rx'.length → (rx'.take n).Perm (rx.take n) → wait n rx' = some (l, rx'.drop n)

section

variable {pair : Packet T → E} {key : E → Nat} (hkey : ∀ p, key (pair p) = p.uid)

include hkey

theorem recvBurst_increasing {n : Nat} (rx : List (Packet T))
    (hnew : ((rx.take n).map Packet.uid).Nodup) :
    (Cursor.insertAll key ((rx.take n).map pair) []).Pairwise fun a b => key a < key b := by
  refine Cursor.insertAll_increasing List.Pairwise.nil ?_
  rw [List.nil_append, List.pairwise_map]
  simp only [hkey]
  exact List.pairwise_map.mp hnew

/-- A burst is returned sorted, and the same for every order of its arrivals. -/
theorem recvBurst_sorted : ReturnsSorted (SlavePort.recvBurst pair key) pair key := by
  intro n rx hlen hnew
  have hperm : ∀ arrived, (Cursor.insertAll key arrived []).Perm arrived :=
    fun arrived => Cursor.insertAll_perm arrived []
  refine ⟨_, if_pos hlen, hperm _, recvBurst_increasing hkey rx hnew, ?_⟩
  intro rx' hlen' harrival
  have hnew' : ((rx'.take n).map Packet.uid).Nodup :=
    ((harrival.map Packet.uid).nodup_iff).mpr hnew
  unfold SlavePort.recvBurst
  rw [if_pos hlen', Cursor.eq_of_increasing
    ((hperm _).trans ((harrival.map pair).trans (hperm _).symm))
    (recvBurst_increasing hkey rx' hnew') (recvBurst_increasing hkey rx hnew)]

end

/-! ### Bursts made in order -/

/-- The packets of a vector were made one after another from a counter that stood at `gen`: `made`
says how many others were made before each, and no uid came up twice. -/
structure MadeInOrder (gen : UInt64) (made : List Nat) (vec : List (Packet T)) : Prop where
  uids : vec.map Packet.uid = made.map (Packet.uidAt gen)
  order : made.Pairwise (· < ·)
  recent : ∀ i ∈ made, ∀ j ∈ made, j < i + 2 ^ 64

/-- The counter does not wrap around between two packets of the vector. -/
def SameLap (gen : UInt64) (made : List Nat) : Prop :=
  ∀ i ∈ made, ∀ j ∈ made, (gen.toNat + i) / 2 ^ 64 = (gen.toNat + j) / 2 ^ 64

/-- Every entry answers the request at its place, for every order in which the responses come. -/
def AnswersInOrder (wait : Nat → List (Packet T) → Option (List E × List (Packet T)))
    (key : E → Nat) (vec : List (Packet T)) : Prop :=
  ∀ (rx : List (Packet T)) l rest,
    ((rx.take vec.length).map Packet.uid).Perm (vec.map Packet.uid) →
    wait vec.length rx = some (l, rest) → l.map key = vec.map Packet.uid

namespace MadeInOrder

variable {gen : UInt64} {made : List Nat} {vec : List (Packet T)}

theorem uidAt_lt_iff {i j : Nat} (hlt : i < j) (hrecent : j < i + 2 ^ 64) :
    Packet.uidAt gen i < Packet.uidAt gen j ↔
      (gen.toNat + i) / 2 ^ 64 = (gen.toNat + j) / 2 ^ 64 := by
  rw [Packet.uidAt_eq, Packet.uidAt_eq]
  omega

/-- The uids of the vector increase exactly when the counter does not wrap around. -/
theorem increasing_iff (h : MadeInOrder gen made vec) :
    (vec.map Packet.uid).Pairwise (· < ·) ↔ SameLap gen made := by
  rw [h.uids, List.pairwise_map]
  constructor
  · intro hinc
    have : Std.Symm fun i j => (gen.toNat + i) / 2 ^ 64 = (gen.toNat + j) / 2 ^ 64 :=
      ⟨fun _ _ heq => heq.symm⟩
    have hlap : made.Pairwise fun i j => (gen.toNat + i) / 2 ^ 64 = (gen.toNat + j) / 2 ^ 64 := by
      refine (hinc.and h.order).imp_of_mem ?_
      rintro i j hi hj ⟨huid, hlt⟩
      exact (uidAt_lt_iff hlt (h.recent i hi j hj)).mp huid
    intro i hi j hj
    exact List.Pairwise.forall_of_forall
      (R := fun i j => (gen.toNat + i) / 2 ^ 64 = (gen.toNat + j) / 2 ^ 64) (fun _ _ => rfl) hlap
      hi hj
  · intro hlap
    refine h.order.imp_of_mem ?_
    intro i j hi hj hlt
    exact (uidAt_lt_iff hlt (h.recent i hi j hj)).mpr (hlap i hi j hj)

theorem nodup (h : MadeInOrder gen made vec) : (vec.map Packet.uid).Nodup := by
  rw [h.uids]
  unfold List.Nodup
  rw [List.pairwise_map]
  refine h.order.imp_of_mem ?_
  intro i j hi hj hlt
  have hrecent := h.recent i hi j hj
  rw [Packet.uidAt_eq, Packet.uidAt_eq]
  omega

theorem answers_iff (h : MadeInOrder gen made vec) {pair : Packet T → E} {key : E → Nat}
    (hkey : ∀ p, key (pair p) = p.uid) :
    AnswersInOrder (SlavePort.recvBurst pair key) key vec ↔ SameLap gen made := by
  rw [← h.increasing_iff]
  constructor
  · intro hans
    have htake : vec.take vec.length = vec := List.take_length
    obtain ⟨l, hl, -, hinc, -⟩ := recvBurst_sorted hkey vec.length vec (Nat.le_refl _)
      (by rw [htake]; exact h.nodup)
    rw [← hans vec l _ (by rw [htake]) hl, List.pairwise_map]
    exact hinc
  · intro hinc rx l rest hperm hrecv
    have hlen : vec.length ≤ rx.length := by
      have := hperm.length_eq
      simp only [List.length_map, List.length_take] at this
      omega
    obtain ⟨l', hl', hl'perm, hl'inc, -⟩ := recvBurst_sorted hkey vec.length rx hlen
      (hperm.nodup_iff.mpr h.nodup)
    obtain ⟨rfl, -⟩ := Prod.mk.inj (Option.some.inj (hl'.symm.trans hrecv))
    have hkeys : (((rx.take vec.length).map pair).map key) =
        (rx.take vec.length).map Packet.uid := by
      rw [List.map_map]
      exact List.map_congr_left fun p _ => hkey p
    have hsame : (l'.map key).Perm (vec.map Packet.uid) := by
      refine (hl'perm.map key).trans ?_
      rw [hkeys]
      exact hperm
    exact hsame.eq_of_pairwise (fun _ _ _ _ hab hba => absurd hab hba.asymm)
      (List.pairwise_map.mpr hl'inc) hinc

end MadeInOrder

/-- **A burst comes back sorted.**  Both calls return the packets received in the order of their
uids, each with its own status, whatever the order of arrival; and the entries answer the requests
of a vector made in order, each at its place, exactly when the uid counter does not wrap around
between them. -/
theorem burst_sorted_iff (T ε : Type) [RxStatus T ε] :
    ReturnsSorted (SlavePort.waitPktBurst (T := T)) id Packet.uid ∧
      ReturnsSorted (SlavePort.waitPktBurstEpByCursor (T := T) (ε := ε))
        (fun pkt => (pkt, SlavePort.checkStatus pkt)) (fun e => e.1.uid) ∧
      ∀ (gen : UInt64) (made : List Nat) (vec : List (Packet T)), MadeInOrder gen made vec →
        ((AnswersInOrder SlavePort.waitPktBurst Packet.uid vec ∧
            AnswersInOrder (SlavePort.waitPktBurstEpByCursor (ε := ε)) (fun e => e.1.uid) vec) ↔
          SameLap gen made) := by
  refine ⟨?_, ?_, ?_⟩
  · exact recvBurst_sorted fun _ => rfl
  · exact recvBurst_sorted fun _ => rfl
  · intro gen made vec h
    have hpkt : AnswersInOrder SlavePort.waitPktBurst Packet.uid vec ↔ SameLap gen made :=
      h.answers_iff fun _ => rfl
    have hep : AnswersInOrder (SlavePort.waitPktBurstEpByCursor (ε := ε)) (fun e => e.1.uid) vec ↔
        SameLap gen made := h.answers_iff fun _ => rfl
    exact ⟨fun hboth => hpkt.mp hboth.1, fun hlap => ⟨hpkt.mpr hlap, hep.mpr hlap⟩⟩

/-- Two requests made while the counter wraps around: the first entry answers the second one. -/
theorem wrapped_swapped :
    MadeInOrder 18446744073709551615 [0, 1]
        [({ uid := 18446744073709551615, payload := () } : Packet Unit),
          { uid := 0, payload := () }] ∧
      ¬ AnswersInOrder SlavePort.waitPktBurst Packet.uid
        [({ uid := 18446744073709551615, payload := () } : Packet Unit),
          { uid := 0, payload := () }] := by
  refine ⟨⟨rfl, by decide, by decide⟩, ?_⟩
  intro hans
  have hrecv : SlavePort.waitPktBurst 2
      [({ uid := 18446744073709551615, payload := () } : Packet Unit),
        { uid := 0, payload := () }] =
      some ([{ uid := 0, payload := () }, { uid := 18446744073709551615, payload := () }],
        []) := by
    unfold SlavePort.waitPktBurst SlavePort.recvBurst
    simp [Cursor.insertAll, Cursor.insertOrdered_front]
  have huids := hans _ _ _ (List.Perm.refl _) hrecv
  exact absurd huids (by decide)

end Ra2m
