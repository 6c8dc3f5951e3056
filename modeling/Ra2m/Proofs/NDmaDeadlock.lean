/-
Nodes whose slots are all waiting.

`request_layer` takes a slot before it has a request, from the pool `ingress_layer`
takes its slots from, and a transfer keeps its slot while its access is at another
node.  A network request can therefore wait at a node that has nothing under way to
free a slot: with one slot each, it is enough that one `request_layer` is idle.

Which steps lead there is read off the state before them: only a `request_layer` that
takes a slot, and an access that leaves for another node, can leave a node closed.
-/
import Ra2m.Proofs.NDmaTransfer

namespace Ra2m

open Runs

namespace NetFlight

variable {T : Type}

/-- The access waits for a slot at the node. -/
def AsksFor (f : NetFlight T) (n : T) : Prop :=
  match f.place with
  | .netReq msg => msg.payload.toNode = n
  | _ => False

/-- The access is at the node's memory, or its answer is on its way to a layer of the node. -/
def WorksAt (f : NetFlight T) (n : T) : Prop :=
  match f.place with
  | .mem m _ => m = n
  | .memResp m _ => m = n
  | .netReq _ => False
  | .netResp msg => msg.payload.fromNode = n

/-- A read's answer, the write of whose transfer is for another node. -/
def WritesAfar (f : NetFlight T) : Prop :=
  f.visit = none ∧ f.place.payload.mode = .response ∧ f.place.payload.cmd = .read ∧
    f.dma.payload.writeTo.1 ≠ f.own

/-- The answer of an access is at one node. -/
theorem AnswerAt.worksAt_iff {f : NetFlight T} {m n : T} (h : f.AnswerAt m) :
    f.WorksAt n ↔ m = n := by
  unfold AnswerAt at h
  unfold WorksAt
  cases hp : f.place with
  | memResp k pkt =>
      rw [hp] at h
      obtain rfl : k = m := h
      exact Iff.rfl
  | netResp msg =>
      rw [hp] at h
      obtain rfl : msg.payload.fromNode = m := h
      exact Iff.rfl
  | mem k pkt | netReq msg =>
      rw [hp] at h
      exact absurd h id

theorem AnswerAt.not_asksFor {f : NetFlight T} {m n : T} (h : f.AnswerAt m) :
    ¬ f.AsksFor n := by
  unfold AnswerAt at h
  unfold AsksFor
  cases hp : f.place with
  | netReq msg =>
      rw [hp] at h
      exact absurd h id
  | mem k pkt => exact id
  | memResp k pkt => exact id
  | netResp msg => exact id

end NetFlight

namespace NDmaNet

variable {T : Type}

/-- A network request waits at the node. -/
def Asked (flights : List (NetFlight T)) (n : T) : Prop := ∃ f ∈ flights, f.AsksFor n

/-- `ingress_layer` has a slot or can take one, or something at the node can still free one. -/
def Open (node : NetNode T) (flights : List (NetFlight T)) (n : T) : Prop :=
  node.inner.availId ≠ [] ∨ node.ingress ≠ none ∨ ∃ f ∈ flights, f.WorksAt n

/-- A network request waits at the node, no slot is free or in `ingress_layer`'s hand, and the node
has no memory access and no answer outstanding that could free one. -/
def Deadlock (s : NDmaNet T) (n : T) : Prop :=
  Asked s.flights n ∧ ¬ Open (s.node n) s.flights n

/-- An answer that becomes a write for another node finds that node open, and leaves its own open if
a request waits there. -/
def WriteSpares (s : NDmaNet T) (i : Nat) : Prop :=
  ∀ f, s.flights[i]? = some f → f.WritesAfar →
    Open (s.node f.dma.payload.writeTo.1) s.flights f.dma.payload.writeTo.1 ∧
      (Asked s.flights f.own → Open (s.node f.own) (s.flights.eraseIdx i) f.own)

/-- While a network request waits at a node, `request_layer` takes a slot there only if another one
is free, or in `ingress_layer`'s hand, or can still be freed; and an access leaves for a node only
while that node is open, and its own stays so. -/
def Spares (s : NDmaNet T) : NetAct T → Prop
  | .reserve n => Asked s.flights n →
      1 < (s.node n).inner.availId.length ∨ (s.node n).ingress ≠ none ∨
        ∃ f ∈ s.flights, f.WorksAt n
  | .request n _ _ dma => dma.payload.readFrom.1 ≠ n →
      Open (s.node dma.payload.readFrom.1) s.flights dma.payload.readFrom.1
  | .memLayer i _ _ => s.WriteSpares i
  | .egressLayer i _ _ _ => s.WriteSpares i
  | _ => True

/-! ### Accesses one by one -/

theorem asked_cons {f : NetFlight T} {rest : List (NetFlight T)} {n : T} :
    Asked (f :: rest) n ↔ f.AsksFor n ∨ Asked rest n := List.exists_mem_cons_iff _ _ _

theorem asked_perm {fs gs : List (NetFlight T)} (h : fs.Perm gs) {n : T} :
    Asked fs n ↔ Asked gs n := by
  unfold Asked
  simp only [h.mem_iff]

theorem open_cons {node : NetNode T} {f : NetFlight T} {rest : List (NetFlight T)} {n : T} :
    Open node (f :: rest) n ↔ f.WorksAt n ∨ Open node rest n := by
  unfold Open
  rw [List.exists_mem_cons_iff]
  exact (or_congr_right or_left_comm).trans or_left_comm

theorem open_perm {node : NetNode T} {fs gs : List (NetFlight T)} (h : fs.Perm gs) {n : T} :
    Open node fs n ↔ Open node gs n := by
  unfold Open
  simp only [h.mem_iff]

/-- A node is open or not by its free slots and the one `ingress_layer` has. -/
theorem open_congr {node node' : NetNode T} {fs : List (NetFlight T)} {n : T}
    (havail : node'.inner.availId = node.inner.availId) (hing : node'.ingress = node.ingress) :
    Open node' fs n ↔ Open node fs n := by
  unfold Open
  rw [havail, hing]

theorem open_of_avail {node : NetNode T} {fs : List (NetFlight T)} {n : T}
    (h : node.inner.availId ≠ []) : Open node fs n := Or.inl h

variable {s s' : NDmaNet T}

/-- No request comes to wait, and no node closes. -/
theorem not_deadlock_of_mono (hno : ∀ n, ¬ s.Deadlock n)
    (hasked : ∀ n, Asked s'.flights n → Asked s.flights n)
    (hopen : ∀ n, Open (s.node n) s.flights n → Open (s'.node n) s'.flights n) :
    ∀ n, ¬ s'.Deadlock n := by
  rintro n ⟨ha, hclosed⟩
  exact hno n ⟨hasked n ha, fun ho => hclosed (hopen n ho)⟩

/-- An access is replaced by one that waits for no slot, and a node that is changed, or loses the
access, is open. -/
theorem not_deadlock_of_replaced (hno : ∀ n, ¬ s.Deadlock n) {f f' : NetFlight T}
    {rest : List (NetFlight T)} (hsplit : s.flights.Perm (f :: rest))
    (hsplit' : s'.flights = f' :: rest) (hasks : ∀ n, ¬ f'.AsksFor n)
    (hopen : ∀ n, Open (s'.node n) s'.flights n ∨ (s'.node n = s.node n ∧ ¬ f.WorksAt n)) :
    ∀ n, ¬ s'.Deadlock n := by
  refine not_deadlock_of_mono hno ?_ ?_
  · intro n hasked
    rw [hsplit', asked_cons] at hasked
    rw [asked_perm hsplit, asked_cons]
    exact Or.inr (hasked.resolve_left (hasks n))
  · intro n ho
    rcases hopen n with ho' | ⟨hnode, hworks⟩
    · exact ho'
    · rw [open_perm hsplit, open_cons] at ho
      rw [hsplit', hnode, open_cons]
      exact Or.inr (ho.resolve_left hworks)

/-- An access is answered by its memory. -/
theorem not_deadlock_of_answered (hno : ∀ n, ¬ s.Deadlock n) {i : Nat} {x : NetXfer T}
    {visit : Option (T × Nat)} {n : T} {pkt pkt' : Packet MemBus}
    (hf : s.flights[i]? = some ⟨x, visit, .mem n pkt⟩)
    (hflights : s'.flights = ⟨x, visit, .memResp n pkt'⟩ :: s.flights.eraseIdx i)
    (hnode : s'.node = s.node) : ∀ n, ¬ s'.Deadlock n := by
  refine not_deadlock_of_replaced hno (DmaRun.perm_eraseIdx hf) hflights (fun _ => id) ?_
  intro m
  by_cases hm : n = m
  · refine Or.inl ?_
    rw [hflights, open_cons]
    exact Or.inl hm
  · exact Or.inr ⟨by rw [hnode], hm⟩

/-- An access is replaced by one that waits at node `v`. -/
theorem not_deadlock_iff_of_sent (hno : ∀ n, ¬ s.Deadlock n) {f f' : NetFlight T} {m v : T}
    {rest : List (NetFlight T)} (hsplit : s.flights.Perm (f :: rest))
    (hsplit' : s'.flights = f' :: rest) (hnode : s'.node = s.node) (hback : f.AnswerAt m)
    (hasks : ∀ n, f'.AsksFor n ↔ v = n) (hworks : ∀ n, ¬ f'.WorksAt n) (hv : v ≠ m) :
    (∀ n, ¬ s'.Deadlock n) ↔
      Open (s.node v) s.flights v ∧ (Asked s.flights m → Open (s.node m) rest m) := by
  have hasked : ∀ n, Asked s'.flights n ↔ v = n ∨ Asked s.flights n := by
    intro n
    rw [hsplit', asked_cons, hasks, asked_perm hsplit, asked_cons]
    exact or_congr_right (or_iff_right hback.not_asksFor).symm
  have hopen : ∀ n, Open (s'.node n) s'.flights n ↔ Open (s.node n) rest n := by
    intro n
    rw [hsplit', hnode, open_cons]
    exact or_iff_right (hworks n)
  have hopen' : ∀ n, n ≠ m → (Open (s.node n) s.flights n ↔ Open (s.node n) rest n) := by
    intro n hn
    rw [open_perm hsplit, open_cons]
    exact or_iff_right (fun hw => hn (hback.worksAt_iff.mp hw).symm)
  unfold Deadlock at hno ⊢
  simp only [hasked, hopen, not_and, not_not] at hno ⊢
  constructor
  · intro h
    exact ⟨(hopen' v hv).mpr (h v (Or.inl rfl)), fun hm => h m (Or.inr hm)⟩
  · rintro ⟨hov, hom⟩ n (rfl | hn)
    · exact (hopen' v hv).mp hov
    · by_cases hnm : n = m
      · rw [hnm] at hn ⊢
        exact hom hn
      · exact (hopen' n hnm).mp (hno n hn)

variable [DecidableEq T] {cap : T → Nat} {uid : T → Nat}

/-- In a deadlock every slot of the node is in the hand of `request_layer`, or held by a transfer of
the node whose access waits or is served at another one. -/
theorem Deadlock.slots {n : T} (hdead : s.Deadlock n) (h : Inv cap s) :
    ∀ token < cap n, (s.node n).request = some token ∨
      ∃ f ∈ s.flights, f.own = n ∧ f.token = token ∧ ¬ f.WorksAt n := by
  intro token htoken
  have hclosed := hdead.2
  unfold Open at hclosed
  push Not at hclosed
  obtain ⟨havail, hing, hworks⟩ := hclosed
  have hmem := (h.pool n).slots.mem_iff.mpr (List.mem_range.mpr htoken)
  unfold NetNode.held at hmem
  rw [havail, hing, List.nil_append, Option.toList_none, List.append_nil] at hmem
  rcases List.mem_append.mp hmem with hreq | hbusy
  · exact Or.inl (Option.mem_toList.mp hreq)
  obtain ⟨e, he, rfl⟩ := List.mem_map.mp hbusy
  obtain ⟨f, hf, hslot⟩ := List.mem_flatMap.mp he
  refine Or.inr ⟨f, hf, ?_⟩
  cases hvisit : f.visit with
  | none =>
      rw [NetFlight.slots_eq hvisit, NetXfer.slots_none] at hslot
      by_cases hown : f.own = n
      · rw [if_pos hown] at hslot
        obtain rfl := List.mem_singleton.mp hslot
        exact ⟨hown, rfl, hworks f hf⟩
      · rw [if_neg hown] at hslot
        cases hslot
  | some v =>
      obtain ⟨m, token'⟩ := v
      by_cases hm : m = n
      · -- An access that visits the node is at its memory.
        refine absurd ?_ (hworks f hf)
        have hlocated := (h.flight f hf).located
        unfold NetFlight.Located NetFlight.server at hlocated
        rw [hvisit] at hlocated
        unfold NetFlight.WorksAt
        cases hp : f.place with
        | mem k pkt | memResp k pkt =>
            rw [hp] at hlocated
            exact hlocated.1.symm.trans hm
        | netReq msg | netResp msg =>
            rw [hp] at hlocated
            exact absurd hlocated.1 (Option.some_ne_none _)
      · rw [NetFlight.slots_eq hvisit, NetXfer.slots_elsewhere _ _ (Ne.symm hm),
          NetXfer.slots_none] at hslot
        by_cases hown : f.own = n
        · rw [if_pos hown] at hslot
          obtain rfl := List.mem_singleton.mp hslot
          exact ⟨hown, rfl, hworks f hf⟩
        · rw [if_neg hown] at hslot
          cases hslot

/-! ### Steps that close a node -/

/-- A node whose free slots and `ingress_layer` are as before is open as before. -/
theorem open_update {n : T} {node : NetNode T}
    (havail : node.inner.availId = (s.node n).inner.availId)
    (hing : node.ingress = (s.node n).ingress) (fs : List (NetFlight T)) (m : T) :
    Open (Function.update s.node n node m) fs m ↔ Open (s.node m) fs m := by
  by_cases hm : m = n
  · rw [hm, Function.update_self]
    exact open_congr havail hing
  · rw [Function.update_of_ne hm]

/-- `request_layer` takes a slot. -/
theorem not_deadlock_iff_of_reserved (hno : ∀ n, ¬ s.Deadlock n) {n : T} {node : NetNode T}
    (hs : s' = { s with node := Function.update s.node n node }) :
    (∀ n, ¬ s'.Deadlock n) ↔ (Asked s.flights n → Open node s.flights n) := by
  subst hs
  unfold Deadlock at hno ⊢
  simp only [not_and, not_not] at hno ⊢
  constructor
  · intro h hn
    have ho := h n hn
    rw [Function.update_self] at ho
    exact ho
  · intro h m hm
    by_cases hmn : m = n
    · rw [hmn] at hm ⊢
      rw [Function.update_self]
      exact h hm
    · rw [Function.update_of_ne hmn]
      exact hno m hm

omit [DecidableEq T] in
/-- A transfer starts with a read at another node. -/
theorem not_deadlock_iff_of_started (hno : ∀ n, ¬ s.Deadlock n) {f : NetFlight T} {v : T}
    (hflights : s'.flights = f :: s.flights)
    (hopen : ∀ fs m, Open (s'.node m) fs m ↔ Open (s.node m) fs m)
    (hasks : ∀ n, f.AsksFor n ↔ v = n) (hworks : ∀ n, ¬ f.WorksAt n) :
    (∀ n, ¬ s'.Deadlock n) ↔ Open (s.node v) s.flights v := by
  have hasked : ∀ n, Asked s'.flights n ↔ v = n ∨ Asked s.flights n := by
    intro n
    rw [hflights, asked_cons, hasks]
  have hopen' : ∀ n, Open (s'.node n) s'.flights n ↔ Open (s.node n) s.flights n := by
    intro n
    rw [hopen, hflights, open_cons]
    exact or_iff_right (hworks n)
  unfold Deadlock at hno ⊢
  simp only [hasked, hopen', not_and, not_not] at hno ⊢
  constructor
  · exact fun h => h v (Or.inl rfl)
  · rintro h n (rfl | hn)
    · exact h
    · exact hno n hn

omit [DecidableEq T] in
/-- Where a place on the way to `dst` is. -/
theorem towards_cases (x : NetXfer T) (visit : Option (T × Nat)) {place : Place T} {n dst : T}
    (hto : place.Towards n dst) :
    (dst = n ∧ (∀ m, ¬ (⟨x, visit, place⟩ : NetFlight T).AsksFor m) ∧
        ∀ m, (⟨x, visit, place⟩ : NetFlight T).WorksAt m ↔ n = m) ∨
      (dst ≠ n ∧ (∀ m, (⟨x, visit, place⟩ : NetFlight T).AsksFor m ↔ dst = m) ∧
        ∀ m, ¬ (⟨x, visit, place⟩ : NetFlight T).WorksAt m) := by
  cases place with
  | mem k pkt =>
      obtain ⟨rfl, hdst, -⟩ := hto
      exact Or.inl ⟨hdst, fun _ => id, fun _ => Iff.rfl⟩
  | netReq msg =>
      obtain ⟨hdst, -, rfl, -⟩ := hto
      exact Or.inr ⟨hdst, fun _ => Iff.rfl, fun _ => id⟩
  | memResp k pkt => exact absurd hto id
  | netResp msg => exact absurd hto id

/-- A transfer starts. -/
theorem not_deadlock_iff_request (hno : ∀ n, ¬ s.Deadlock n) {n : T} {token : Nat}
    {dma : Packet (DmaBus (T × Addr))} {place : Place T}
    (hto : place.Towards n dma.payload.readFrom.1)
    (hs : s' = { s with
      node := Function.update s.node n { s.node n with
        inner := ⟨(s.node n).inner.availId, (s.node n).inner.pktStore.set token (.dma dma)⟩
        request := none }
      flights := ⟨⟨s.taken.length, n, token, dma⟩, none, place⟩ :: s.flights
      taken := s.taken ++ [(n, dma)] }) :
    (∀ n, ¬ s'.Deadlock n) ↔ (dma.payload.readFrom.1 ≠ n →
      Open (s.node dma.payload.readFrom.1) s.flights dma.payload.readFrom.1) := by
  have hopen : ∀ fs m, Open (s'.node m) fs m ↔ Open (s.node m) fs m := by
    rw [hs]
    exact open_update rfl rfl
  rcases towards_cases ⟨s.taken.length, n, token, dma⟩ none hto with
    ⟨hdst, hasks, hworks⟩ | ⟨hdst, hasks, hworks⟩
  · refine ⟨fun _ hne => absurd hdst hne, fun _ => ?_⟩
    rintro m ⟨hasked, hclosed⟩
    rw [show s'.flights = _ from by rw [hs], asked_cons] at hasked
    rw [hopen, show s'.flights = _ from by rw [hs], open_cons] at hclosed
    exact hno m ⟨hasked.resolve_left (hasks m), fun ho => hclosed (Or.inr ho)⟩
  · refine (not_deadlock_iff_of_started hno (by rw [hs]) hopen hasks hworks).trans ?_
    exact ⟨fun h _ => h, fun h => h hdst⟩

/-- A read's answer becomes a write. -/
theorem not_deadlock_iff_written (hno : ∀ n, ¬ s.Deadlock n) {i : Nat} {f : NetFlight T}
    {place : Place T} (hf : s.flights[i]? = some f) (hvisit : f.visit = none)
    (hback : f.AnswerAt f.own) (hmode : f.place.payload.mode = .response)
    (hcmd : f.place.payload.cmd = .read) (hto : place.Towards f.own f.dma.payload.writeTo.1)
    (hs : s' = { s with flights := ⟨f.toNetXfer, none, place⟩ :: s.flights.eraseIdx i }) :
    (∀ n, ¬ s'.Deadlock n) ↔ s.WriteSpares i := by
  have hsplit := DmaRun.perm_eraseIdx hf
  have hsplit' : s'.flights = ⟨f.toNetXfer, none, place⟩ :: s.flights.eraseIdx i := by rw [hs]
  have hnode : s'.node = s.node := by rw [hs]
  unfold WriteSpares
  simp only [hf, Option.some.injEq, forall_eq']
  rcases towards_cases f.toNetXfer none hto with
    ⟨hdst, hasks, hworks⟩ | ⟨hdst, hasks, hworks⟩
  · refine ⟨fun _ hfar => absurd hdst hfar.2.2.2, fun _ => ?_⟩
    refine not_deadlock_of_replaced hno hsplit hsplit' hasks ?_
    intro m
    by_cases hm : f.own = m
    · refine Or.inl ?_
      rw [hsplit', open_cons]
      exact Or.inl ((hworks m).mpr hm)
    · exact Or.inr ⟨by rw [hnode], fun hw => hm (hback.worksAt_iff.mp hw)⟩
  · refine (not_deadlock_iff_of_sent hno hsplit hsplit' hnode hback hasks hworks hdst).trans ?_
    exact ⟨fun h _ => h, fun h => h ⟨hvisit, hmode, hcmd, hdst⟩⟩

omit [DecidableEq T] in
theorem spares_of_handles {a : NetAct T} {i : Nat} (ha : a.handles = some i) :
    s.Spares a ↔ s.WriteSpares i := by
  unfold NetAct.handles at ha
  split at ha
  · obtain rfl := Option.some.inj ha
    exact Iff.rfl
  · obtain rfl := Option.some.inj ha
    exact Iff.rfl
  · cases ha

omit [DecidableEq T] in
/-- Handling an answer that becomes no write for another node. -/
theorem spares_of_not_writesAfar {a : NetAct T} {i : Nat} {f : NetFlight T}
    (ha : a.handles = some i) (hf : s.flights[i]? = some f) (hfar : ¬ f.WritesAfar) :
    s.Spares a := by
  rw [spares_of_handles ha]
  intro g hg hgfar
  obtain rfl := Option.some.inj (hf.symm.trans hg)
  exact absurd hgfar hfar

/-- Only a slot taken by `request_layer` and an access that leaves for another node can close a
node, and they do unless they spare it. -/
theorem Change.not_deadlock_iff {a : NetAct T} (hc : Change s a s') (hno : ∀ n, ¬ s.Deadlock n) :
    (∀ n, ¬ s'.Deadlock n) ↔ s.Spares a := by
  cases hc with
  | reserved n token avail ha hreq havail hs =>
      subst ha
      refine (not_deadlock_iff_of_reserved hno hs).trans ?_
      refine forall_congr' fun _ => or_congr_left ?_
      rw [havail, List.length_append, List.length_singleton, Nat.lt_add_left_iff_pos]
      exact List.length_pos_iff.symm
  | ingressReserved n token avail ha hing havail hs =>
      subst ha
      refine iff_of_true ((not_deadlock_iff_of_reserved hno hs).mpr fun _ => ?_) trivial
      exact Or.inr (Or.inl (Option.some_ne_none token))
  | started n t pktUid token fromUid dma place ha hreq hpat hpay hto hs =>
      subst ha
      exact not_deadlock_iff_request hno hto hs
  | served i t n f ram ha hans hs =>
      subst ha
      refine iff_of_true ?_ trivial
      unfold answer at hans
      split at hans
      · rename_i x visit m pkt hf
        split at hans
        · cases hans
        · obtain ⟨rfl, rfl, -⟩ : m = n ∧ _ = f ∧ _ := by
            simpa only [Option.some.injEq, Prod.mk.injEq] using hans
          exact not_deadlock_of_answered hno hf (by rw [hs]) (by rw [hs])
      · cases hans
  | refused i err x visit n pkt ha hf hs =>
      subst ha
      exact iff_of_true (not_deadlock_of_answered hno hf (by rw [hs]) (by rw [hs])) trivial
  | other n t req ram ha hs =>
      subst ha hs
      exact iff_of_true hno trivial
  | written i f place ha hf hvisit hback hmode hcmd hpay hto hs =>
      rw [spares_of_handles ha]
      exact not_deadlock_iff_written hno hf hvisit hback hmode hcmd hto hs
  | finished i f ha hf hvisit hback hmode hcmd hs =>
      refine iff_of_true ?_ (spares_of_not_writesAfar ha hf ?_)
      · have hsplit := DmaRun.perm_eraseIdx hf
        have hnode : s'.node = Function.update s.node f.own ((s.node f.own).freed f.token) := by
          rw [hs]
        have hflights : s'.flights = s.flights.eraseIdx i := by rw [hs]
        refine not_deadlock_of_mono hno ?_ ?_
        · intro m hasked
          rw [hflights] at hasked
          rw [asked_perm hsplit, asked_cons]
          exact Or.inr hasked
        · intro m ho
          rw [hnode, hflights]
          by_cases hm : m = f.own
          · rw [hm, Function.update_self]
            exact open_of_avail (List.append_ne_nil_of_right_ne_nil _ (List.cons_ne_nil _ _))
          · rw [open_perm hsplit, open_cons] at ho
            rw [Function.update_of_ne hm]
            exact ho.resolve_left fun hw => hm (hback.worksAt_iff.mp hw).symm
      · intro hfar
        have hread := hfar.2.2.1
        rw [hcmd] at hread
        cases hread
  | returned i f n token msg ha hf hvisit hback hmode hresp hown hpay hsid hs =>
      refine iff_of_true ?_ (spares_of_not_writesAfar ha hf ?_)
      · have hnode : s'.node = Function.update s.node n ((s.node n).freed token) := by rw [hs]
        have hflights : s'.flights = ⟨f.toNetXfer, none, .netResp msg⟩ :: s.flights.eraseIdx i := by
          rw [hs]
        refine not_deadlock_of_replaced hno (DmaRun.perm_eraseIdx hf) hflights (fun _ => id) ?_
        intro m
        rw [hnode]
        by_cases hm : m = n
        · rw [hm, Function.update_self]
          exact Or.inl (open_of_avail
            (List.append_ne_nil_of_right_ne_nil _ (List.cons_ne_nil _ _)))
        · rw [Function.update_of_ne hm]
          exact Or.inr ⟨rfl, fun hw => hm (hback.worksAt_iff.mp hw).symm⟩
      · intro hfar
        have hnone := hfar.1
        rw [hvisit] at hnone
        cases hnone
  | admitted i t pktUid f msg pkt' n token pkt ha hf hplace hn hing hpay hsid hs =>
      subst ha
      refine iff_of_true ?_ trivial
      have hflights : s'.flights = ⟨f.toNetXfer, some (n, token), .mem n pkt⟩ ::
          s.flights.eraseIdx i := by rw [hs]
      refine not_deadlock_of_replaced hno (DmaRun.perm_eraseIdx hf) hflights (fun _ => id) ?_
      intro m
      by_cases hm : m = n
      · refine Or.inl ?_
        rw [hflights, open_cons]
        exact Or.inl hm.symm
      · refine Or.inr ⟨?_, ?_⟩
        · rw [hs]
          exact Function.update_of_ne hm _ _
        · unfold NetFlight.WorksAt
          rw [hplace]
          exact id
  | panicked i f e p ha hf hmode hs =>
      refine iff_of_true ?_ (spares_of_not_writesAfar ha hf ?_)
      · exact hs ▸ hno
      · intro hfar
        have hresp := hfar.2.1
        rw [hmode] at hresp
        cases hresp

/-- In a run no node is ever in a deadlock if and only if every slot `request_layer` takes, and
every access that leaves for another node, spares the nodes concerned. -/
theorem never_deadlocked_iff {ram : T → NpRam} {acts : List (NetAct T)} {s₁ : NDmaNet T}
    (hrun : run (step uid) (init cap ram) acts = some s₁) :
    (∀ pre post s, acts = pre ++ post → run (step uid) (init cap ram) pre = some s →
        ∀ n, ¬ s.Deadlock n) ↔
      Along (step uid) Spares (init cap ram) acts := by
  refine holds_iff_along (I := Inv cap) (fun s a s' hI hs => inv_step hI hs)
    (fun s a s' hI hno hs => (hI.change hs).not_deadlock_iff hno) (Inv.init cap ram) ?_ hrun
  rintro n ⟨⟨f, hf, -⟩, -⟩
  cases hf

theorem never_deadlocked_iff_byteMovedAfar :
    ∃ s, run (step fun _ => 0) (init (fun _ => 1) twoBytes) byteMovedAfar = some s ∧
      ((∀ pre post s, byteMovedAfar = pre ++ post →
          run (step fun _ => 0) (init (fun _ => 1) twoBytes) pre = some s →
          ∀ n, ¬ s.Deadlock n) ↔
        Along (step fun _ => 0) Spares (init (fun _ => 1) twoBytes) byteMovedAfar) := by
  obtain ⟨s, hrun, -⟩ := byteMovedAfar_runs
  exact ⟨s, hrun, never_deadlocked_iff hrun⟩

/-- Two nodes with one slot each, both in the hand of a `request_layer` when the first is asked for
a transfer from the memory of the second. -/
def bothReserved : List (NetAct Bool) :=
  [.reserve true, .reserve false,
    .request false {} 1
      { uid := 0, payload := .new (true, .phys 0) (false, .phys 1) (.simple 1) }]

/-- The request waits at the second node, whose only slot is reserved for a transfer nobody has
asked for. -/
theorem bothReserved_deadlock :
    ∃ s, run (step fun _ => 0) (init (fun _ => 1) twoBytes) bothReserved = some s ∧
      s.panic = none ∧ (s.node true).request = some 0 ∧ s.Deadlock true := by
  refine ⟨_, rfl, rfl, rfl, ⟨_, List.mem_cons_self, rfl⟩, ?_⟩
  rintro (havail | hing | ⟨f, hf, hworks⟩)
  · exact havail rfl
  · exact hing rfl
  · obtain rfl := List.mem_singleton.mp hf
    exact hworks

end NDmaNet

end Ra2m
