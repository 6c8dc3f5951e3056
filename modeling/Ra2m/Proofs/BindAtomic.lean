/-
When a bind that fails changes nothing.

A bind is one or two half-duplex binds, each a `Link` of a sending and a receiving
endpoint.  Three things come of a link: it is refused before anything is connected, it
connects both endpoints, or the sending endpoint takes the channel and the receiving one
does not.  A vector grows before any of it.  So what a failed bind leaves is the state
before only if no vector took part and it was the first link that was refused;
`bind_atomic_iff` says so, with the conditions on the endpoints written out.
-/
import Ra2m.Lib.ExceptMap
import Ra2m.Sim.Bind

namespace Ra2m

/-- Two endpoints to connect, and the payload type of the channel for them. -/
structure Link (Ty : Type) where
  ty : Ty
  tx : Nat
  rx : Nat

namespace Bindings

variable {Ty : Type} {st st' : Bindings Ty} {l : Link Ty}

/-- Every endpoint is bound as it was, to the same channel, and every vector is as long. -/
structure Unchanged (st st' : Bindings Ty) : Prop where
  tx : ∀ i, (st'.tx i).channel = (st.tx i).channel
  rx : ∀ i, (st'.rx i).channel = (st.rx i).channel
  vec : ∀ v, (st'.vec v).used = (st.vec v).used

abbrev BindResult (Ty : Type) := Exec (Except BindError Unit × Bindings Ty)

/-- If the bind returns an error it changed nothing. -/
def Atomic (st : Bindings Ty) (r : BindResult Ty) : Prop :=
  ∀ err st', r = .ok (.error err, st') → Unchanged st st'

/-- The bind does not return an error. -/
def NoError (r : BindResult Ty) : Prop := ∀ err st', r ≠ .ok (.error err, st')

theorem NoError.atomic {r : BindResult Ty} (h : NoError r) : Atomic st r :=
  fun err st' hr => absurd hr (h err st')

/-! ### One link -/

/-- The endpoint is unbound and of the channel's type. -/
def Takes (ep : Endpoint Ty) (ty : Ty) : Prop := ep.channel = none ∧ ty = ep.ty

/-- The channel has no capacity, which is a panic. -/
def Panics (st : Bindings Ty) (l : Link Ty) : Prop := st.inflight l.tx l.rx = some 0

/-- Both endpoints are connected. -/
def Mates (st : Bindings Ty) (l : Link Ty) : Prop :=
  (∃ n, st.inflight l.tx l.rx = some (n + 1)) ∧ Takes (st.tx l.tx) l.ty ∧ Takes (st.rx l.rx) l.ty

/-- The link fails before anything is connected; a handle without the endpoint makes none. -/
def Refused (st : Bindings Ty) : Option (Link Ty) → Prop
  | none => True
  | some l =>
      st.inflight l.tx l.rx = none ∨
        (∃ n, st.inflight l.tx l.rx = some (n + 1)) ∧ ¬ Takes (st.tx l.tx) l.ty

/-- Only the sending endpoint is connected. -/
def HalfConnects (st : Bindings Ty) (l : Link Ty) : Prop :=
  (∃ n, st.inflight l.tx l.rx = some (n + 1)) ∧ Takes (st.tx l.tx) l.ty ∧ ¬ Takes (st.rx l.rx) l.ty

/-- The state with both endpoints of the link on a new channel of capacity `n`. -/
def connected (st : Bindings Ty) (l : Link Ty) (n : Nat) : Bindings Ty :=
  let ch : ChannelEnd Ty := ⟨st.nextChannel, l.ty, n⟩
  { st with
    tx := Function.update st.tx l.tx { st.tx l.tx with channel := some ch }
    rx := Function.update st.rx l.rx { st.rx l.rx with channel := some ch }
    nextChannel := st.nextChannel + 1 }

/-- The state after the link. -/
def mated (st : Bindings Ty) (l : Link Ty) : Bindings Ty :=
  st.connected l ((st.inflight l.tx l.rx).getD 0)

/-- What a half-duplex bind does with its link. -/
inductive Outcome (st : Bindings Ty) : Option (Link Ty) → BindResult Ty → Prop
  | panics {l : Link Ty} {e : Panic} (h : st.Panics l) : Outcome st (some l) (.error e)
  | refused {l : Option (Link Ty)} {err : BindError} {st' : Bindings Ty} (h : st.Refused l)
      (htx : st'.tx = st.tx) (hrx : st'.rx = st.rx) (hvec : st'.vec = st.vec) :
      Outcome st l (.ok (.error err, st'))
  | half {l : Link Ty} {err : BindError} {st' : Bindings Ty} (h : st.HalfConnects l)
      (hbound : (st'.tx l.tx).channel ≠ none)
      (hkeep : ∀ i, (st.tx i).channel ≠ none → (st'.tx i).channel ≠ none)
      (hvec : st'.vec = st.vec) : Outcome st (some l) (.ok (.error err, st'))
  | mates {l : Link Ty} (h : st.Mates l) : Outcome st (some l) (.ok (.ok (), st.mated l))

theorem connect_of_takes [DecidableEq Ty] {ep : Endpoint Ty} {ty : Ty} (h : Takes ep ty)
    (id capacity : Nat) (err : BindError) : ep.connect (some ⟨id, ty, capacity⟩) none err =
      .ok { ep with channel := some ⟨id, ty, capacity⟩ } := by
  unfold Endpoint.connect Endpoint.isBinded
  rw [h.1, if_neg (by simp)]
  simp only [if_pos h.2]

theorem connect_of_not_takes [DecidableEq Ty] {ep : Endpoint Ty} {ty : Ty} (h : ¬ Takes ep ty)
    (id capacity : Nat) (err : BindError) :
    ∃ e, ep.connect (some ⟨id, ty, capacity⟩) none err = .error e := by
  unfold Endpoint.connect Endpoint.isBinded
  cases hch : ep.channel with
  | some ch => exact ⟨_, rfl⟩
  | none =>
      have hty : ¬ ty = ep.ty := fun hty => h ⟨hch, hty⟩
      simp only [Option.isSome_none, Bool.false_eq_true, if_false, if_neg hty]
      exact ⟨_, rfl⟩

theorem connectChannel_outcome [DecidableEq Ty] (st : Bindings Ty) (l : Link Ty) :
    Outcome st (some l) (st.connectChannel l.ty l.tx l.rx) := by
  unfold connectChannel
  cases hcap : st.inflight l.tx l.rx with
  | none => exact .refused (Or.inl hcap) rfl rfl rfl
  | some c =>
      cases c with
      | zero => exact .panics hcap
      | succ n =>
          unfold Endpoint.connectTx Endpoint.connectRx
          by_cases htx : Takes (st.tx l.tx) l.ty
          · simp only [connect_of_takes htx]
            by_cases hrx : Takes (st.rx l.rx) l.ty
            · simp only [connect_of_takes hrx]
              have hend : Outcome st (some l) _ := .mates ⟨⟨n, hcap⟩, htx, hrx⟩
              unfold mated at hend
              rw [hcap] at hend
              exact hend
            · obtain ⟨err, herr⟩ := connect_of_not_takes hrx st.nextChannel (n + 1)
                (.handle (st.rx l.rx).fullName false true)
              simp only [Option.isSome_none, Option.isSome_some, herr]
              refine .half ⟨⟨n, hcap⟩, htx, hrx⟩ ?_ ?_ rfl
              · simp
              · intro i hi
                by_cases hi' : i = l.tx
                · rw [hi']
                  simp
                · simpa [Function.update_of_ne hi'] using hi
          · obtain ⟨err, herr⟩ := connect_of_not_takes htx st.nextChannel (n + 1)
              (.handle (st.tx l.tx).fullName true false)
            simp only [Option.isSome_none, Option.isSome_some, herr]
            exact .refused (Or.inr ⟨⟨n, hcap⟩, htx⟩) rfl rfl rfl

/-! ### The links of a bind -/

def masterLink (st : Bindings Ty) (tx : Nat) (h : PortHandle) : Option (Link Ty) :=
  h.rx?.map fun rx => ⟨(st.tx tx).ty, tx, rx⟩

def slaveLink (st : Bindings Ty) (rx : Nat) (h : PortHandle) : Option (Link Ty) :=
  h.tx?.map fun tx => ⟨(st.rx rx).ty, tx, rx⟩

/-- The half-duplex binds a port makes, in order. -/
def links (st : Bindings Ty) : Port → PortHandle → List (Option (Link Ty))
  | .master tx, h => [st.masterLink tx h]
  | .slave rx, h => [st.slaveLink rx h]
  | .reqResp tx rx, h | .dispatch tx rx, h => [st.masterLink tx h, st.slaveLink rx h]

theorem bindMaster_outcome [DecidableEq Ty] (st : Bindings Ty) (tx : Nat) (h : PortHandle) :
    Outcome st (st.masterLink tx h) (st.bindMaster tx h) := by
  unfold masterLink bindMaster
  cases h.rx? with
  | none => exact .refused trivial rfl rfl rfl
  | some rx => exact connectChannel_outcome st ⟨(st.tx tx).ty, tx, rx⟩

theorem bindSlave_outcome [DecidableEq Ty] (st : Bindings Ty) (rx : Nat) (h : PortHandle) :
    Outcome st (st.slaveLink rx h) (st.bindSlave rx h) := by
  unfold slaveLink bindSlave
  cases h.tx? with
  | none => exact .refused trivial rfl rfl rfl
  | some tx => exact connectChannel_outcome st ⟨(st.rx rx).ty, tx, rx⟩

/-- The links of a list made one after another, up to the first that fails. -/
inductive LinksRun : Bindings Ty → List (Option (Link Ty)) → BindResult Ty → Prop
  | done {st : Bindings Ty} : LinksRun st [] (.ok (.ok (), st))
  | panics {st : Bindings Ty} {l : Link Ty} {rest : List (Option (Link Ty))} {e : Panic}
      (h : st.Panics l) : LinksRun st (some l :: rest) (.error e)
  | fails {st st' : Bindings Ty} {l : Option (Link Ty)} {rest : List (Option (Link Ty))}
      {err : BindError} (h : Outcome st l (.ok (.error err, st'))) :
      LinksRun st (l :: rest) (.ok (.error err, st'))
  | mates {st : Bindings Ty} {l : Link Ty} {rest : List (Option (Link Ty))} {r : BindResult Ty}
      (h : st.Mates l) (hrest : LinksRun (st.mated l) rest r) : LinksRun st (some l :: rest) r

theorem Outcome.run {l : Option (Link Ty)} {r : BindResult Ty} (h : Outcome st l r) :
    LinksRun st [l] r := by
  cases h with
  | panics h => exact .panics h
  | refused h htx hrx hvec => exact .fails (.refused h htx hrx hvec)
  | half h hbound hkeep hvec => exact .fails (.half h hbound hkeep hvec)
  | mates h => exact .mates h .done

/-- A link leaves the types of the endpoints. -/
theorem mated_ty (st : Bindings Ty) (l : Link Ty) (i : Nat) :
    ((st.mated l).rx i).ty = (st.rx i).ty := by
  unfold mated connected
  by_cases hi : i = l.rx
  · rw [hi]
    simp
  · simp [Function.update_of_ne hi]

theorem bindBoth_run [DecidableEq Ty] (st : Bindings Ty) (tx rx : Nat) (h : PortHandle) :
    LinksRun st [st.masterLink tx h, st.slaveLink rx h] (st.bindBoth tx rx h) := by
  have hfst := bindMaster_outcome st tx h
  unfold bindBoth
  generalize hl : st.masterLink tx h = l at hfst
  generalize hr : st.bindMaster tx h = r at hfst
  cases hfst with
  | panics h => exact .panics h
  | refused h htx hrx hvec => exact .fails (.refused h htx hrx hvec)
  | half h hbound hkeep hvec => exact .fails (.half h hbound hkeep hvec)
  | @mates l hmates =>
      have hsnd := (bindSlave_outcome (st.mated l) rx h).run
      have hlink : (st.mated l).slaveLink rx h = st.slaveLink rx h := by
        unfold slaveLink
        rw [mated_ty]
      rw [hlink] at hsnd
      exact .mates hmates hsnd

theorem bindPort_run [DecidableEq Ty] (st : Bindings Ty) (p : Port) (h : PortHandle) :
    LinksRun st (st.links p h) (st.bindPort p h) := by
  cases p with
  | master tx => exact (bindMaster_outcome st tx h).run
  | slave rx => exact (bindSlave_outcome st rx h).run
  | reqResp tx rx | dispatch tx rx => exact bindBoth_run st tx rx h

/-! ### What a failed bind leaves -/

/-- Every link goes through, in the state the ones before it leave, or is a panic. -/
def AllMate : Bindings Ty → List (Option (Link Ty)) → Prop
  | _, [] => True
  | _, none :: _ => False
  | st, some l :: rest => st.Panics l ∨ st.Mates l ∧ AllMate (st.mated l) rest

/-- The first link is refused before anything is connected. -/
def FirstRefused (st : Bindings Ty) (ls : List (Option (Link Ty))) : Prop :=
  ∃ l, ls.head? = some l ∧ st.Refused l

variable {ls : List (Option (Link Ty))} {r : BindResult Ty}

theorem not_refused_of_mates (h : st.Mates l) : ¬ st.Refused (some l) := by
  obtain ⟨⟨n, hcap⟩, htx, -⟩ := h
  rintro (hnone | ⟨-, hnot⟩)
  · rw [hcap] at hnone
    cases hnone
  · exact hnot htx

theorem not_mates_of_outcome {err : BindError}
    (h : Outcome st (some l) (.ok (.error err, st'))) : ¬ st.Panics l ∧ ¬ st.Mates l := by
  cases h with
  | refused h htx hrx hvec =>
      refine ⟨?_, fun hmates => not_refused_of_mates hmates h⟩
      unfold Panics
      rcases h with hnone | ⟨⟨n, hcap⟩, -⟩
      · rw [hnone]
        exact Option.some_ne_none 0 |>.symm
      · rw [hcap]
        simp
  | half h hbound hkeep hvec =>
      obtain ⟨⟨n, hcap⟩, -, hnot⟩ := h
      refine ⟨?_, fun hmates => hnot hmates.2.2⟩
      unfold Panics
      rw [hcap]
      simp

/-- A bind returns no error exactly when all its links go through. -/
theorem noError_iff_allMate (h : LinksRun st ls r) : NoError r ↔ AllMate st ls := by
  induction h with
  | done => exact ⟨fun _ => trivial, fun _ err st' hr => by cases hr⟩
  | panics h => exact ⟨fun _ => Or.inl h, fun _ err st' hr => by cases hr⟩
  | @fails st st' l rest err h =>
      refine ⟨fun hno => absurd rfl (hno err st'), fun hall => ?_⟩
      cases l with
      | none => exact hall.elim
      | some l =>
          rcases hall with hpanics | ⟨hmates, -⟩
          · exact absurd hpanics (not_mates_of_outcome h).1
          · exact absurd hmates (not_mates_of_outcome h).2
  | @mates st l rest r h hrest ih =>
      rw [ih]
      refine ⟨fun hall => Or.inr ⟨h, hall⟩, ?_⟩
      rintro (hpanics | ⟨-, hall⟩)
      · obtain ⟨⟨n, hcap⟩, -⟩ := h
        rw [Panics, hcap] at hpanics
        simp at hpanics
      · exact hall

/-- What is bound stays bound, and no vector grows. -/
theorem run_keeps (h : LinksRun st ls r) {res : Except BindError Unit} (hr : r = .ok (res, st')) :
    (∀ i, (st.tx i).channel ≠ none → (st'.tx i).channel ≠ none) ∧ st'.vec = st.vec := by
  induction h with
  | done =>
      cases hr
      exact ⟨fun _ hi => hi, rfl⟩
  | panics h => cases hr
  | fails h =>
      cases hr
      cases h with
      | refused h htx hrx hvec => exact ⟨fun i hi => by rwa [htx], hvec⟩
      | half h hbound hkeep hvec => exact ⟨hkeep, hvec⟩
  | @mates st l rest r h hrest ih =>
      obtain ⟨hkeep, hvec⟩ := ih hr
      refine ⟨fun i hi => hkeep i ?_, hvec⟩
      unfold mated connected
      by_cases hi' : i = l.tx
      · rw [hi']
        simp
      · simpa [Function.update_of_ne hi'] using hi

/-- A bind of ports changes nothing when it fails exactly when no link of it fails, or the first
one does before anything is connected. -/
theorem atomic_iff_of_run (h : LinksRun st ls r) :
    Atomic st r ↔ AllMate st ls ∨ FirstRefused st ls := by
  cases h with
  | done => exact ⟨fun _ => Or.inl trivial, fun _ err st' hr => by cases hr⟩
  | panics h => exact ⟨fun _ => Or.inl (Or.inl h), fun _ err st' hr => by cases hr⟩
  | @fails _ st' l rest err h =>
      cases h with
      | refused hrefused htx hrx hvec =>
          refine ⟨fun _ => Or.inr ⟨l, rfl, hrefused⟩, fun _ err' st'' hr => ?_⟩
          cases hr
          exact ⟨fun i => by rw [htx], fun i => by rw [hrx], fun v => by rw [hvec]⟩
      | @half l _ _ hhalf hbound hkeep hvec =>
          have hchanged : ¬ Atomic st (.ok (.error err, st')) := by
            intro hatomic
            refine hbound ?_
            rw [(hatomic err st' rfl).tx l.tx]
            exact hhalf.2.1.1
          refine ⟨fun hatomic => absurd hatomic hchanged, ?_⟩
          have houtcome : Outcome st (some l) (.ok (.error err, st')) :=
            .half hhalf hbound hkeep hvec
          rintro ((hpanics | ⟨hmates, -⟩) | ⟨_, hl, hrefused⟩)
          · exact absurd hpanics (not_mates_of_outcome houtcome).1
          · exact absurd hmates (not_mates_of_outcome houtcome).2
          · cases hl
            rcases hrefused with hnone | ⟨-, hnot⟩
            · obtain ⟨⟨n, hcap⟩, -⟩ := hhalf
              rw [hcap] at hnone
              cases hnone
            · exact absurd hhalf.2.1 hnot
  | @mates _ l rest _ hmates hrest =>
      -- The first link is made, so any error after it leaves its endpoint bound.
      have hno : Atomic st r ↔ NoError r := by
        refine ⟨fun hatomic err st' hr => ?_, NoError.atomic⟩
        have hbound : (st'.tx l.tx).channel ≠ none := by
          refine (run_keeps hrest hr).1 l.tx ?_
          unfold mated connected
          simp
        refine hbound ?_
        rw [(hatomic err st' hr).tx l.tx]
        exact hmates.2.1.1
      rw [hno, noError_iff_allMate (.mates hmates hrest), or_iff_left]
      rintro ⟨_, hl, hrefused⟩
      cases hl
      exact not_refused_of_mates hmates hrefused

/-! ### Vectors -/

/-- A vector is longer than it was. -/
def Grown (st st' : Bindings Ty) : Prop := ∃ v, (st.vec v).used < (st'.vec v).used

theorem Grown.not_unchanged (h : Grown st st') : ¬ Unchanged st st' := by
  obtain ⟨v, hv⟩ := h
  intro hsame
  exact absurd (hsame.vec v) (Nat.ne_of_gt hv)

/-- Where a vector has grown, only a bind without an error is atomic. -/
theorem atomic_iff_of_grown {st₁ : Bindings Ty} (hgrown : Grown st st₁)
    (hkeep : ∀ res st', r = .ok (res, st') → ∀ v, (st₁.vec v).used ≤ (st'.vec v).used) :
    Atomic st r ↔ NoError r := by
  refine ⟨fun hatomic err st' hr => ?_, NoError.atomic⟩
  obtain ⟨v, hv⟩ := hgrown
  exact Grown.not_unchanged ⟨v, Nat.lt_of_lt_of_le hv (hkeep _ _ hr v)⟩ (hatomic err st' hr)

theorem newPort_vec {v : PortVec Ty} {name : String} {p : Port}
    (h : st.newPort v name = .ok (p, st')) : st'.vec = st.vec := by
  unfold newPort at h
  cases hkind : v.kind with
  | master | slave | reqResp =>
      rw [hkind] at h
      obtain ⟨-, -, h⟩ := ExceptMap.bind_eq_ok_iff.mp h
      cases h
      rfl
  | dispatch =>
      simp only [hkind] at h
      split at h
      · cases h
      · cases h
      · cases h
        rfl

/-- A push is counted, whether the vector had room or not. -/
theorem nextPort_used {v : Nat} {res : Except BindError Port} (h : st.nextPort v = .ok (res, st')) :
    (st'.vec v).used = (st.vec v).used + 1 ∧
      ∀ w, (st.vec w).used ≤ (st'.vec w).used := by
  unfold nextPort at h
  obtain ⟨⟨p, st₁⟩, hnew, h⟩ := ExceptMap.bind_eq_ok_iff.mp h
  have hvec : st'.vec = Function.update st₁.vec v
      { st.vec v with used := (st.vec v).used + 1 } := by
    dsimp only at h
    split at h
    · cases h
      rfl
    · cases h
      rfl
  rw [hvec, newPort_vec hnew]
  refine ⟨by simp, fun w => ?_⟩
  by_cases hw : w = v
  · rw [hw]
    simp
  · simp [Function.update_of_ne hw]

/-- The bind goes through, or it is one of ports and its first link is refused before anything is
connected. -/
def BindsWhole [DecidableEq Ty] (st : Bindings Ty) (a b : Bindable) : Prop :=
  match st.viewAsHandle b with
  | .error _ => True
  | .ok (h, st₁) =>
      match a with
      | .port p =>
          AllMate st₁ (st₁.links p h) ∨
            (∃ q, b = .port q) ∧ FirstRefused st₁ (st₁.links p h)
      | .vec v =>
          match st₁.nextPort v with
          | .error _ => True
          | .ok (.error _, _) => False
          | .ok (.ok p, st₂) => AllMate st₂ (st₂.links p h)

/-- What a vector grew by in `view_as_handle`. -/
theorem viewAsHandle_cases {b : Bindable} {h : PortHandle} {st₁ : Bindings Ty}
    (hview : st.viewAsHandle b = .ok (h, st₁)) :
    ((∃ q, b = .port q) ∧ st₁ = st) ∨ (¬ ∃ q, b = .port q) ∧ Grown st st₁ := by
  cases b with
  | port q =>
      cases hview
      exact Or.inl ⟨⟨q, rfl⟩, rfl⟩
  | vec v =>
      refine Or.inr ⟨fun ⟨q, hq⟩ => Bindable.noConfusion hq, v, ?_⟩
      unfold viewAsHandle at hview
      obtain ⟨⟨res, st₂⟩, hnext, hview⟩ := ExceptMap.bind_eq_ok_iff.mp hview
      cases res with
      | error err => cases hview
      | ok p =>
          cases hview
          rw [(nextPort_used hnext).1]
          exact Nat.lt_succ_self _

/-- **A bind that fails changes nothing exactly when it cannot fail halfway.** -/
theorem bind_atomic_iff [DecidableEq Ty] (st : Bindings Ty) (a b : Bindable) :
    Atomic st (st.bind a b) ↔ BindsWhole st a b := by
  unfold Bindings.bind BindsWhole
  cases hview : st.viewAsHandle b with
  | error e =>
      refine ⟨fun _ => trivial, fun _ err st' hr => ?_⟩
      cases hr
  | ok view =>
      obtain ⟨h, st₁⟩ := view
      simp only [Bind.bind, Except.bind]
      cases a with
      | port p =>
          have hrun := bindPort_run st₁ p h
          simp only [bindWith]
          rcases viewAsHandle_cases hview with ⟨hport, rfl⟩ | ⟨hport, hgrown⟩
          · rw [atomic_iff_of_run hrun]
            simp only [hport, true_and]
          · rw [atomic_iff_of_grown hgrown fun res st' hr v => by rw [(run_keeps hrun hr).2],
              noError_iff_allMate hrun]
            simp only [hport, false_and, or_false]
      | vec v =>
          simp only [bindWith]
          cases hnext : st₁.nextPort v with
          | error e =>
              refine ⟨fun _ => trivial, fun _ err st' hr => ?_⟩
              cases hr
          | ok next =>
              obtain ⟨res, st₂⟩ := next
              obtain ⟨hused, hle⟩ := nextPort_used hnext
              have hgrown : Grown st st₂ := by
                rcases viewAsHandle_cases hview with ⟨-, rfl⟩ | ⟨-, w, hw⟩
                · exact ⟨v, by rw [hused]; exact Nat.lt_succ_self _⟩
                · exact ⟨w, Nat.lt_of_lt_of_le hw (hle w)⟩
              cases res with
              | error err =>
                  simp only [Bind.bind, Except.bind, iff_false]
                  intro hatomic
                  exact hgrown.not_unchanged (hatomic err st₂ rfl)
              | ok p =>
                  have hrun := bindPort_run st₂ p h
                  simp only [Bind.bind, Except.bind]
                  rw [atomic_iff_of_grown hgrown fun res st' hr v => by rw [(run_keeps hrun hr).2],
                    noError_iff_allMate hrun]

/-- An unbound master endpoint and a slave endpoint bound already. -/
def takenSlave : Bindings Unit where
  tx _ := { path := "top.a", name := "out", ty := (), pktInflight := some 1 }
  rx _ := { path := "top.b", name := "in", ty := (), channel := some ⟨0, (), 1⟩ }
  vec _ := { path := "top.c", name := "ports", kind := .reqResp, ty := (), capacity := 16 }
  nextTx := 1
  nextRx := 1
  nextChannel := 1

/-- A bind to a slave port that is bound already fails and leaves the master port bound. -/
theorem takenSlave_half_bound :
    ¬ Atomic takenSlave (takenSlave.bind (.port (.master 0)) (.port (.slave 0))) := by
  intro h
  have htx := (h _ _ rfl).tx 0
  cases htx

end Bindings

end Ra2m
