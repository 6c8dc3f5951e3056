/-
Processes that each take messages off a queue of their own.

A process works on one message at a time and passes what comes of it on, in order, to
the queues of others, each of which holds so many messages at most; a queue that is
full makes the process wait.  The processes share a state that each of them may read and
change while it works.  The surroundings put messages on queues, and a process whose
work makes nothing is where messages leave.

The state keeps a log of what happened.  Two facts tie it to the queues: what arrived
at a queue is what was taken off it followed by what it still holds, and what a
process made is what it passed on followed by what it still has in hand.  From them,
between any two processes, messages are taken in the order they were made, each once:
`Accounted.taken_made`.

Where every message a process makes goes to a lighter one, the network cannot get
stuck, however small its queues are: `exists_quiet`.
-/
import Ra2m.Lib.Runs
import Mathlib.Algebra.BigOperators.Group.Finset.Basic
import Mathlib.Algebra.GroupWithZero.Nat
import Mathlib.Algebra.Order.BigOperators.Group.Finset
import Mathlib.Data.Finset.Max
import Mathlib.Data.Fintype.BigOperators
import Mathlib.Data.List.Infix

namespace Stations

/-- What each process makes of a message, and how many messages its queue holds.  The work also
depends on what the process draws from outside, and fails with `none`. -/
structure Net (Q M D σ : Type*) where
  work : Q → D → σ → M → Option (List (Q × M) × σ)
  cap : Q → Nat

inductive Event (Q M : Type*) where
  /-- The surroundings put `m` on the queue of `q`. -/
  | arrived (q : Q) (m : M)
  /-- `q` took `m`, which `src` had put there, and made `outs` of it. -/
  | worked (q : Q) (src : Option Q) (m : M) (outs : List (Q × M))
  /-- `p` put `m` on the queue of `q`. -/
  | passed (p q : Q) (m : M)

/-- The queues, with who put each message there, and what each process has in hand. -/
structure State (Q M σ : Type*) where
  queue : Q → List (Option Q × M)
  hand : Q → List (Q × M)
  shared : σ
  log : List (Event Q M)

inductive Act (Q M D : Type*) where
  | arrive (q : Q) (m : M)
  | take (q : Q) (d : D)
  | pass (p : Q)

variable {Q M D σ : Type*}

/-- Nothing happened yet. -/
def State.init (shared : σ) : State Q M σ := ⟨fun _ => [], fun _ => [], shared, []⟩

/-- Nothing is under way. -/
def State.Quiet (s : State Q M σ) : Prop := ∀ q, s.queue q = [] ∧ s.hand q = []

variable [DecidableEq Q]

/-- `m` is put on the queue of `q`. -/
def State.put (s : State Q M σ) (q : Q) (src : Option Q) (m : M) : State Q M σ :=
  { s with queue := Function.update s.queue q (s.queue q ++ [(src, m)]) }

def Net.step (net : Net Q M D σ) (s : State Q M σ) : Act Q M D → Option (State Q M σ)
  | .arrive q m =>
      if (s.queue q).length < net.cap q then
        some { s.put q none m with log := s.log ++ [.arrived q m] }
      else none
  | .take q d =>
      match s.hand q, s.queue q with
      | [], (src, m) :: rest =>
          match net.work q d s.shared m with
          | none => none
          | some (outs, shared) =>
              some ⟨Function.update s.queue q rest, Function.update s.hand q outs, shared,
                s.log ++ [.worked q src m outs]⟩
      | _, _ => none
  | .pass p =>
      match s.hand p with
      | (q, m) :: rest =>
          if (s.queue q).length < net.cap q then
            some { s.put q (some p) m with
              hand := Function.update s.hand p rest
              log := s.log ++ [.passed p q m] }
          else none
      | [] => none

/-! ### Beginnings -/

/-- `l` is the beginning of `l'`, and all of it once `done` holds. -/
def UpTo {α : Type*} (done : Prop) (l l' : List α) : Prop :=
  ∃ rest, l' = l ++ rest ∧ (done → rest = [])

theorem UpTo.trans {α : Type*} {done : Prop} {l l' l'' : List α} (h : UpTo done l l')
    (h' : UpTo done l' l'') : UpTo done l l'' := by
  obtain ⟨rest, rfl, hrest⟩ := h
  obtain ⟨rest', rfl, hrest'⟩ := h'
  refine ⟨rest ++ rest', List.append_assoc .., fun hdone => ?_⟩
  rw [hrest hdone, hrest' hdone, List.append_nil]

theorem UpTo.map {α β : Type*} {done : Prop} {l l' : List α} (h : UpTo done l l') (f : α → β) :
    UpTo done (l.map f) (l'.map f) := by
  obtain ⟨rest, rfl, hrest⟩ := h
  refine ⟨rest.map f, List.map_append, fun hdone => ?_⟩
  rw [hrest hdone, List.map_nil]

theorem UpTo.flatMap {α β : Type*} {done : Prop} {l l' : List α} (h : UpTo done l l')
    (f : α → List β) : UpTo done (l.flatMap f) (l'.flatMap f) := by
  obtain ⟨rest, rfl, hrest⟩ := h
  refine ⟨rest.flatMap f, List.flatMap_append, fun hdone => ?_⟩
  rw [hrest hdone, List.flatMap_nil]

theorem UpTo.isPrefix {α : Type*} {done : Prop} {l l' : List α} (h : UpTo done l l') :
    l <+: l' := by
  obtain ⟨rest, rfl, -⟩ := h
  exact List.prefix_append _ _

theorem UpTo.eq {α : Type*} {done : Prop} {l l' : List α} (h : UpTo done l l') (hdone : done) :
    l = l' := by
  obtain ⟨rest, rfl, hrest⟩ := h
  rw [hrest hdone, List.append_nil]

/-- An element of a list with one more at its end is that one or one of the list. -/
theorem snoc_eq_append_cons {α : Type*} {l pre post : List α} {x y : α}
    (h : l ++ [y] = pre ++ x :: post) : (l = pre ∧ y = x) ∨ ∃ post', l = pre ++ x :: post' := by
  rcases List.eq_nil_or_concat' post with rfl | ⟨post', z, rfl⟩
  · obtain ⟨rfl, hy⟩ := List.append_inj' h rfl
    exact Or.inl ⟨rfl, (List.cons.inj hy).1⟩
  · rw [← List.cons_append, ← List.append_assoc] at h
    exact Or.inr ⟨post', (List.append_inj' h rfl).1⟩

/-! ### What the log says -/

/-- The messages that came to the queue of `q`. -/
def arrivals (q : Q) (log : List (Event Q M)) : List (Option Q × M) :=
  log.filterMap fun
    | .arrived q' m => if q' = q then some (none, m) else none
    | .passed p q' m => if q' = q then some (some p, m) else none
    | .worked .. => none

/-- The messages `q` worked on. -/
def taken (q : Q) (log : List (Event Q M)) : List (Option Q × M) :=
  log.filterMap fun
    | .worked q' src m _ => if q' = q then some (src, m) else none
    | _ => none

/-- What `p` made. -/
def made (p : Q) (log : List (Event Q M)) : List (Q × M) :=
  log.flatMap fun
    | .worked p' _ _ outs => if p' = p then outs else []
    | _ => []

/-- What `p` passed on. -/
def passedOn (p : Q) (log : List (Event Q M)) : List (Q × M) :=
  log.filterMap fun
    | .passed p' q m => if p' = p then some (q, m) else none
    | _ => none

/-- Of the messages at a queue, those `src` put there. -/
def bySrc (src : Option Q) (l : List (Option Q × M)) : List M :=
  l.filterMap fun e => if e.1 = src then some e.2 else none

/-- Of the messages of a process, those for `q`. -/
def toDst (q : Q) (l : List (Q × M)) : List M :=
  l.filterMap fun o => if o.1 = q then some o.2 else none

@[simp] theorem bySrc_nil (src : Option Q) : bySrc src ([] : List (Option Q × M)) = [] := rfl

@[simp] theorem toDst_nil (q : Q) : toDst q ([] : List (Q × M)) = [] := rfl

theorem bySrc_append (src : Option Q) (l l' : List (Option Q × M)) :
    bySrc src (l ++ l') = bySrc src l ++ bySrc src l' := List.filterMap_append

theorem toDst_append (q : Q) (l l' : List (Q × M)) : toDst q (l ++ l') = toDst q l ++ toDst q l' :=
  List.filterMap_append

theorem arrivals_append (q : Q) (log log' : List (Event Q M)) :
    arrivals q (log ++ log') = arrivals q log ++ arrivals q log' := List.filterMap_append

theorem taken_append (q : Q) (log log' : List (Event Q M)) :
    taken q (log ++ log') = taken q log ++ taken q log' := List.filterMap_append

theorem made_append (p : Q) (log log' : List (Event Q M)) :
    made p (log ++ log') = made p log ++ made p log' := List.flatMap_append

theorem passedOn_append (p : Q) (log log' : List (Event Q M)) :
    passedOn p (log ++ log') = passedOn p log ++ passedOn p log' := List.filterMap_append

/-- Messages that are all from `src` are those of `src`. -/
theorem bySrc_eq_map {src : Option Q} {l : List (Option Q × M)} (h : ∀ e ∈ l, e.1 = src) :
    bySrc src l = l.map Prod.snd := by
  induction l with
  | nil => rfl
  | cons e rest ih =>
      have hrest := ih fun e' he' => h e' (List.mem_cons_of_mem e he')
      have he := h e List.mem_cons_self
      simpa [bySrc, he] using hrest

/-- What came to `q` from `p` is what `p` passed on to `q`. -/
theorem bySrc_arrivals (p q : Q) (log : List (Event Q M)) :
    bySrc (some p) (arrivals q log) = toDst q (passedOn p log) := by
  induction log with
  | nil => rfl
  | cons e rest ih =>
      cases e with
      | arrived q' m =>
          by_cases hq : q' = q <;> simpa [arrivals, passedOn, bySrc, toDst, hq] using ih
      | worked q' src m outs => simpa [arrivals, passedOn, bySrc, toDst] using ih
      | passed p' q' m =>
          by_cases hq : q' = q <;> by_cases hp : p' = p <;>
            simpa [arrivals, passedOn, bySrc, toDst, hq, hp] using ih

/-! ### One step -/

/-- What each step does, and when it can. -/
inductive Change (net : Net Q M D σ) (s : State Q M σ) : Act Q M D → State Q M σ → Prop where
  | arrive (q : Q) (m : M) (room : (s.queue q).length < net.cap q) :
      Change net s (.arrive q m) { s.put q none m with log := s.log ++ [.arrived q m] }
  | take (q : Q) (d : D) (src : Option Q) (m : M) (rest : List (Option Q × M))
      (outs : List (Q × M)) (shared : σ) (hand : s.hand q = [])
      (queue : s.queue q = (src, m) :: rest)
      (work : net.work q d s.shared m = some (outs, shared)) :
      Change net s (.take q d) ⟨Function.update s.queue q rest, Function.update s.hand q outs,
        shared, s.log ++ [.worked q src m outs]⟩
  | pass (p q : Q) (m : M) (rest : List (Q × M)) (hand : s.hand p = (q, m) :: rest)
      (room : (s.queue q).length < net.cap q) :
      Change net s (.pass p) { s.put q (some p) m with
        hand := Function.update s.hand p rest
        log := s.log ++ [.passed p q m] }

variable {net : Net Q M D σ} {s s' : State Q M σ} {a : Act Q M D}

theorem step_iff : net.step s a = some s' ↔ Change net s a s' := by
  constructor
  · intro h
    cases a with
    | arrive q m =>
        simp only [Net.step, Option.ite_none_right_eq_some, Option.some.injEq] at h
        obtain ⟨hroom, rfl⟩ := h
        exact .arrive q m hroom
    | take q d =>
        simp only [Net.step] at h
        split at h
        · rename_i src m rest hhand hqueue
          split at h
          · cases h
          · rename_i outs shared hwork
            cases h
            exact .take q d src m rest outs shared hhand hqueue hwork
        · cases h
    | pass p =>
        simp only [Net.step] at h
        split at h
        · rename_i q m rest hhand
          simp only [Option.ite_none_right_eq_some, Option.some.injEq] at h
          obtain ⟨hroom, rfl⟩ := h
          exact .pass p q m rest hhand hroom
        · cases h
  · intro h
    cases h with
    | arrive q m room => simp only [Net.step, if_pos room]
    | take q d src m rest outs shared hand queue work => simp only [Net.step, hand, queue, work]
    | pass p q m rest hand room => simp only [Net.step, hand, if_pos room]

/-- A station takes what its queue starts with. -/
theorem exists_of_take {q : Q} {d : D} (h : net.step s (.take q d) = some s') :
    ∃ src m rest, s.queue q = (src, m) :: rest := by
  cases step_iff.mp h with
  | take q d src m rest outs shared hand queue work => exact ⟨src, m, rest, queue⟩

/-! ### In order and once -/

/-- The log accounts for the queues and the hands. -/
structure Accounted (s : State Q M σ) : Prop where
  queue : ∀ q, arrivals q s.log = taken q s.log ++ s.queue q
  hand : ∀ p, made p s.log = passedOn p s.log ++ s.hand p

theorem Accounted.init (shared : σ) : Accounted (State.init shared : State Q M σ) :=
  ⟨fun _ => rfl, fun _ => rfl⟩

/-- A message put on a queue that the log says came there keeps the account of the queues. -/
theorem Accounted.put_queue (h : Accounted s) {q : Q} {src : Option Q} {m : M} {e : Event Q M}
    (harr : ∀ q', arrivals q' [e] = if q = q' then [(src, m)] else [])
    (htaken : ∀ q', taken q' [e] = []) (q' : Q) :
    arrivals q' (s.log ++ [e]) = taken q' (s.log ++ [e]) ++ (s.put q src m).queue q' := by
  rw [arrivals_append, taken_append, h.queue q', harr q', htaken q', List.append_nil]
  by_cases hq : q = q'
  · subst hq
    simp [State.put]
  · have hne : q' ≠ q := fun h => hq h.symm
    simp [State.put, hq, hne]

theorem Accounted.step (h : Accounted s) (hstep : net.step s a = some s') : Accounted s' := by
  cases step_iff.mp hstep with
  | arrive q m room =>
      refine ⟨h.put_queue (fun q' => ?_) fun _ => rfl, ?_⟩
      · by_cases hq : q = q' <;> simp [arrivals, hq]
      · intro p
        rw [made_append, passedOn_append, h.hand p]
        simp [made, passedOn, State.put]
  | take q d src m rest outs shared hhand hqueue work =>
      refine ⟨?_, ?_⟩
      · intro q'
        show _ = _ ++ Function.update s.queue q rest q'
        rw [arrivals_append, taken_append, h.queue q']
        by_cases hq : q = q'
        · subst hq
          simp [arrivals, taken, hqueue]
        · have hne : q' ≠ q := fun h => hq h.symm
          simp [arrivals, taken, hq, hne]
      · intro p
        show _ = _ ++ Function.update s.hand q outs p
        rw [made_append, passedOn_append, h.hand p]
        by_cases hp : q = p
        · subst hp
          simp [made, passedOn, hhand]
        · have hne : p ≠ q := fun h => hp h.symm
          simp [made, passedOn, hp, hne]
  | pass p q m rest hhand room =>
      refine ⟨h.put_queue (fun q' => ?_) fun _ => rfl, ?_⟩
      · by_cases hq : q = q' <;> simp [arrivals, hq]
      · intro p'
        show _ = _ ++ Function.update s.hand p rest p'
        rw [made_append, passedOn_append, h.hand p']
        by_cases hp : p = p'
        · subst hp
          simp [made, passedOn, hhand]
        · have hne : p' ≠ p := fun h => hp h.symm
          simp [made, passedOn, hp, hne]

theorem Accounted.run {acts : List (Act Q M D)} (h : Accounted s)
    (hrun : Runs.run net.step s acts = some s') : Accounted s' :=
  Runs.run_inv (fun _ _ _ h hstep => Accounted.step h hstep) h hrun

/-- **Between two processes messages are taken in the order they were made, each once, and all of
them have been taken when nothing is under way.** -/
theorem Accounted.taken_made (h : Accounted s) (p q : Q) :
    UpTo s.Quiet (bySrc (some p) (taken q s.log)) (toDst q (made p s.log)) := by
  have hq := congrArg (bySrc (some p)) (h.queue q)
  rw [bySrc_append, bySrc_arrivals] at hq
  refine ⟨bySrc (some p) (s.queue q) ++ toDst q (s.hand p), ?_, ?_⟩
  · rw [h.hand p, toDst_append, hq, List.append_assoc]
  · intro hquiet
    rw [(hquiet q).1, (hquiet p).2]
    rfl

/-- So are the messages that came to a queue. -/
theorem Accounted.taken_arrivals (h : Accounted s) (q : Q) :
    UpTo s.Quiet (taken q s.log) (arrivals q s.log) :=
  ⟨s.queue q, h.queue q, fun hquiet => (hquiet q).1⟩

/-- What a process made of the messages for `q`, as far as `g` shows it, where that only depends on
the message. -/
theorem map_made_eq {β : Type*} {g : M → β} {h : M → List β} {p q : Q} {log : List (Event Q M)}
    (hwork : ∀ src m outs, .worked p src m outs ∈ log → (toDst q outs).map g = h m) :
    (toDst q (made p log)).map g = ((taken p log).map Prod.snd).flatMap h := by
  induction log with
  | nil => rfl
  | cons e rest ih =>
      have hrest := ih fun src m outs hmem => hwork src m outs (List.mem_cons_of_mem e hmem)
      rw [← List.singleton_append, made_append, taken_append, toDst_append, List.map_append,
        List.map_append, List.flatMap_append, hrest]
      congr 1
      cases e with
      | arrived q' m => rfl
      | passed p' q' m => rfl
      | worked q' src m outs =>
          by_cases hq : q' = p
          · subst hq
            simpa [made, taken] using hwork src m outs List.mem_cons_self
          · simp [made, taken, hq]

/-- What a process took, it worked on. -/
theorem exists_worked_of_mem_taken {q : Q} {log : List (Event Q M)} {e : Option Q × M}
    (h : e ∈ taken q log) : ∃ outs, .worked q e.1 e.2 outs ∈ log := by
  obtain ⟨ev, hmem, hev⟩ := List.mem_filterMap.mp h
  cases ev with
  | arrived q' m => cases hev
  | passed p' q' m => cases hev
  | worked q' src m outs =>
      simp only [Option.ite_none_right_eq_some, Option.some.injEq] at hev
      obtain ⟨rfl, rfl⟩ := hev
      exact ⟨outs, hmem⟩

/-! ### What the processes keep of their messages -/

/-- What comes of a message of the kind `ok` says for its queue and its sender is of such a kind
again, and keeps what `J` says of the shared state. -/
structure Keeps (net : Net Q M D σ) (ok : Q → Option Q → M → Prop) (J : σ → Prop) : Prop where
  work : ∀ q d s src m outs s', ok q src m → J s → net.work q d s m = some (outs, s') →
    J s' ∧ ∀ o ∈ outs, ok o.1 (some q) o.2

/-- Every message that is under way is of the kind for its queue, and so was every message that was
worked on. -/
structure Sound (net : Net Q M D σ) (ok : Q → Option Q → M → Prop) (J : σ → Prop)
    (s : State Q M σ) : Prop where
  shared : J s.shared
  queue : ∀ q, ∀ e ∈ s.queue q, ok q e.1 e.2
  hand : ∀ p, ∀ o ∈ s.hand p, ok o.1 (some p) o.2
  worked : ∀ q src m outs, .worked q src m outs ∈ s.log →
    ok q src m ∧ ∃ d t t', J t ∧ net.work q d t m = some (outs, t')

/-- What the surroundings put on a queue is of the kind for it. -/
def Act.Brings (ok : Q → Option Q → M → Prop) : Act Q M D → Prop
  | .arrive q m => ok q none m
  | _ => True

variable {ok : Q → Option Q → M → Prop} {J : σ → Prop}

omit [DecidableEq Q] in
theorem Sound.init {shared : σ} (h : J shared) :
    Sound net ok J (State.init shared : State Q M σ) :=
  ⟨h, fun _ _ he => absurd he List.not_mem_nil, fun _ _ he => absurd he List.not_mem_nil,
    fun _ _ _ _ he => absurd he List.not_mem_nil⟩

/-- A queue or a hand that is replaced by messages of its kind leaves all of them so. -/
private theorem forall_update {α : Type*} {f : Q → List α} {P : Q → α → Prop}
    (h : ∀ q, ∀ e ∈ f q, P q e) {q : Q} {l : List α} (hl : ∀ e ∈ l, P q e) :
    ∀ q', ∀ e ∈ Function.update f q l q', P q' e := by
  intro q' e he
  by_cases hq : q' = q
  · subst hq
    rw [Function.update_self] at he
    exact hl e he
  · rw [Function.update_of_ne hq] at he
    exact h q' e he

private theorem Sound.put_queue (h : Sound net ok J s) {q : Q} {src : Option Q} {m : M}
    (hm : ok q src m) : ∀ q', ∀ e ∈ (s.put q src m).queue q', ok q' e.1 e.2 := by
  refine forall_update (P := fun q (e : Option Q × M) => ok q e.1 e.2) h.queue ?_
  intro e he
  rcases List.mem_append.mp he with he | he
  · exact h.queue q e he
  · rw [List.mem_singleton.mp he]
    exact hm

omit [DecidableEq Q] in
/-- A step that no process works in leaves what was worked on as it is. -/
private theorem Sound.worked_snoc (h : Sound net ok J s) {e : Event Q M}
    (he : ∀ q src m outs, e ≠ .worked q src m outs) :
    ∀ q src m outs, .worked q src m outs ∈ s.log ++ [e] →
      ok q src m ∧ ∃ d t t', J t ∧ net.work q d t m = some (outs, t') := by
  intro q src m outs hmem
  rcases List.mem_append.mp hmem with hmem | hmem
  · exact h.worked q src m outs hmem
  · exact absurd (List.mem_singleton.mp hmem).symm (he q src m outs)

theorem Sound.step (hkeeps : Keeps net ok J) (h : Sound net ok J s) (ha : a.Brings ok)
    (hstep : net.step s a = some s') : Sound net ok J s' := by
  cases step_iff.mp hstep with
  | arrive q m room =>
      exact ⟨h.shared, h.put_queue ha, h.hand, h.worked_snoc (by intro _ _ _ _ he; cases he)⟩
  | take q d src m rest outs shared hand queue work =>
      have hm : ok q src m := h.queue q (src, m) (queue ▸ List.mem_cons_self)
      obtain ⟨hshared, houts⟩ := hkeeps.work q d s.shared src m outs shared hm h.shared work
      refine ⟨hshared, forall_update (P := fun q (e : Option Q × M) => ok q e.1 e.2) h.queue ?_,
        forall_update (P := fun p (o : Q × M) => ok o.1 (some p) o.2) h.hand houts, ?_⟩
      · intro e he
        exact h.queue q e (queue ▸ List.mem_cons_of_mem _ he)
      · intro q' src' m' outs' hmem
        rcases List.mem_append.mp hmem with hmem | hmem
        · exact h.worked q' src' m' outs' hmem
        · cases List.mem_singleton.mp hmem
          exact ⟨hm, d, s.shared, shared, h.shared, work⟩
  | pass p q m rest hand room =>
      have hm : ok q (some p) m := h.hand p (q, m) (hand ▸ List.mem_cons_self)
      refine ⟨h.shared, h.put_queue hm,
        forall_update (P := fun p (o : Q × M) => ok o.1 (some p) o.2) h.hand ?_,
        h.worked_snoc (by intro _ _ _ _ he; cases he)⟩
      intro o ho
      exact h.hand p o (hand ▸ List.mem_cons_of_mem _ ho)

/-! ### No deadlock -/

/-- The work on every message can be done, and what it makes is lighter than the message, all of it
together and each piece with the step that passes it on. -/
structure Descends (net : Net Q M D σ) (ok : Q → Option Q → M → Prop) (J : σ → Prop)
    (weight : Q → Nat) : Prop where
  works : ∀ q s src m, ok q src m → J s → ∃ d r, net.work q d s m = some r
  lighter : ∀ q d s src m outs s', ok q src m → J s → net.work q d s m = some (outs, s') →
    (outs.map fun o => weight o.1 + 1).sum < weight q

variable {weight : Q → Nat}

/-- What is in hand is lighter than what it was made of. -/
def Lighter (weight : Q → Nat) (s : State Q M σ) : Prop :=
  ∀ p, ∀ o ∈ s.hand p, weight o.1 < weight p

theorem Lighter.step (hdesc : Descends net ok J weight) (h : Lighter weight s)
    (hs : Sound net ok J s) (hstep : net.step s a = some s') : Lighter weight s' := by
  cases step_iff.mp hstep with
  | arrive q m room => exact h
  | take q d src m rest outs shared hand queue work =>
      refine forall_update (P := fun p (o : Q × M) => weight o.1 < weight p) h ?_
      intro o ho
      have hm : ok q src m := hs.queue q (src, m) (queue ▸ List.mem_cons_self)
      have hlt := hdesc.lighter q d s.shared src m outs shared hm hs.shared work
      have hle := List.single_le_sum (fun _ _ => Nat.zero_le _) _
        (List.mem_map_of_mem (f := fun o : Q × M => weight o.1 + 1) ho)
      omega
  | pass p q m rest hand room =>
      refine forall_update (P := fun p (o : Q × M) => weight o.1 < weight p) h ?_
      intro o ho
      exact h p o (hand ▸ List.mem_cons_of_mem _ ho)

/-- What every run from the start keeps. -/
structure Regular (net : Net Q M D σ) (ok : Q → Option Q → M → Prop) (J : σ → Prop)
    (weight : Q → Nat) (s : State Q M σ) : Prop where
  accounted : Accounted s
  sound : Sound net ok J s
  lighter : Lighter weight s

theorem Regular.init {shared : σ} (h : J shared) :
    Regular net ok J weight (State.init shared : State Q M σ) :=
  ⟨Accounted.init shared, Sound.init h, fun _ _ ho => absurd ho List.not_mem_nil⟩

theorem Regular.step (hkeeps : Keeps net ok J) (hdesc : Descends net ok J weight)
    (h : Regular net ok J weight s) (ha : a.Brings ok) (hstep : net.step s a = some s') :
    Regular net ok J weight s' :=
  ⟨h.accounted.step hstep, h.sound.step hkeeps ha hstep, h.lighter.step hdesc h.sound hstep⟩

theorem Regular.run (hkeeps : Keeps net ok J) (hdesc : Descends net ok J weight)
    {acts : List (Act Q M D)} (h : Regular net ok J weight s) (hacts : ∀ a ∈ acts, a.Brings ok)
    (hrun : Runs.run net.step s acts = some s') : Regular net ok J weight s' := by
  refine Runs.run_inv_along (I := Regular net ok J weight) (P := fun _ a => a.Brings ok) ?_ h
    (Runs.along_of_forall hacts) hrun
  intro s a s' h ha hstep
  exact h.step hkeeps hdesc ha hstep

/-- What came to a queue is of the kind for it. -/
theorem Regular.arrivals_ok (h : Regular net ok J weight s) {q : Q} {e : Option Q × M}
    (he : e ∈ arrivals q s.log) : ok q e.1 e.2 := by
  rw [h.accounted.queue q] at he
  rcases List.mem_append.mp he with he | he
  · obtain ⟨outs, hmem⟩ := exists_worked_of_mem_taken he
    exact (h.sound.worked q e.1 e.2 outs hmem).1
  · exact h.sound.queue q e he

/-- The step is one of the processes'. -/
def Act.Inner (a : Act Q M D) : Prop := ∀ q m, a ≠ .arrive q m

omit [DecidableEq Q] in
theorem Act.Inner.brings (ha : a.Inner) : a.Brings ok := by
  cases a with
  | arrive q m => exact absurd rfl (ha q m)
  | take q d => trivial
  | pass p => trivial

omit [DecidableEq Q] in
theorem Act.inner_take (q : Q) (d : D) : (Act.take q d : Act Q M D).Inner := by
  intro q' m heq
  cases heq

/-- A step of the processes brings nothing new. -/
theorem bySrc_none_step (ha : a.Inner) (hstep : net.step s a = some s') (q : Q) :
    bySrc none (arrivals q s'.log) = bySrc none (arrivals q s.log) := by
  cases step_iff.mp hstep with
  | arrive q m room => exact absurd rfl (ha q m)
  | take q' d src m rest outs shared hand queue work => simp [arrivals]
  | pass p q' m rest hand room => by_cases hq : q' = q <;> simp [arrivals, bySrc, hq]

theorem bySrc_none_run {acts : List (Act Q M D)} (hacts : ∀ a ∈ acts, a.Inner)
    (hrun : Runs.run net.step s acts = some s') (q : Q) :
    bySrc none (arrivals q s'.log) = bySrc none (arrivals q s.log) := by
  refine Runs.run_inv_along (I := fun t => bySrc none (arrivals q t.log) =
    bySrc none (arrivals q s.log)) (P := fun _ a => a.Inner) ?_ rfl
    (Runs.along_of_forall hacts) hrun
  intro t a t' h ha hstep
  exact (bySrc_none_step ha hstep q).trans h

/-- What came to a queue from outside was put there by a step of the surroundings. -/
theorem bySrc_none_forall_run {P : M → Prop} {q : Q} {acts : List (Act Q M D)}
    (hacts : ∀ m, .arrive q m ∈ acts → P m) (h : ∀ m ∈ bySrc none (arrivals q s.log), P m)
    (hrun : Runs.run net.step s acts = some s') : ∀ m ∈ bySrc none (arrivals q s'.log), P m := by
  have hall : ∀ a ∈ acts, ∀ m, a = .arrive q m → P m := by
    rintro a ha m rfl
    exact hacts m ha
  refine Runs.run_inv_along (I := fun t => ∀ m ∈ bySrc none (arrivals q t.log), P m)
    (P := fun _ a => ∀ m, a = .arrive q m → P m) ?_ h (Runs.along_of_forall hall) hrun
  intro t a t' ht ha hstep
  by_cases hinner : a.Inner
  · rw [bySrc_none_step hinner hstep]
    exact ht
  · cases step_iff.mp hstep with
    | arrive q' m room =>
        simp only [arrivals_append, bySrc_append, List.forall_mem_append]
        refine ⟨ht, ?_⟩
        by_cases hq : q' = q
        · subst hq
          simpa [arrivals, bySrc] using ha m rfl
        · simp [arrivals, hq]
    | take q' d src m rest outs shared hand queue work => exact absurd (nofun) hinner
    | pass p q' m rest hand room => exact absurd (nofun) hinner

section

variable [Fintype Q]

/-- What is left to do: a message weighs what its queue does, and one step more in a hand. -/
def load (weight : Q → Nat) (s : State Q M σ) : Nat :=
  (∑ q, (s.queue q).length * weight q) + ∑ p, ((s.hand p).map fun o => weight o.1 + 1).sum

/-- Sums of two functions that agree but for one place differ by what they are there. -/
theorem sum_update (f : Q → Nat) (q : Q) (x : Nat) :
    (∑ q', Function.update f q x q') + f q = (∑ q', f q') + x := by
  have hf := Finset.add_sum_erase Finset.univ f (Finset.mem_univ q)
  have hx := Finset.add_sum_erase Finset.univ (Function.update f q x) (Finset.mem_univ q)
  have hrest : ∑ q' ∈ Finset.univ.erase q, Function.update f q x q' =
      ∑ q' ∈ Finset.univ.erase q, f q' := by
    refine Finset.sum_congr rfl fun q' hq' => ?_
    exact Function.update_of_ne (Finset.ne_of_mem_erase hq') x f
  rw [Function.update_self, hrest] at hx
  omega

private theorem sum_queue_update (weight : Q → Nat) (s : State Q M σ) (q : Q)
    (l : List (Option Q × M)) :
    (∑ q', (Function.update s.queue q l q').length * weight q') + (s.queue q).length * weight q =
      (∑ q', (s.queue q').length * weight q') + l.length * weight q := by
  rw [← sum_update (fun q' => (s.queue q').length * weight q') q (l.length * weight q)]
  congr 1
  refine Finset.sum_congr rfl fun q' _ => ?_
  by_cases hq : q' = q
  · subst hq
    rw [Function.update_self, Function.update_self]
  · rw [Function.update_of_ne hq, Function.update_of_ne hq]

private theorem sum_hand_update (weight : Q → Nat) (s : State Q M σ) (p : Q) (l : List (Q × M)) :
    (∑ p', ((Function.update s.hand p l p').map fun o => weight o.1 + 1).sum) +
        ((s.hand p).map fun o => weight o.1 + 1).sum =
      (∑ p', ((s.hand p').map fun o => weight o.1 + 1).sum) +
        (l.map fun o => weight o.1 + 1).sum := by
  rw [← sum_update (fun p' => ((s.hand p').map fun o => weight o.1 + 1).sum) p
    (l.map fun o => weight o.1 + 1).sum]
  congr 1
  refine Finset.sum_congr rfl fun p' _ => ?_
  by_cases hp : p' = p
  · subst hp
    rw [Function.update_self, Function.update_self]
  · rw [Function.update_of_ne hp, Function.update_of_ne hp]

/-- What comes in from outside weighs what its queue does. -/
theorem load_arrive {q : Q} {m : M} (hstep : net.step s (.arrive q m) = some s') :
    load weight s' = load weight s + weight q := by
  cases step_iff.mp hstep with
  | arrive q m room =>
      have hq := sum_queue_update weight s q (s.queue q ++ [(none, m)])
      rw [List.length_append, List.length_singleton, Nat.succ_mul] at hq
      simp only [load, State.put]
      omega

/-- Work and passing on bring the network closer to being quiet. -/
theorem load_lt (hdesc : Descends net ok J weight) (hs : Sound net ok J s) (ha : a.Inner)
    (hstep : net.step s a = some s') : load weight s' < load weight s := by
  cases step_iff.mp hstep with
  | arrive q m room => exact absurd rfl (ha q m)
  | take q d src m rest outs shared hand queue work =>
      have hm : ok q src m := hs.queue q (src, m) (queue ▸ List.mem_cons_self)
      have hlt := hdesc.lighter q d s.shared src m outs shared hm hs.shared work
      have hq := sum_queue_update weight s q rest
      have hh := sum_hand_update weight s q outs
      rw [queue, List.length_cons, Nat.succ_mul] at hq
      rw [hand, List.map_nil, List.sum_nil] at hh
      simp only [load]
      omega
  | pass p q m rest hand room =>
      have hq := sum_queue_update weight s q (s.queue q ++ [(some p, m)])
      have hh := sum_hand_update weight s p rest
      rw [List.length_append, List.length_singleton, Nat.succ_mul] at hq
      simp only [hand, List.map_cons, List.sum_cons] at hh
      simp only [load, State.put]
      omega

/-- Unless everything is quiet, the lightest process with something to do can do it. -/
theorem exists_step (hdesc : Descends net ok J weight) (hcap : ∀ q, 0 < net.cap q)
    (h : Regular net ok J weight s) (hbusy : ¬ s.Quiet) :
    ∃ a s', a.Inner ∧ net.step s a = some s' := by
  have hne : (Finset.univ.filter fun q => ¬ (s.queue q = [] ∧ s.hand q = [])).Nonempty := by
    obtain ⟨q, hq⟩ := not_forall.mp hbusy
    exact ⟨q, Finset.mem_filter.mpr ⟨Finset.mem_univ q, hq⟩⟩
  obtain ⟨q, hq, hmin⟩ := Finset.exists_min_image _ weight hne
  have hbusy := (Finset.mem_filter.mp hq).2
  cases hhand : s.hand q with
  | cons o rest =>
      obtain ⟨q', m⟩ := o
      -- A lighter process has nothing queued, so there is room for what goes to it.
      have hlt : weight q' < weight q := h.lighter q (q', m) (hhand ▸ List.mem_cons_self)
      have hempty : s.queue q' = [] := by
        by_contra hne'
        have hle := hmin q' (Finset.mem_filter.mpr ⟨Finset.mem_univ q', fun h => hne' h.1⟩)
        omega
      have hroom : (s.queue q').length < net.cap q' := by
        rw [hempty]
        exact hcap q'
      exact ⟨.pass q, _, (by intro _ _ h; cases h), step_iff.mpr (.pass q q' m rest hhand hroom)⟩
  | nil =>
      cases hqueue : s.queue q with
      | nil => exact absurd ⟨hqueue, hhand⟩ hbusy
      | cons e rest =>
          obtain ⟨src, m⟩ := e
          have hm : ok q src m := h.sound.queue q (src, m) (hqueue ▸ List.mem_cons_self)
          obtain ⟨d, ⟨outs, shared⟩, hwork⟩ := hdesc.works q s.shared src m hm h.sound.shared
          exact ⟨.take q d, _, (by intro _ _ h; cases h),
            step_iff.mpr (.take q d src m rest outs shared hhand hqueue hwork)⟩

/-- **A network whose messages get lighter never gets stuck: from any state it can be brought to
rest by its own steps, however small its queues are.** -/
theorem exists_quiet (hkeeps : Keeps net ok J) (hdesc : Descends net ok J weight)
    (hcap : ∀ q, 0 < net.cap q) (h : Regular net ok J weight s) :
    ∃ acts s', Runs.run net.step s acts = some s' ∧ (∀ a ∈ acts, a.Inner) ∧ s'.Quiet := by
  have hcloser : ∀ t, (Regular net ok J weight t ∧ ∃ acts, (∀ a ∈ acts, a.Inner) ∧
      Runs.run net.step s acts = some t) → ¬ t.Quiet → ∃ a t', net.step t a = some t' ∧
        (Regular net ok J weight t' ∧ ∃ acts, (∀ a ∈ acts, a.Inner) ∧
          Runs.run net.step s acts = some t') ∧ load weight t' < load weight t := by
    rintro t ⟨ht, acts, hacts, hrun⟩ hbusy
    obtain ⟨a, t', ha, hstep⟩ := exists_step hdesc hcap ht hbusy
    refine ⟨a, t', hstep, ⟨ht.step hkeeps hdesc ha.brings hstep, acts ++ [a], ?_,
      Runs.run_snoc_iff.mpr ⟨t, hrun, hstep⟩⟩, load_lt hdesc ht.sound ha hstep⟩
    intro b hb
    rcases List.mem_append.mp hb with hb | hb
    · exact hacts b hb
    · rw [List.mem_singleton.mp hb]
      exact ha
  obtain ⟨-, s', -, ⟨-, acts, hacts, hrun⟩, hquiet⟩ :=
    Runs.exists_run_of_closer (load weight) hcloser
      ⟨h, [], fun _ ha => absurd ha List.not_mem_nil, rfl⟩
  exact ⟨acts, s', hrun, hacts, hquiet⟩

end

end Stations
